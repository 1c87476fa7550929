import Cos.Elf.Image

/-! # Where a mapped file lies

A file that `cos_elf_map` accepts is mapped, segment by segment, inside the range it announces:
from the page of its lowest address to the page after its highest one, moved by the bias.
-/

namespace Cos.Elf

def SegmentsWithin (phdrs : List Phdr) (minV maxV : Nat) : Prop :=
  ∀ ph ∈ phdrs, ph.type = .load → ph.memsz ≠ 0 → minV ≤ ph.vaddr ∧ ph.vaddr + ph.memsz ≤ maxV

structure BoundsOk (bounds : LoadBounds) : Prop where
  fits : bounds.maxV < 2 ^ 64
  nonempty : bounds.count ≠ 0 → bounds.minV < bounds.maxV

theorem validateFrom_spec {length : Nat} {phdrs : List Phdr} {before after : LoadBounds}
    (ok : BoundsOk before) (ran : validateFrom length phdrs before = some after) :
    BoundsOk after ∧ after.minV ≤ before.minV ∧ before.maxV ≤ after.maxV ∧
      SegmentsWithin phdrs after.minV after.maxV := by
  induction phdrs generalizing before with
  | nil =>
      obtain rfl := Option.some.inj ran
      exact ⟨ok, Nat.le_refl _, Nat.le_refl _, fun _ member => by contradiction⟩
  | cons ph rest ih =>
      rw [validateFrom] at ran
      split at ran
      · rename_i notLoad
        obtain ⟨okAfter, low, high, within⟩ := ih ok ran
        refine ⟨okAfter, low, high, fun other member load => ?_⟩
        rcases List.mem_cons.mp member with rfl | later
        · exact absurd load notLoad
        · exact within other later load
      · split at ran
        · contradiction
        · rename_i accepted
          split at ran
          · rename_i empty
            have okNow : BoundsOk { before with total := before.total + ph.memsz } :=
              ⟨ok.fits, ok.nonempty⟩
            obtain ⟨okAfter, low, high, within⟩ := ih okNow ran
            refine ⟨okAfter, low, high, fun other member load nonempty => ?_⟩
            rcases List.mem_cons.mp member with rfl | later
            · exact absurd empty nonempty
            · exact within other later load nonempty
          · split at ran
            · contradiction
            · simp only [not_or, Nat.not_le, Nat.not_lt] at accepted
              obtain ⟨_, _, _, fits, _⟩ := accepted
              have okNow : BoundsOk ⟨before.total + ph.memsz, min ph.vaddr before.minV,
                  max (ph.vaddr + ph.memsz) before.maxV, before.count + 1⟩ := by
                refine ⟨Nat.max_lt.mpr ⟨fits, ok.fits⟩, fun _ => ?_⟩
                dsimp only
                omega
              obtain ⟨okAfter, low, high, within⟩ := ih okNow ran
              dsimp only at low high
              refine ⟨okAfter, by omega, by omega, fun other member load size => ?_⟩
              rcases List.mem_cons.mp member with rfl | later
              · omega
              · exact within other later load size

theorem validateLoads_spec {image : ElfImage} {minV maxV : Nat}
    (ran : validateLoads image = some (minV, maxV)) :
    minV < maxV ∧ maxV < 2 ^ 64 ∧ SegmentsWithin image.phdrs minV maxV := by
  rw [validateLoads] at ran
  cases result : validateFrom image.length image.phdrs ⟨0, 2 ^ 64 - 1, 0, 0⟩ with
  | none =>
      rw [result] at ran
      contradiction
  | some bounds =>
      simp only [result] at ran
      split at ran
      · contradiction
      · rename_i counted
        obtain ⟨rfl, rfl⟩ := Prod.mk.inj (Option.some.inj ran)
        have start : BoundsOk ⟨0, 2 ^ 64 - 1, 0, 0⟩ := ⟨by simp, by simp⟩
        obtain ⟨ok, _, _, within⟩ := validateFrom_spec start result
        exact ⟨ok.nonempty counted, ok.fits, within⟩

def spanOf (minV maxV : Nat) : Nat := sub64 (pageUp maxV) (pageDown minV)

theorem spanOf_eq {minV maxV : Nat} (order : minV < maxV) (fits : maxV < 2 ^ 64) :
    spanOf minV maxV = pageUp maxV - pageDown minV ∧ pageDown minV < pageUp maxV ∧
      pageUp maxV < 2 ^ 64 := by
  have below : pageDown minV ≤ minV := by
    unfold pageDown
    omega
  have above : maxV ≤ pageUp maxV ∧ pageUp maxV < 2 ^ 64 := by
    unfold pageUp
    split <;> omega
  unfold spanOf sub64
  omega

/-- The bias is a whole number of pages and the announced range is one of user addresses. -/
structure Placed (bias minV maxV : Nat) : Prop where
  aligned : bias % 4096 = 0
  order : minV < maxV
  fits : maxV < 2 ^ 64
  user : (bias + pageDown minV) % 2 ^ 64 + spanOf minV maxV ≤ 0x800000000000

theorem userSpanOk_spec {start len : Nat} (ok : userSpanOk start len = true) (nonempty : len ≠ 0) :
    0x8000000000 ≤ start ∧ start + len ≤ 0x800000000000 := by
  simp only [userSpanOk, Bool.or_eq_true, beq_iff_eq, nonempty, false_or, Bool.and_eq_true,
    decide_eq_true_eq] at ok
  exact ⟨ok.1.2, ok.2⟩

variable {bias minV maxV : Nat}

theorem Placed.segment (placed : Placed bias minV maxV) {vaddr memsz : Nat} (low : minV ≤ vaddr)
    (high : vaddr + memsz ≤ maxV) :
    (bias + pageDown minV) % 2 ^ 64 ≤ pageDown ((bias + vaddr) % 2 ^ 64) ∧
      pageDown ((bias + vaddr) % 2 ^ 64) ≤ pageUp (((bias + vaddr) % 2 ^ 64 + memsz) % 2 ^ 64) ∧
      pageUp (((bias + vaddr) % 2 ^ 64 + memsz) % 2 ^ 64) ≤
        pageUp ((bias + pageDown minV) % 2 ^ 64 + spanOf minV maxV) := by
  obtain ⟨aligned, order, fits, user⟩ := placed
  obtain ⟨isSpan, nonempty, top⟩ := spanOf_eq order fits
  rw [isSpan] at user ⊢
  have floor : pageDown minV ≤ minV ∧ pageDown minV % 4096 = 0 := by
    unfold pageDown
    omega
  have ceiling : maxV ≤ pageUp maxV := by
    unfold pageUp
    split <;> omega
  obtain ⟨highest, isHighest⟩ : ∃ highest, pageUp maxV = highest := ⟨_, rfl⟩
  rw [isHighest] at user ceiling nonempty top ⊢
  unfold pageDown pageUp
  rw [if_neg (by omega), if_neg (by omega)]
  omega

/-- What mapping does to the pages: copies go to page ranges between the two addresses, and
so does every page that is new. -/
structure MapsWithin (low high : Nat) (before after : UserPages) (copies : List Seg) : Prop where
  copied : after.copied = before.copied ++ copies
  within : ∀ seg ∈ copies, low ≤ seg.start ∧ seg.stop ≤ high
  kept : ∀ p, before.mapped p = true → after.mapped p = true
  fresh : ∀ p, after.mapped p = true → before.mapped p = true ∨ (low / 4096 ≤ p ∧ p < high / 4096)

variable {low high : Nat} {before middle after : UserPages}

theorem MapsWithin.refl (pages : UserPages) : MapsWithin low high pages pages [] :=
  ⟨(List.append_nil _).symm, fun _ member => by contradiction, fun _ mapped => mapped,
    fun _ mapped => .inl mapped⟩

theorem MapsWithin.trans {first second : List Seg} (one : MapsWithin low high before middle first)
    (two : MapsWithin low high middle after second) :
    MapsWithin low high before after (first ++ second) where
  copied := by rw [two.copied, one.copied, List.append_assoc]
  within := fun seg member => (List.mem_append.mp member).elim (one.within seg) (two.within seg)
  kept := fun p mapped => two.kept p (one.kept p mapped)
  fresh := fun p mapped => (two.fresh p mapped).elim (one.fresh p) .inr

theorem mapRangeRw_within {memory : Nat → Bool} {first count : Nat} {ok : Bool}
    (ran : mapRangeRw memory first count before = (ok, after)) (bottom : low / 4096 ≤ first)
    (top : first + count ≤ high / 4096) : MapsWithin low high before after [] := by
  induction count generalizing first before with
  | zero =>
      obtain ⟨_, rfl⟩ := Prod.mk.inj ran
      exact .refl _
  | succ count ih =>
      rw [mapRangeRw] at ran
      split at ran
      · exact ih ran (by omega) (by omega)
      · rw [UserPages.allocate] at ran
        cases granted : memory before.tick with
        | false =>
            rw [granted] at ran
            obtain ⟨_, rfl⟩ := Prod.mk.inj ran
            exact ⟨(List.append_nil _).symm,
              fun _ member => by contradiction, fun _ mapped => mapped, fun _ mapped => .inl mapped⟩
        | true =>
            rw [granted] at ran
            have rest := ih ran (by omega) (by omega)
            refine ⟨rest.copied, rest.within, fun p mapped => rest.kept p ?_, fun p mapped => ?_⟩
            · simp only [Function.update_apply]
              split
              · rfl
              · exact mapped
            · rcases rest.fresh p mapped with old | new
              · simp only [Function.update_apply] at old
                split at old
                · rename_i here
                  subst here
                  exact .inr ⟨bottom, by omega⟩
                · exact .inl old
              · exact .inr new

theorem mapSegments_within {memory : Nat → Bool} {image : ElfImage} (placed : Placed bias minV maxV)
    {phdrs : List Phdr} {segs : List Seg} {result : Option (List Seg)}
    (inside : SegmentsWithin phdrs minV maxV)
    (ran : mapSegments memory image bias phdrs segs before = (result, after)) :
    ∃ copies, MapsWithin ((bias + pageDown minV) % 2 ^ 64)
        (pageUp ((bias + pageDown minV) % 2 ^ 64 + spanOf minV maxV)) before after copies ∧
      ∀ mapped, result = some mapped → mapped = segs ++ copies := by
  induction phdrs generalizing segs before with
  | nil =>
      obtain ⟨rfl, rfl⟩ := Prod.mk.inj ran
      exact ⟨[], .refl _, fun mapped same => by rw [← Option.some.inj same, List.append_nil]⟩
  | cons ph rest ih =>
      have restInside : SegmentsWithin rest minV maxV := fun other member =>
        inside other (List.mem_cons_of_mem _ member)
      rw [mapSegments] at ran
      split at ran
      · exact ih restInside ran
      · rename_i loads
        simp only [not_or, ne_eq, Decidable.not_not] at loads
        obtain ⟨isLoad, nonempty⟩ := loads
        obtain ⟨lowV, highV⟩ := inside ph (List.mem_cons_self ..) isLoad nonempty
        obtain ⟨bottom, forward, top⟩ := placed.segment lowV highV
        dsimp only at ran
        obtain ⟨s, isS⟩ : ∃ s, pageDown ((bias + ph.vaddr) % 2 ^ 64) = s := ⟨_, rfl⟩
        obtain ⟨e, isE⟩ : ∃ e, pageUp (((bias + ph.vaddr) % 2 ^ 64 + ph.memsz) % 2 ^ 64) = e := ⟨_, rfl⟩
        rw [isS] at bottom
        rw [isE] at top
        rw [isS, isE] at ran
        split at ran
        · obtain ⟨rfl, rfl⟩ := Prod.mk.inj ran
          exact ⟨[], .refl _, fun _ same => by contradiction⟩
        · obtain ⟨outcome, isOutcome⟩ : ∃ outcome,
            mapRangeRw memory (s / 4096) ((e - s) / 4096) before = outcome := ⟨_, rfl⟩
          rw [isOutcome] at ran
          obtain ⟨ok, pages⟩ := outcome
          have pagesTop : s / 4096 + (e - s) / 4096 ≤
              pageUp ((bias + pageDown minV) % 2 ^ 64 + spanOf minV maxV) / 4096 := by
            omega
          have mapped := mapRangeRw_within isOutcome (Nat.div_le_div_right bottom) pagesTop
          cases ok with
          | false =>
              obtain ⟨rfl, rfl⟩ := Prod.mk.inj ran
              exact ⟨[], mapped, fun _ same => by contradiction⟩
          | true =>
              obtain ⟨copies, within, isMapped⟩ := ih restInside ran
              have here : MapsWithin ((bias + pageDown minV) % 2 ^ 64)
                  (pageUp ((bias + pageDown minV) % 2 ^ 64 + spanOf minV maxV)) before
                  (copySegment image ph ((bias + ph.vaddr) % 2 ^ 64) ⟨s, e⟩ pages) [⟨s, e⟩] := by
                refine ⟨?_, fun seg member => ?_, mapped.kept, mapped.fresh⟩
                · rw [copySegment, mapped.copied, List.append_nil]
                · rw [List.mem_singleton.mp member]
                  exact ⟨bottom, top⟩
              refine ⟨[⟨s, e⟩] ++ copies, here.trans within, fun found same => ?_⟩
              rw [isMapped found same, List.append_assoc]

theorem Placed.mapEnd (placed : Placed bias minV maxV) :
    (bias + pageUp maxV) % 2 ^ 64 = (bias + pageDown minV) % 2 ^ 64 + spanOf minV maxV := by
  obtain ⟨_, order, fits, user⟩ := placed
  obtain ⟨isSpan, nonempty, top⟩ := spanOf_eq order fits
  omega

theorem cosElfMap_within {memory : Nat → Bool} {pie : Nat} {image : ElfImage}
    {result : Option ElfObject} (ran : cosElfMap memory pie image bias before = (result, after)) :
    (result = none ∧ after = before) ∨ ∃ minV maxV copies, validateLoads image = some (minV, maxV) ∧
      (image.eType = .exec → bias = 0) ∧ Placed (effectiveBias pie image bias) minV maxV ∧
      MapsWithin ((effectiveBias pie image bias + pageDown minV) % 2 ^ 64)
        (pageUp ((effectiveBias pie image bias + pageDown minV) % 2 ^ 64 + spanOf minV maxV)) before
        after copies ∧
      ∀ obj, result = some obj →
        obj = mappedObject image (effectiveBias pie image bias) minV maxV copies := by
  rw [cosElfMap] at ran
  cases bounds : validateLoads image with
  | none =>
      rw [bounds] at ran
      obtain ⟨rfl, rfl⟩ := Prod.mk.inj ran
      exact .inl ⟨rfl, rfl⟩
  | some pair =>
      obtain ⟨minV, maxV⟩ := pair
      obtain ⟨order, fits, inside⟩ := validateLoads_spec bounds
      rw [bounds] at ran
      dsimp only at ran
      obtain ⟨loadBias, isBias⟩ : ∃ loadBias, effectiveBias pie image bias = loadBias := ⟨_, rfl⟩
      rw [isBias] at ran
      split at ran
      · obtain ⟨rfl, rfl⟩ := Prod.mk.inj ran
        exact .inl ⟨rfl, rfl⟩
      · rename_i accepted
        simp only [not_or, not_and, Decidable.not_not, Bool.not_eq_true, Bool.not_eq_false'] at accepted
        obtain ⟨fixed, aligned, user⟩ := accepted
        obtain ⟨isSpan, nonempty, _⟩ := spanOf_eq order fits
        have userRange := @userSpanOk_spec _ (spanOf minV maxV) user (by omega)
        have placed : Placed loadBias minV maxV := by
          refine ⟨?_, order, fits, userRange.2⟩
          cases kind : image.eType with
          | dyn => exact aligned kind
          | exec => simp [← isBias, effectiveBias, kind, fixed kind]
        obtain ⟨outcome, isOutcome⟩ : ∃ outcome,
          mapSegments memory image loadBias image.phdrs [] before = outcome := ⟨_, rfl⟩
        rw [isOutcome] at ran
        obtain ⟨mapped, pages⟩ := outcome
        obtain ⟨copies, within, isMapped⟩ := mapSegments_within placed inside isOutcome
        rw [isBias]
        cases mapped with
        | none =>
            obtain ⟨rfl, rfl⟩ := Prod.mk.inj ran
            exact .inr ⟨minV, maxV, copies, rfl, fixed, placed, within, fun _ same => by contradiction⟩
        | some segs =>
            dsimp only at ran
            split at ran
            · obtain ⟨rfl, rfl⟩ := Prod.mk.inj ran
              exact .inr ⟨minV, maxV, copies, rfl, fixed, placed, within, fun _ same => by contradiction⟩
            · obtain ⟨rfl, rfl⟩ := Prod.mk.inj ran
              refine .inr ⟨minV, maxV, copies, rfl, fixed, placed, within, fun obj same => ?_⟩
              rw [← Option.some.inj same, isMapped segs rfl, List.nil_append]

end Cos.Elf
