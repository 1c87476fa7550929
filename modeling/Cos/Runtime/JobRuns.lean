import Cos.Lib.Ring
import Cos.Runtime.JobQueue
import Mathlib

/-! # Runs of the idle-work queue

One slot serves the positions that are equal modulo the size of the ring, one after the other.
-/

namespace Cos.Runtime

open Cos.Lib
open Function (update update_of_ne update_self)

variable {w : JobWorld} {t : Nat} {p s : Nat}

def Pc.hasJob : Pc → Bool
  | .getFn _ | .getArg _ _ | .release _ _ _ | .run _ _ => true
  | _ => false

namespace JobWorld

def Holds (w : JobWorld) (t p : Nat) : Prop := w.spot t = p ∧ (w.q.pcs t).hasJob = true

/-- Every accepted job is still there with its function and argument, or is on its way, or ran; none
ran twice; the n-th job taken was the n-th position claimed; and a push failed only with the ring
full. -/
structure RunsOnce (w : JobWorld) : Prop where
  once : (w.ran.map Prod.fst).Nodup
  right : ∀ job ∈ w.ran, w.claimed[job.1]? = some job.2
  kept : ∀ p ∈ w.accepted, p ∈ w.ran.map Prod.fst ∨ (∃ t, w.Holds t p) ∨
    (w.takes ≤ p ∧ w.q.seq (p % jqSize) = BitVec.ofNat 32 (p + 1) ∧
      w.claimed[p]? = some (w.q.fn (p % jqSize), w.q.arg (p % jqSize)))
  full : ∀ count ∈ w.refusals, count = jqSize

/-- No store of `jq_init` falls on a slot that was used; no thread sleeps through half the numbers
before it looks at a slot, or through all of them before its exchange; and no slot is given back out
of turn while a push looks at one in use. -/
def orderly (w : JobWorld) : JobStep → Prop
  | .go t _ =>
      match w.q.pcs t with
      | .init _ _ i => i < jqSize → w.claims ≤ i ∨ w.q.seq i = BitVec.ofNat 32 i
      | .pushSeq _ _ _ =>
          w.claims + jqSize ≤ w.spot t + 2 ^ 31 ∧
            (jqSize ≤ w.claims → (w.phase (w.claims - jqSize)).free = false →
              ∀ p < w.claims, w.claims ≤ p + jqSize → (w.phase p).free = false)
      | .claimEnq _ _ _ => w.claims < w.spot t + 2 ^ 32
      | .claimDeq _ => w.takes < w.spot t + 2 ^ 32
      | _ => True
  | _ => True

instance (w : JobWorld) (label : JobStep) : Decidable (orderly w label) :=
  match label with
  | .push _ _ _ => isTrue trivial
  | .work _ => isTrue trivial
  | .go t spurious => by
      unfold orderly
      dsimp only
      split
      · exact inferInstance
      · exact inferInstance
      · exact inferInstance
      · exact inferInstance
      · exact inferInstance

def CellOk (w : JobWorld) (p : Nat) : Prop :=
  match w.phase p with
  | .untouched => p < jqSize → w.inited p = true → w.q.seq p = BitVec.ofNat 32 p
  | .writing _ => w.q.seq (p % jqSize) = BitVec.ofNat 32 p
  | .published | .taken _ =>
      w.q.seq (p % jqSize) = BitVec.ofNat 32 (p + 1) ∧
        w.claimed[p]? = some (w.q.fn (p % jqSize), w.q.arg (p % jqSize))
  | .left _ | .done =>
      w.phase (p + jqSize) = .untouched → w.q.seq (p % jqSize) = BitVec.ofNat 32 (p + jqSize)

def AllInited (w : JobWorld) : Prop := ∀ i < jqSize, w.inited i = true

/-- The slot of a position was given back by the position before it. -/
def Freed (w : JobWorld) (p : Nat) : Prop := jqSize ≤ p → (w.phase (p - jqSize)).free = true

def ThreadOk (w : JobWorld) (t : Nat) : Prop :=
  match w.q.pcs t with
  | .idle | .testReady _ _ | .checkReady => True
  | .init _ _ i => ∀ j < i, w.inited j = true
  | .loadEnq _ _ | .loadDeq => w.AllInited
  | .pushSeq _ _ pos => w.AllInited ∧ pos = BitVec.ofNat 32 (w.spot t) ∧ w.spot t ≤ w.claims
  | .claimEnq _ _ pos =>
      w.AllInited ∧ pos = BitVec.ofNat 32 (w.spot t) ∧ w.spot t ≤ w.claims ∧
        (w.claims ≤ w.spot t → w.Freed (w.spot t))
  | .putFn fn arg pos =>
      pos = BitVec.ofNat 32 (w.spot t) ∧ w.phase (w.spot t) = .writing t ∧ w.claimed[w.spot t]? = some (fn, arg)
  | .putArg arg pos =>
      pos = BitVec.ofNat 32 (w.spot t) ∧ w.phase (w.spot t) = .writing t ∧
        w.claimed[w.spot t]? = some (w.q.fn (w.spot t % jqSize), arg)
  | .publish pos =>
      pos = BitVec.ofNat 32 (w.spot t) ∧ w.phase (w.spot t) = .writing t ∧
        w.claimed[w.spot t]? = some (w.q.fn (w.spot t % jqSize), w.q.arg (w.spot t % jqSize))
  | .popSeq pos => w.AllInited ∧ pos = BitVec.ofNat 32 (w.spot t) ∧ w.spot t ≤ w.takes
  | .claimDeq pos =>
      w.AllInited ∧ pos = BitVec.ofNat 32 (w.spot t) ∧ w.spot t ≤ w.takes ∧
        (w.takes ≤ w.spot t → w.phase (w.spot t) = .published)
  | .getFn pos => pos = BitVec.ofNat 32 (w.spot t) ∧ w.phase (w.spot t) = .taken t
  | .getArg pos fn =>
      pos = BitVec.ofNat 32 (w.spot t) ∧ w.phase (w.spot t) = .taken t ∧
        w.claimed[w.spot t]? = some (fn, w.q.arg (w.spot t % jqSize))
  | .release pos fn arg =>
      pos = BitVec.ofNat 32 (w.spot t) ∧ w.phase (w.spot t) = .taken t ∧ w.claimed[w.spot t]? = some (fn, arg)
  | .run fn arg => w.phase (w.spot t) = .left t ∧ w.claimed[w.spot t]? = some (fn, arg)

structure Sound (w : JobWorld) : Prop where
  enq : w.q.enq = BitVec.ofNat 32 w.claims
  deq : w.q.deq = BitVec.ofNat 32 w.takes
  untouched : ∀ p, w.phase p = .untouched ↔ w.claims ≤ p
  away : ∀ p, (w.phase p).away = true ↔ p < w.takes
  before : ∀ p, p + jqSize < w.claims → (w.phase p).free = true
  cells : ∀ p, w.CellOk p
  ready : w.q.ready = true → w.AllInited
  threads : ∀ t, w.ThreadOk t
  holders : ∀ p t, (w.phase p = .taken t ∨ w.phase p = .left t) → w.Holds t p
  once : (w.ran.map Prod.fst).Nodup
  right : ∀ job ∈ w.ran, w.claimed[job.1]? = some job.2
  done : ∀ p, p ∈ w.ran.map Prod.fst ↔ w.phase p = .done
  accepted : ∀ p ∈ w.accepted, w.phase p ≠ .untouched ∧ ∀ t, w.phase p ≠ .writing t
  full : ∀ count ∈ w.refusals, count = jqSize

theorem Sound.runsOnce (sound : Sound w) : RunsOnce w where
  once := sound.once
  right := sound.right
  full := sound.full
  kept := by
    intro p accepted
    obtain ⟨claimed, written⟩ := sound.accepted p accepted
    have cell := sound.cells p
    unfold CellOk at cell
    cases phase : w.phase p with
    | untouched => exact absurd phase claimed
    | writing t => exact absurd phase (written t)
    | published =>
        rw [phase] at cell
        refine Or.inr (Or.inr ⟨Nat.not_lt.mp fun taken => ?_, cell⟩)
        have away := (sound.away p).mpr taken
        rw [phase] at away
        cases away
    | taken t => exact Or.inr (Or.inl ⟨t, sound.holders p t (Or.inl phase)⟩)
    | left t => exact Or.inr (Or.inl ⟨t, sound.holders p t (Or.inr phase)⟩)
    | done => exact Or.inl ((sound.done p).mpr phase)

theorem jqSlot_ofNat : jqSlot (BitVec.ofNat 32 p) = p % jqSize := by
  rw [jqSlot, BitVec.toNat_ofNat, jqSize]
  omega

theorem Sound.claimed_iff (sound : Sound w) : w.phase p ≠ .untouched ↔ p < w.claims := by
  rw [Ne, sound.untouched, Nat.not_le]

theorem Sound.near (sound : Sound w) (used : (w.phase s).free = false) : w.claims ≤ s + jqSize := by
  apply Nat.not_lt.mp
  intro far
  rw [sound.before s far] at used
  cases used

theorem slot_ne (claimed : s < w.claims) (near : w.claims ≤ s + jqSize) (differ : p ≠ s)
    (current : w.claims ≤ p + jqSize) (started : p < w.claims ∨ p < jqSize) :
    p % jqSize ≠ s % jqSize := by
  rcases Nat.lt_or_gt_of_ne differ with less | more
  · exact ring_apart less (by omega)
  · apply Ne.symm
    apply ring_apart more
    omega

/-- The steps that thread `t` makes with a position. -/
inductive PhaseMove (w after : JobWorld) (t p : Nat) : Prop
  | claim (old : w.phase p = .untouched) (new : after.phase p = .writing t)
  | publish (old : w.phase p = .writing t) (new : after.phase p = .published)
  | take (old : w.phase p = .published) (new : after.phase p = .taken t) (below : p < after.takes)
  | leave (old : w.phase p = .taken t) (new : after.phase p = .left t)
  | finish (old : w.phase p = .left t) (new : after.phase p = .done)

structure Frame (w after : JobWorld) (t : Nat) : Prop where
  pcs : ∀ other, other ≠ t → after.q.pcs other = w.q.pcs other
  spot : ∀ other, other ≠ t → after.spot other = w.spot other
  claimed : w.claimed <+: after.claimed
  takes : w.takes ≤ after.takes
  inited : ∀ i, w.inited i = true → after.inited i = true
  phase : ∀ p, after.phase p = w.phase p ∨ PhaseMove w after t p
  data : ∀ p other, other ≠ t → (w.phase p = .writing other ∨ w.phase p = .taken other) →
    after.q.fn (p % jqSize) = w.q.fn (p % jqSize) ∧ after.q.arg (p % jqSize) = w.q.arg (p % jqSize)

section

variable {after : JobWorld} {other : Nat} {job : Word × Word}

theorem Frame.claims (frame : Frame w after t) : w.claims ≤ after.claims := frame.claimed.length_le

theorem Frame.entry (frame : Frame w after t) (found : w.claimed[p]? = some job) :
    after.claimed[p]? = some job := by
  obtain ⟨more, whole⟩ := frame.claimed
  rw [← whole, List.getElem?_append_left (List.getElem?_eq_some_iff.mp found).1]
  exact found

theorem Frame.free (frame : Frame w after t) (free : (w.phase p).free = true) :
    (after.phase p).free = true := by
  rcases frame.phase p with same | move
  · rw [same]; exact free
  · cases move with
    | claim old new => rw [old] at free; cases free
    | publish old new => rw [old] at free; cases free
    | take old new => rw [old] at free; cases free
    | leave old new => rw [old] at free; cases free
    | finish old new => rw [new]; rfl

theorem Frame.owned (frame : Frame w after t) (differ : other ≠ t)
    (owns : w.phase p = .writing other ∨ w.phase p = .taken other ∨ w.phase p = .left other) :
    after.phase p = w.phase p := by
  rcases frame.phase p with same | move
  · exact same
  · exfalso
    cases move with
    | claim old new => rw [old] at owns; simp at owns
    | publish old new => rw [old] at owns; simp at owns; exact differ owns.symm
    | take old new => rw [old] at owns; simp at owns
    | leave old new => rw [old] at owns; simp at owns; exact differ owns.symm
    | finish old new => rw [old] at owns; simp at owns; exact differ owns.symm

theorem Frame.allInited (frame : Frame w after t) (all : w.AllInited) : after.AllInited :=
  fun i inside => frame.inited i (all i inside)

theorem Frame.threadOk (frame : Frame w after t) (differ : other ≠ t) (ok : w.ThreadOk other) :
    after.ThreadOk other := by
  unfold ThreadOk at ok ⊢
  rw [frame.pcs other differ, frame.spot other differ]
  have more := frame.claims
  have moreTakes := frame.takes
  cases pc : w.q.pcs other with
  | idle => trivial
  | testReady => trivial
  | checkReady => trivial
  | init fn arg i =>
      rw [pc] at ok
      exact fun j less => frame.inited j (ok j less)
  | loadEnq => rw [pc] at ok; exact frame.allInited ok
  | loadDeq => rw [pc] at ok; exact frame.allInited ok
  | pushSeq fn arg pos =>
      rw [pc] at ok
      exact ⟨frame.allInited ok.1, ok.2.1, Nat.le_trans ok.2.2 more⟩
  | claimEnq fn arg pos =>
      rw [pc] at ok
      obtain ⟨all, same, bound, freed⟩ := ok
      refine ⟨frame.allInited all, same, Nat.le_trans bound more, fun late round => ?_⟩
      exact frame.free (freed (Nat.le_trans more late) round)
  | putFn fn arg pos =>
      rw [pc] at ok
      exact ⟨ok.1, (frame.owned differ (Or.inl ok.2.1)).trans ok.2.1, frame.entry ok.2.2⟩
  | putArg arg pos =>
      rw [pc] at ok
      obtain ⟨same, writing, job⟩ := ok
      rw [(frame.data _ other differ (Or.inl writing)).1]
      exact ⟨same, (frame.owned differ (Or.inl writing)).trans writing, frame.entry job⟩
  | publish pos =>
      rw [pc] at ok
      obtain ⟨same, writing, job⟩ := ok
      rw [(frame.data _ other differ (Or.inl writing)).1, (frame.data _ other differ (Or.inl writing)).2]
      exact ⟨same, (frame.owned differ (Or.inl writing)).trans writing, frame.entry job⟩
  | popSeq pos =>
      rw [pc] at ok
      exact ⟨frame.allInited ok.1, ok.2.1, Nat.le_trans ok.2.2 moreTakes⟩
  | claimDeq pos =>
      rw [pc] at ok
      obtain ⟨all, same, bound, published⟩ := ok
      refine ⟨frame.allInited all, same, Nat.le_trans bound moreTakes, fun late => ?_⟩
      have before := published (Nat.le_trans moreTakes late)
      rcases frame.phase (w.spot other) with kept | move
      · exact kept.trans before
      · cases move with
        | claim old new => rw [before] at old; cases old
        | publish old new => rw [before] at old; cases old
        | take old new below => exact absurd below (Nat.not_lt.mpr late)
        | leave old new => rw [before] at old; cases old
        | finish old new => rw [before] at old; cases old
  | getFn pos =>
      rw [pc] at ok
      exact ⟨ok.1, (frame.owned differ (Or.inr (Or.inl ok.2))).trans ok.2⟩
  | getArg pos fn =>
      rw [pc] at ok
      obtain ⟨same, taken, job⟩ := ok
      rw [(frame.data _ other differ (Or.inr taken)).2]
      exact ⟨same, (frame.owned differ (Or.inr (Or.inl taken))).trans taken, frame.entry job⟩
  | release pos fn arg =>
      rw [pc] at ok
      exact ⟨ok.1, (frame.owned differ (Or.inr (Or.inl ok.2.1))).trans ok.2.1, frame.entry ok.2.2⟩
  | run fn arg =>
      rw [pc] at ok
      exact ⟨(frame.owned differ (Or.inr (Or.inr ok.1))).trans ok.1, frame.entry ok.2⟩

theorem Frame.holds (frame : Frame w after t) (differ : other ≠ t) (holds : w.Holds other p) :
    after.Holds other p := by
  unfold Holds at holds ⊢
  rw [frame.pcs other differ, frame.spot other differ]
  exact holds

theorem Frame.held (frame : Frame w after t) (differ : other ≠ t)
    (holds : after.phase p = .taken other ∨ after.phase p = .left other) :
    w.phase p = .taken other ∨ w.phase p = .left other := by
  rcases frame.phase p with same | move
  · rw [← same]; exact holds
  · exfalso
    cases move with
    | claim old new => rw [new] at holds; simp at holds
    | publish old new => rw [new] at holds; simp at holds
    | take old new => rw [new] at holds; simp at holds; exact differ holds.symm
    | leave old new => rw [new] at holds; simp at holds; exact differ holds.symm
    | finish old new => rw [new] at holds; simp at holds

theorem Sound.threads_of_frame (sound : Sound w) (frame : Frame w after t)
    (own : after.ThreadOk t) : ∀ other, after.ThreadOk other := by
  intro other
  by_cases same : other = t
  · exact same ▸ own
  · exact frame.threadOk same (sound.threads other)

theorem Sound.holders_of_frame (sound : Sound w) (frame : Frame w after t)
    (own : ∀ p, (after.phase p = .taken t ∨ after.phase p = .left t) → after.Holds t p) :
    ∀ p other, (after.phase p = .taken other ∨ after.phase p = .left other) →
    after.Holds other p := by
  intro p other holds
  by_cases same : other = t
  · subst same
    exact own p holds
  · exact frame.holds same (sound.holders p other (frame.held same holds))

end

theorem Sound.moved {pc : Pc} {spot : Nat → Nat} (sound : Sound w)
    (others : ∀ other, other ≠ t → spot other = w.spot other)
    (keeps : ∀ p, w.Holds t p → JobWorld.Holds { w with q := w.q.goto t pc, spot := spot } t p)
    (own : JobWorld.ThreadOk { w with q := w.q.goto t pc, spot := spot } t) :
    Sound { w with q := w.q.goto t pc, spot := spot } := by
  have frame : Frame w { w with q := w.q.goto t pc, spot := spot } t :=
    ⟨fun other differ => update_of_ne differ _ _, others, List.prefix_refl _, Nat.le_refl _,
      fun _ => id, fun _ => Or.inl rfl, fun _ _ _ _ => ⟨rfl, rfl⟩⟩
  refine ⟨sound.enq, sound.deq, sound.untouched, sound.away, sound.before, sound.cells, sound.ready,
    sound.threads_of_frame frame own, sound.holders_of_frame frame ?_, sound.once, sound.right,
    sound.done, sound.accepted, sound.full⟩
  exact fun p holds => keeps p (sound.holders p t holds)

theorem not_holds {pc : Pc} (here : w.q.pcs t = pc) (free : pc.hasJob = false) : ¬ w.Holds t p := by
  intro holds
  have busy := holds.2
  rw [here, free] at busy
  cases busy

theorem Sound.next_slot (sound : Sound w) (all : w.AllInited) :
    (w.Freed w.claims ∧ w.q.seq (w.claims % jqSize) = BitVec.ofNat 32 w.claims) ∨
      (jqSize ≤ w.claims ∧ (w.phase (w.claims - jqSize)).free = false ∧
        (w.q.seq (w.claims % jqSize) = BitVec.ofNat 32 (w.claims - jqSize) ∨
          w.q.seq (w.claims % jqSize) = BitVec.ofNat 32 (w.claims - jqSize + 1))) := by
  rcases Nat.lt_or_ge w.claims jqSize with first | round
  · left
    refine ⟨fun late => absurd first (Nat.not_lt.mpr late), ?_⟩
    have cell := sound.cells w.claims
    unfold CellOk at cell
    rw [(sound.untouched w.claims).mpr (Nat.le_refl _)] at cell
    rw [Nat.mod_eq_of_lt first]
    exact cell first (all _ first)
  · obtain ⟨back, isBack⟩ : ∃ back, w.claims = back + jqSize := ⟨w.claims - jqSize, by omega⟩
    have sameSlot : w.claims % jqSize = back % jqSize := by rw [isBack, Nat.add_mod_right]
    have cell := sound.cells back
    unfold CellOk at cell
    rw [sameSlot, isBack, Nat.add_sub_cancel]
    have next : w.phase (back + jqSize) = .untouched := (sound.untouched _).mpr (Nat.le_of_eq isBack)
    cases phase : w.phase back with
    | untouched =>
        have late := (sound.untouched back).mp phase
        simp only [jqSize] at isBack
        omega
    | writing _ =>
        rw [phase] at cell
        exact Or.inr ⟨by omega, rfl, Or.inl cell⟩
    | published =>
        rw [phase] at cell
        exact Or.inr ⟨by omega, rfl, Or.inr cell.1⟩
    | taken _ =>
        rw [phase] at cell
        exact Or.inr ⟨by omega, rfl, Or.inr cell.1⟩
    | left _ =>
        rw [phase] at cell
        exact Or.inl ⟨fun _ => by rw [Nat.add_sub_cancel, phase]; rfl, cell next⟩
    | done =>
        rw [phase] at cell
        exact Or.inl ⟨fun _ => by rw [Nat.add_sub_cancel, phase]; rfl, cell next⟩

theorem Sound.claimed_slot (sound : Sound w) (claimed : s < w.claims) :
    ∃ value, w.q.seq (s % jqSize) = BitVec.ofNat 32 value ∧ s ≤ value ∧
    value < w.claims + jqSize := by
  -- The last round of the slot decides; the induction is on how far it is away.
  obtain ⟨gap, isGap⟩ : ∃ gap, gap = w.claims - s := ⟨_, rfl⟩
  induction gap using Nat.strongRecOn generalizing s with
  | _ gap ih =>
      have cell := sound.cells s
      unfold CellOk at cell
      have later : w.phase (s + jqSize) ≠ .untouched →
          ∃ value, w.q.seq (s % jqSize) = BitVec.ofNat 32 value ∧ s ≤ value ∧ value < w.claims + jqSize := by
        intro more
        have inside := sound.claimed_iff.mp more
        have size : 0 < jqSize := by decide
        obtain ⟨value, shown, low, high⟩ := ih (w.claims - (s + jqSize)) (by omega) inside rfl
        rw [Nat.add_mod_right] at shown
        exact ⟨value, shown, by omega, high⟩
      have size : 1 < jqSize := by decide
      cases phase : w.phase s with
      | untouched => exact absurd ((sound.untouched s).mp phase) (Nat.not_le.mpr claimed)
      | writing _ => rw [phase] at cell; exact ⟨s, cell, Nat.le_refl _, by omega⟩
      | published => rw [phase] at cell; exact ⟨s + 1, cell.1, Nat.le_succ _, by omega⟩
      | taken _ => rw [phase] at cell; exact ⟨s + 1, cell.1, Nat.le_succ _, by omega⟩
      | left _ =>
          rw [phase] at cell
          by_cases more : w.phase (s + jqSize) = .untouched
          · exact ⟨s + jqSize, cell more, Nat.le_add_right _ _, by omega⟩
          · exact later more
      | done =>
          rw [phase] at cell
          by_cases more : w.phase (s + jqSize) = .untouched
          · exact ⟨s + jqSize, cell more, Nat.le_add_right _ _, by omega⟩
          · exact later more

theorem diff_ofNat {a b : Nat} (above : (a : Int) - b < 2 ^ 31)
    (below : -(2 ^ 31) ≤ (a : Int) - b) :
    Seq.diff (BitVec.ofNat 32 a) (BitVec.ofNat 32 b) = a - b := by
  have near := @Seq.diff_near 0 a b above below
  simpa using near

theorem Sound.freed_of_diff (sound : Sound w) (all : w.AllInited)
    (equal : Seq.diff (w.q.seq (w.claims % jqSize)) (BitVec.ofNat 32 w.claims) = 0) :
    w.Freed w.claims := by
  rcases sound.next_slot all with ⟨freed, -⟩ | ⟨round, -, shown⟩
  · exact freed
  · have size : jqSize = 256 := rfl
    rcases shown with shown | shown
    · rw [shown, diff_ofNat (by omega) (by omega)] at equal
      omega
    · rw [shown, diff_ofNat (by omega) (by omega)] at equal
      omega

theorem Sound.current (sound : Sound w) : w.phase p = .untouched ∧ p < jqSize ∨ (w.phase p ≠ .untouched ∧ (w.phase p).free = false) ∨
      ((w.phase p).free = true ∧ w.phase (p + jqSize) = .untouched) →
    w.claims ≤ p + jqSize ∧ (p < w.claims ∨ p < jqSize) := by
  rintro (⟨untouched, first⟩ | ⟨claimed, used⟩ | ⟨free, last⟩)
  · have late := (sound.untouched p).mp untouched
    exact ⟨by omega, Or.inr first⟩
  · exact ⟨sound.near used, Or.inl (sound.claimed_iff.mp claimed)⟩
  · refine ⟨(sound.untouched _).mp last, Or.inl (sound.claimed_iff.mp ?_)⟩
    intro untouched
    rw [untouched] at free
    cases free

theorem Sound.cell_of_write {q : JobQueue} (sound : Sound w) (claimed : s < w.claims)
    (used : (w.phase s).free = false) (differ : p ≠ s)
    (seq : ∀ slot, slot ≠ s % jqSize → q.seq slot = w.q.seq slot)
    (fn : ∀ slot, slot ≠ s % jqSize → q.fn slot = w.q.fn slot)
    (arg : ∀ slot, slot ≠ s % jqSize → q.arg slot = w.q.arg slot) :
    JobWorld.CellOk { w with q := q } p := by
  have cell := sound.cells p
  have away : (w.phase p = .untouched ∧ p < jqSize ∨ (w.phase p ≠ .untouched ∧ (w.phase p).free = false) ∨
      ((w.phase p).free = true ∧ w.phase (p + jqSize) = .untouched)) → p % jqSize ≠ s % jqSize := by
    intro shows
    obtain ⟨near, started⟩ := sound.current shows
    exact slot_ne claimed (sound.near used) differ near started
  unfold CellOk at cell ⊢
  cases phase : w.phase p with
  | untouched =>
      rw [phase] at cell
      intro first inited
      have slot := away (Or.inl ⟨phase, first⟩)
      rw [Nat.mod_eq_of_lt first] at slot
      rw [seq p slot]
      exact cell first inited
  | writing _ =>
      rw [phase] at cell
      rw [seq _ (away (Or.inr (Or.inl (by simp [phase, Phase.free]))))]
      exact cell
  | published =>
      rw [phase] at cell
      have slot := away (Or.inr (Or.inl (by simp [phase, Phase.free])))
      rw [seq _ slot, fn _ slot, arg _ slot]
      exact cell
  | taken _ =>
      rw [phase] at cell
      have slot := away (Or.inr (Or.inl (by simp [phase, Phase.free])))
      rw [seq _ slot, fn _ slot, arg _ slot]
      exact cell
  | left _ =>
      rw [phase] at cell
      intro last
      rw [seq _ (away (Or.inr (Or.inr ⟨by simp [phase, Phase.free], last⟩)))]
      exact cell last
  | done =>
      rw [phase] at cell
      intro last
      rw [seq _ (away (Or.inr (Or.inr ⟨by simp [phase, Phase.free], last⟩)))]
      exact cell last

theorem CellOk.of_phase {after : JobWorld} (cell : w.CellOk p)
    (q : after.q.seq = w.q.seq ∧ after.q.fn = w.q.fn ∧ after.q.arg = w.q.arg)
    (same : after.phase p = w.phase p)
    (next : after.phase (p + jqSize) = .untouched → w.phase (p + jqSize) = .untouched)
    (claimed : ∀ job, w.claimed[p]? = some job → after.claimed[p]? = some job)
    (inited : after.inited p = true → w.inited p = true) : after.CellOk p := by
  unfold CellOk at cell ⊢
  rw [same, q.1, q.2.1, q.2.2]
  cases phase : w.phase p with
  | untouched => rw [phase] at cell; exact fun first done => cell first (inited done)
  | writing _ => rw [phase] at cell; exact cell
  | published => rw [phase] at cell; exact ⟨cell.1, claimed _ cell.2⟩
  | taken _ => rw [phase] at cell; exact ⟨cell.1, claimed _ cell.2⟩
  | left _ => rw [phase] at cell; exact fun last => cell (next last)
  | done => rw [phase] at cell; exact fun last => cell (next last)

theorem jobStep_go {spurious : Bool} {event : JobEvent} {q : JobQueue}
    (result : jqGo w.q t spurious = (event, q)) :
    jobStep w (.go t spurious) = { w.record t event with q := q } := by
  rw [jobStep, jqStep, result]
  rfl

section

variable {fn arg : Word} {pos : Seq} {i : Nat} {spurious : Bool}

theorem Sound.init_store (sound : Sound w) (here : w.q.pcs t = .init fn arg i) (inside : i < jqSize)
    (unused : w.claims ≤ i ∨ w.q.seq i = BitVec.ofNat 32 i) :
    Sound (jobStep w (.go t spurious)) := by
  have step : jqGo w.q t spurious =
      (.initialised i, { w.q with seq := update w.q.seq i (BitVec.ofNat 32 i) }.goto t (.init fn arg (i + 1))) := by
    rw [jqGo, here]
    exact if_pos inside
  rw [jobStep_go step]
  have ok := sound.threads t
  unfold ThreadOk at ok
  rw [here] at ok
  have frame : Frame w { w.record t (.initialised i) with
      q := { w.q with seq := update w.q.seq i (BitVec.ofNat 32 i) }.goto t (.init fn arg (i + 1)) } t := by
    refine ⟨fun other differ => update_of_ne differ _ _, fun _ _ => rfl, List.prefix_refl _,
      Nat.le_refl _, ?_, fun _ => Or.inl rfl, fun _ _ _ _ => ⟨rfl, rfl⟩⟩
    intro j inited
    change update w.inited i true j = true
    by_cases same : j = i
    · rw [same, update_self]
    · rw [update_of_ne same]
      exact inited
  refine ⟨sound.enq, sound.deq, sound.untouched, sound.away, sound.before, ?_,
    fun ready => frame.allInited (sound.ready ready),
    sound.threads_of_frame frame ?_, sound.holders_of_frame frame ?_, sound.once, sound.right,
    sound.done, sound.accepted, sound.full⟩
  · intro p
    have cell := sound.cells p
    have started : ∀ j, w.phase j ≠ .untouched → j % jqSize = i → w.q.seq i = BitVec.ofNat 32 i := by
      intro j claimed slot
      rcases unused with late | shown
      · have early := sound.claimed_iff.mp claimed
        rw [Nat.mod_eq_of_lt (by omega)] at slot
        omega
      · exact shown
    have same : ∀ j, w.phase j ≠ .untouched →
        update w.q.seq i (BitVec.ofNat 32 i) (j % jqSize) = w.q.seq (j % jqSize) := by
      intro j claimed
      by_cases slot : j % jqSize = i
      · rw [slot, Function.update_self, started j claimed slot]
      · exact Function.update_of_ne slot _ _
    unfold CellOk at cell ⊢
    change (match w.phase p with
      | .untouched => p < jqSize → update w.inited i true p = true →
          update w.q.seq i (BitVec.ofNat 32 i) p = BitVec.ofNat 32 p
      | .writing _ => update w.q.seq i (BitVec.ofNat 32 i) (p % jqSize) = BitVec.ofNat 32 p
      | .published | .taken _ => update w.q.seq i (BitVec.ofNat 32 i) (p % jqSize) = BitVec.ofNat 32 (p + 1) ∧
          w.claimed[p]? = some (w.q.fn (p % jqSize), w.q.arg (p % jqSize))
      | .left _ | .done => w.phase (p + jqSize) = .untouched →
          update w.q.seq i (BitVec.ofNat 32 i) (p % jqSize) = BitVec.ofNat 32 (p + jqSize))
    cases phase : w.phase p with
    | untouched =>
        rw [phase] at cell
        intro first inited
        by_cases same : p = i
        · rw [same, Function.update_self]
        · rw [Function.update_of_ne same] at inited ⊢
          exact cell first inited
    | writing _ => rw [phase] at cell; exact (same p (by simp [phase])).trans cell
    | published => rw [phase] at cell; exact ⟨(same p (by simp [phase])).trans cell.1, cell.2⟩
    | taken _ => rw [phase] at cell; exact ⟨(same p (by simp [phase])).trans cell.1, cell.2⟩
    | left _ => rw [phase] at cell; exact fun last => (same p (by simp [phase])).trans (cell last)
    | done => rw [phase] at cell; exact fun last => (same p (by simp [phase])).trans (cell last)
  · unfold ThreadOk
    rw [show (JobQueue.goto _ t (Pc.init fn arg (i + 1))).pcs t = Pc.init fn arg (i + 1) from update_self _ _ _]
    intro j less
    change update w.inited i true j = true
    by_cases same : j = i
    · rw [same, update_self]
    · rw [update_of_ne same]
      exact ok j (by omega)
  · intro p holds
    exact absurd (sound.holders p t holds) (not_holds here rfl)

theorem Sound.init_done (sound : Sound w) (here : w.q.pcs t = .init fn arg i) (all : ¬ i < jqSize) :
    Sound (jobStep w (.go t spurious)) := by
  have step : jqGo w.q t spurious =
    (.quiet, { w.q with ready := true }.goto t (.loadEnq fn arg)) := by
    rw [jqGo, here]
    exact if_neg all
  rw [jobStep_go step]
  have ok := sound.threads t
  unfold ThreadOk at ok
  rw [here] at ok
  have whole : w.AllInited := fun j inside => ok j (by omega)
  have frame : Frame w
    { w.record t .quiet with q := { w.q with ready := true }.goto t (.loadEnq fn arg) } t :=
    ⟨fun other differ => update_of_ne differ _ _, fun _ _ => rfl, List.prefix_refl _, Nat.le_refl _,
      fun _ => id, fun _ => Or.inl rfl, fun _ _ _ _ => ⟨rfl, rfl⟩⟩
  refine ⟨sound.enq, sound.deq, sound.untouched, sound.away, sound.before, sound.cells,
    fun _ => whole, sound.threads_of_frame frame ?_, sound.holders_of_frame frame ?_, sound.once,
    sound.right, sound.done, sound.accepted, sound.full⟩
  · unfold ThreadOk
    rw [show (JobQueue.goto _ t (Pc.loadEnq fn arg)).pcs t = Pc.loadEnq fn arg from update_self _ _ _]
    exact whole
  · intro p holds
    exact absurd (sound.holders p t holds) (not_holds here rfl)

theorem pcs_goto {q : JobQueue} {pc : Pc} : (q.goto t pc).pcs t = pc := update_self _ _ _

theorem ofNat_inj {a b : Nat} (same : BitVec.ofNat 32 a = BitVec.ofNat 32 b) (low : b ≤ a)
    (near : a < b + 2 ^ 32) : a = b := by
  have values := congrArg BitVec.toNat same
  rw [BitVec.toNat_ofNat, BitVec.toNat_ofNat] at values
  omega

theorem Sound.claim_enq (sound : Sound w) (here : w.q.pcs t = .claimEnq fn arg pos)
    (equal : w.q.enq = pos) (near : w.claims < w.spot t + 2 ^ 32) :
    Sound (jobStep w (.go t false)) := by
  have step : jqGo w.q t false =
    (.claimedEnq fn arg, { w.q with enq := pos + 1 }.goto t (.putFn fn arg pos)) := by
    rw [jqGo, here]
    exact if_pos ⟨equal, rfl⟩
  rw [jobStep_go step]
  have ok := sound.threads t
  unfold ThreadOk at ok
  rw [here] at ok
  obtain ⟨all, isPos, bound, freed⟩ := ok
  have atEnd : w.claims = w.spot t :=
    ofNat_inj (sound.enq.symm.trans (equal.trans isPos)) bound near
  have slotFree : w.Freed w.claims := atEnd ▸ freed (Nat.le_of_eq atEnd)
  have more : (w.claimed ++ [(fn, arg)]).length = w.claims + 1 := by
    rw [List.length_append]
    rfl
  have untouched : w.phase w.claims = .untouched := (sound.untouched _).mpr (Nat.le_refl _)
  have ne_of_claimed : ∀ {p}, w.phase p ≠ .untouched → p ≠ w.claims :=
    fun claimed same => claimed (same ▸ untouched)
  have frame : Frame w { w.record t (.claimedEnq fn arg) with
      q := { w.q with enq := pos + 1 }.goto t (.putFn fn arg pos) } t := by
    refine ⟨fun other differ => update_of_ne differ _ _, fun other differ => update_of_ne differ _ _,
      List.prefix_append _ _, Nat.le_refl _, fun _ => id, ?_, fun _ _ _ _ => ⟨rfl, rfl⟩⟩
    intro p
    by_cases same : p = w.claims
    · subst same
      exact Or.inr (.claim untouched (update_self _ _ _))
    · exact Or.inl (update_of_ne same _ _)
  have other_phase : ∀ p, p ≠ w.claims → update w.phase w.claims (.writing t) p = w.phase p :=
    fun p differ => update_of_ne differ _ _
  constructor
  · change pos + 1 = BitVec.ofNat 32 (w.claimed ++ [(fn, arg)]).length
    rw [more, isPos, ← atEnd, BitVec.ofNat_add]
    rfl
  · exact sound.deq
  · intro p
    change update w.phase w.claims (.writing t) p = .untouched ↔ (w.claimed ++ [(fn, arg)]).length ≤ p
    rw [more]
    by_cases same : p = w.claims
    · subst same
      simp
    · rw [other_phase p same, sound.untouched]
      omega
  · intro p
    change (update w.phase w.claims (.writing t) p).away = true ↔ p < w.takes
    by_cases same : p = w.claims
    · subst same
      rw [update_self]
      have notAway := sound.away w.claims
      rw [untouched] at notAway
      exact notAway
    · rw [other_phase p same]
      exact sound.away p
  · intro p
    change p + jqSize < (w.claimed ++ [(fn, arg)]).length → (update w.phase w.claims (.writing t) p).free = true
    intro early
    have size : 0 < jqSize := by decide
    rw [other_phase p (by omega)]
    rcases Nat.lt_or_ge (p + jqSize) w.claims with less | last
    · exact sound.before p less
    · have back := slotFree (by omega)
      rwa [show w.claims - jqSize = p by omega] at back
  · intro p
    by_cases same : p = w.claims
    · subst same
      change (match update w.phase w.claims (.writing t) w.claims with
        | .untouched => _
        | .writing _ => w.q.seq (w.claims % jqSize) = BitVec.ofNat 32 w.claims
        | .published | .taken _ => _
        | .left _ | .done => _)
      rw [update_self]
      rcases sound.next_slot all with ⟨-, shown⟩ | ⟨round, used, -⟩
      · exact shown
      · rw [slotFree round] at used
        cases used
    · refine CellOk.of_phase (sound.cells p) ⟨rfl, rfl, rfl⟩ (other_phase p same) ?_ ?_ ?_
      · intro last
        by_cases next : p + jqSize = w.claims
        · rw [next]
          exact untouched
        · exact (other_phase _ next).symm.trans last
      · exact fun job found => frame.entry found
      · exact id
  · exact fun ready => sound.ready ready
  · refine sound.threads_of_frame frame ?_
    unfold ThreadOk
    rw [pcs_goto]
    change pos = BitVec.ofNat 32 (update w.spot t w.claims t) ∧
      update w.phase w.claims (.writing t) (update w.spot t w.claims t) = .writing t ∧
      (w.claimed ++ [(fn, arg)])[update w.spot t w.claims t]? = some (fn, arg)
    rw [update_self, update_self]
    refine ⟨isPos.trans (by rw [atEnd]), rfl, ?_⟩
    rw [claims, List.getElem?_append_right (Nat.le_refl _), Nat.sub_self]
    rfl
  · refine sound.holders_of_frame frame fun p holds => ?_
    change (update w.phase w.claims (.writing t) p = .taken t ∨ update w.phase w.claims (.writing t) p = .left t) at holds
    by_cases same : p = w.claims
    · subst same
      simp at holds
    · rw [other_phase p same] at holds
      exact absurd (sound.holders p t holds) (not_holds here rfl)
  · exact sound.once
  · exact fun job member => frame.entry (sound.right job member)
  · intro p
    change _ ↔ update w.phase w.claims (.writing t) p = .done
    by_cases same : p = w.claims
    · subst same
      have notRan := sound.done w.claims
      rw [untouched] at notRan
      exact iff_of_false (fun member => absurd (notRan.mp member) (by simp)) (by simp)
    · rw [other_phase p same]
      exact sound.done p
  · intro p accepted
    obtain ⟨claimed, written⟩ := sound.accepted p accepted
    change update w.phase w.claims (.writing t) p ≠ _ ∧ ∀ other, update w.phase w.claims (.writing t) p ≠ .writing other
    rw [other_phase p (ne_of_claimed claimed)]
    exact ⟨claimed, written⟩
  · exact sound.full

theorem Sound.store_data {q : JobQueue} {pc : Pc} (sound : Sound w)
    (writing : w.phase (w.spot t) = .writing t)
    (idle : (w.q.pcs t).hasJob = false)
    (rest : q.seq = w.q.seq ∧ q.enq = w.q.enq ∧ q.deq = w.q.deq ∧ q.ready = w.q.ready ∧
    q.pcs = w.q.pcs) (fn : ∀ slot, slot ≠ w.spot t % jqSize → q.fn slot = w.q.fn slot)
    (arg : ∀ slot, slot ≠ w.spot t % jqSize → q.arg slot = w.q.arg slot)
    (own : JobWorld.ThreadOk { w with q := q.goto t pc } t) :
    Sound { w with q := q.goto t pc } := by
  have claimed : w.spot t < w.claims := sound.claimed_iff.mp (by simp [writing])
  have used : (w.phase (w.spot t)).free = false := by simp [writing, Phase.free]
  have near := sound.near used
  have slot_of : ∀ p other, other ≠ t → (w.phase p = .writing other ∨ w.phase p = .taken other) →
      p % jqSize ≠ w.spot t % jqSize := by
    intro p other differ owns
    have busy : w.phase p ≠ .untouched ∧ (w.phase p).free = false := by
      rcases owns with same | same <;> simp [same, Phase.free]
    have here : p ≠ w.spot t := by
      rintro rfl
      rw [writing] at owns
      simp at owns
      exact differ owns.symm
    exact slot_ne claimed near here (sound.near busy.2) (Or.inl (sound.claimed_iff.mp busy.1))
  have frame : Frame w { w with q := q.goto t pc } t := by
    refine ⟨?_, fun _ _ => rfl, List.prefix_refl _, Nat.le_refl _, fun _ => id, fun _ => Or.inl rfl, ?_⟩
    · intro other differ
      exact (update_of_ne differ _ _).trans (congrFun rest.2.2.2.2 other)
    · intro p other differ owns
      exact ⟨fn _ (slot_of p other differ owns), arg _ (slot_of p other differ owns)⟩
  refine ⟨rest.2.1.trans sound.enq, rest.2.2.1.trans sound.deq, sound.untouched, sound.away,
    sound.before, ?_, fun ready => sound.ready (rest.2.2.2.1.symm.trans ready),
    sound.threads_of_frame frame own, sound.holders_of_frame frame ?_, sound.once, sound.right,
    sound.done, sound.accepted, sound.full⟩
  · intro p
    by_cases same : p = w.spot t
    · subst same
      have cell := sound.cells (w.spot t)
      unfold CellOk at cell ⊢
      rw [writing] at cell
      change (match w.phase (w.spot t) with
        | .untouched => _
        | .writing _ => q.seq (w.spot t % jqSize) = _
        | .published | .taken _ => _
        | .left _ | .done => _)
      rw [writing, rest.1]
      exact cell
    · have kept := @Sound.cell_of_write _ _ _ q sound claimed used same (fun _ _ => by rw [rest.1]) fn arg
      exact kept.of_phase ⟨rfl, rfl, rfl⟩ rfl id (fun _ => id) id
  · intro p holds
    exact absurd (sound.holders p t holds) (not_holds rfl idle)

theorem Sound.put_fn (sound : Sound w) (here : w.q.pcs t = .putFn fn arg pos) :
    Sound (jobStep w (.go t spurious)) := by
  have step : jqGo w.q t spurious =
      (.quiet, { w.q with fn := update w.q.fn (jqSlot pos) fn }.goto t (.putArg arg pos)) := by
    rw [jqGo, here]
  rw [jobStep_go step]
  have ok := sound.threads t
  unfold ThreadOk at ok
  rw [here] at ok
  obtain ⟨isPos, writing, job⟩ := ok
  have slot : jqSlot pos = w.spot t % jqSize := by rw [isPos, jqSlot_ofNat]
  refine Sound.store_data sound writing (congrArg Pc.hasJob here) ⟨rfl, rfl, rfl, rfl, rfl⟩ ?_ ?_ ?_
  · intro other differ
    exact update_of_ne (by rwa [slot]) _ _
  · exact fun _ _ => rfl
  · unfold ThreadOk
    rw [pcs_goto]
    refine ⟨isPos, writing, ?_⟩
    change w.claimed[w.spot t]? = some (update w.q.fn (jqSlot pos) fn (w.spot t % jqSize), arg)
    rw [slot, update_self]
    exact job

theorem Sound.put_arg (sound : Sound w) (here : w.q.pcs t = .putArg arg pos) :
    Sound (jobStep w (.go t spurious)) := by
  have step : jqGo w.q t spurious =
      (.quiet, { w.q with arg := update w.q.arg (jqSlot pos) arg }.goto t (.publish pos)) := by
    rw [jqGo, here]
  rw [jobStep_go step]
  have ok := sound.threads t
  unfold ThreadOk at ok
  rw [here] at ok
  obtain ⟨isPos, writing, job⟩ := ok
  have slot : jqSlot pos = w.spot t % jqSize := by rw [isPos, jqSlot_ofNat]
  refine Sound.store_data sound writing (congrArg Pc.hasJob here) ⟨rfl, rfl, rfl, rfl, rfl⟩ ?_ ?_ ?_
  · exact fun _ _ => rfl
  · intro other differ
    exact update_of_ne (by rwa [slot]) _ _
  · unfold ThreadOk
    rw [pcs_goto]
    refine ⟨isPos, writing, ?_⟩
    change w.claimed[w.spot t]? = some (w.q.fn (w.spot t % jqSize), update w.q.arg (jqSlot pos) arg (w.spot t % jqSize))
    rw [slot, update_self]
    exact job

theorem Sound.advance {after : JobWorld} {new : Phase} (sound : Sound w) (frame : Frame w after t)
    (old : w.phase s ≠ .untouched) (phase : after.phase = update w.phase s new)
    (isNew : new ≠ .untouched) (unwritten : ∀ other, new ≠ .writing other)
    (undone : w.phase s ≠ .done) (kept : (w.phase s).free = true → new.free = true)
    (same : after.claimed = w.claimed ∧ after.inited = w.inited ∧ after.refusals = w.refusals ∧
      after.q.enq = w.q.enq ∧ after.q.ready = w.q.ready)
    (deq : after.q.deq = BitVec.ofNat 32 after.takes)
    (away : ∀ p, (after.phase p).away = true ↔ p < after.takes) (cells : ∀ p, after.CellOk p)
    (own : after.ThreadOk t)
    (holds : ∀ p, (after.phase p = .taken t ∨ after.phase p = .left t) → after.Holds t p)
    (accepted : ∀ p ∈ after.accepted, p ∈ w.accepted ∨ p = s)
    (ran : (after.ran = w.ran ∧ new ≠ .done) ∨
    (∃ job, after.ran = w.ran ++ [(s, job)] ∧ w.claimed[s]? = some job ∧ new = .done)) :
    Sound after := by
  have at_ : after.phase s = new := by rw [phase, update_self]
  have off : ∀ p, p ≠ s → after.phase p = w.phase p := fun p differ => by
    rw [phase, update_of_ne differ]
  have claims_eq : after.claims = w.claims := congrArg List.length same.1
  constructor
  · rw [same.2.2.2.1, claims_eq]
    exact sound.enq
  · exact deq
  · intro p
    rw [claims_eq]
    by_cases here : p = s
    · subst here
      rw [at_]
      exact iff_of_false isNew fun late => old ((sound.untouched p).mpr late)
    · rw [off p here]
      exact sound.untouched p
  · exact away
  · intro p early
    rw [claims_eq] at early
    exact frame.free (sound.before p early)
  · exact cells
  · intro ready
    rw [same.2.2.2.2] at ready
    exact frame.allInited (sound.ready ready)
  · exact sound.threads_of_frame frame own
  · exact sound.holders_of_frame frame holds
  · rcases ran with ⟨ran, -⟩ | ⟨job, ran, -, -⟩
    · rw [ran]
      exact sound.once
    · rw [ran, List.map_append, List.nodup_append]
      refine ⟨sound.once, List.Pairwise.cons (by simp) List.Pairwise.nil, ?_⟩
      intro first firstIn second secondIn
      rw [show second = s by simpa using secondIn]
      rintro rfl
      exact undone ((sound.done _).mp firstIn)
  · rw [same.1]
    rcases ran with ⟨ran, -⟩ | ⟨job, ran, found, -⟩
    · rw [ran]
      exact sound.right
    · rw [ran]
      intro entry member
      rcases List.mem_append.mp member with before | last
      · exact sound.right entry before
      · rw [List.mem_singleton.mp last]
        exact found
  · intro p
    by_cases here : p = s
    · subst here
      rw [at_]
      rcases ran with ⟨ran, notDone⟩ | ⟨job, ran, -, isDone⟩
      · rw [ran]
        exact iff_of_false (fun member => undone ((sound.done p).mp member)) notDone
      · rw [ran]
        exact iff_of_true (by simp) isDone
    · rw [off p here, ← sound.done p]
      rcases ran with ⟨ran, -⟩ | ⟨job, ran, -, -⟩
      · rw [ran]
      · rw [ran, List.map_append, List.mem_append]
        exact or_iff_left fun wrong => here (by simpa using wrong)
  · intro p member
    by_cases here : p = s
    · subst here
      rw [at_]
      exact ⟨isNew, unwritten⟩
    · rw [off p here]
      exact sound.accepted p ((accepted p member).resolve_right here)
  · rw [same.2.2.1]
    exact sound.full

theorem Sound.publish_seq (sound : Sound w) (here : w.q.pcs t = .publish pos) :
    Sound (jobStep w (.go t spurious)) := by
  have step : jqGo w.q t spurious =
      (.published, { w.q with seq := update w.q.seq (jqSlot pos) (pos + 1) }.goto t .idle) := by
    rw [jqGo, here]
  rw [jobStep_go step]
  have ok := sound.threads t
  unfold ThreadOk at ok
  rw [here] at ok
  obtain ⟨isPos, writing, job⟩ := ok
  have slot : jqSlot pos = w.spot t % jqSize := by rw [isPos, jqSlot_ofNat]
  have claimed : w.spot t < w.claims := sound.claimed_iff.mp (by simp [writing])
  have frame : Frame w { w.record t .published with
      q := { w.q with seq := update w.q.seq (jqSlot pos) (pos + 1) }.goto t .idle } t := by
    refine ⟨fun other differ => update_of_ne differ _ _, fun _ _ => rfl, List.prefix_refl _,
      Nat.le_refl _, fun _ => id, ?_, fun _ _ _ _ => ⟨rfl, rfl⟩⟩
    intro p
    by_cases same : p = w.spot t
    · subst same
      exact Or.inr (.publish writing (update_self _ _ _))
    · exact Or.inl (update_of_ne same _ _)
  have off : ∀ p, p ≠ w.spot t → update w.phase (w.spot t) .published p = w.phase p :=
    fun p differ => update_of_ne differ _ _
  refine sound.advance frame (by simp [writing]) rfl (by simp) (by simp) (by simp [writing])
    (by simp [writing, Phase.free])
    ⟨rfl, rfl, rfl, rfl, rfl⟩ sound.deq ?_ ?_ ?_ ?_ ?_ (Or.inl ⟨rfl, by simp⟩)
  · intro p
    change (update w.phase (w.spot t) .published p).away = true ↔ p < w.takes
    by_cases same : p = w.spot t
    · subst same
      rw [update_self, ← sound.away, writing]
      exact Iff.rfl
    · rw [off p same]
      exact sound.away p
  · intro p
    by_cases same : p = w.spot t
    · subst same
      change (match update w.phase (w.spot t) .published (w.spot t) with
        | .untouched => _
        | .writing _ => _
        | .published | .taken _ =>
            update w.q.seq (jqSlot pos) (pos + 1) (w.spot t % jqSize) = BitVec.ofNat 32 (w.spot t + 1) ∧
              w.claimed[w.spot t]? = some (w.q.fn (w.spot t % jqSize), w.q.arg (w.spot t % jqSize))
        | .left _ | .done => _)
      rw [Function.update_self, slot]
      refine ⟨?_, job⟩
      rw [Function.update_self, isPos, BitVec.ofNat_add]
      rfl
    · have kept := @Sound.cell_of_write _ _ _
        ({ w.q with seq := update w.q.seq (jqSlot pos) (pos + 1) }.goto t .idle) sound claimed
        (by simp [writing, Phase.free]) same (fun other differ => update_of_ne (by rwa [slot]) _ _) (fun _ _ => rfl) (fun _ _ => rfl)
      refine CellOk.of_phase kept ⟨rfl, rfl, rfl⟩ (off p same) ?_ (fun _ => id) id
      intro last
      by_cases next : p + jqSize = w.spot t
      · rw [next] at last
        exact absurd ((update_self _ _ _).symm.trans last) (by simp)
      · exact (off _ next).symm.trans last
  · unfold ThreadOk
    rw [pcs_goto]
    trivial
  · intro p holds
    change (update w.phase (w.spot t) .published p = .taken t ∨ update w.phase (w.spot t) .published p = .left t) at holds
    by_cases same : p = w.spot t
    · subst same
      simp at holds
    · rw [off p same] at holds
      exact absurd (sound.holders p t holds) (not_holds here rfl)
  · intro p member
    exact (List.mem_append.mp member).imp_right List.mem_singleton.mp

theorem Sound.claim_deq (sound : Sound w) (here : w.q.pcs t = .claimDeq pos) (equal : w.q.deq = pos)
    (near : w.takes < w.spot t + 2 ^ 32) : Sound (jobStep w (.go t false)) := by
  have step : jqGo w.q t false =
    (.claimedDeq, { w.q with deq := pos + 1 }.goto t (.getFn pos)) := by
    rw [jqGo, here]
    exact if_pos ⟨equal, rfl⟩
  rw [jobStep_go step]
  have ok := sound.threads t
  unfold ThreadOk at ok
  rw [here] at ok
  obtain ⟨all, isPos, bound, published⟩ := ok
  have atEnd : w.takes = w.spot t := ofNat_inj (sound.deq.symm.trans (equal.trans isPos)) bound near
  have ready : w.phase w.takes = .published := by
    rw [atEnd]
    exact published (Nat.le_of_eq atEnd)
  have frame : Frame w
    { w.record t .claimedDeq with q := { w.q with deq := pos + 1 }.goto t (.getFn pos) } t := by
    refine ⟨fun other differ => update_of_ne differ _ _, fun other differ => update_of_ne differ _ _,
      List.prefix_refl _, Nat.le_succ _, fun _ => id, ?_, fun _ _ _ _ => ⟨rfl, rfl⟩⟩
    intro p
    by_cases same : p = w.takes
    · subst same
      exact Or.inr (.take ready (update_self _ _ _) (Nat.lt_succ_self _))
    · exact Or.inl (update_of_ne same _ _)
  have off : ∀ p, p ≠ w.takes → update w.phase w.takes (.taken t) p = w.phase p :=
    fun p differ => update_of_ne differ _ _
  refine @Sound.advance w t w.takes _ (.taken t) sound frame (by simp [ready]) rfl (by simp)
    (by simp) (by simp [ready])
    (by simp [ready, Phase.free]) ⟨rfl, rfl, rfl, rfl, rfl⟩ ?_ ?_ ?_ ?_ ?_
    (fun p member => Or.inl member) (Or.inl ⟨rfl, by simp⟩)
  · change pos + 1 = BitVec.ofNat 32 (w.takes + 1)
    rw [isPos, ← atEnd, BitVec.ofNat_add]
    rfl
  · intro p
    change (update w.phase w.takes (.taken t) p).away = true ↔ p < w.takes + 1
    by_cases same : p = w.takes
    · subst same
      rw [update_self]
      exact iff_of_true rfl (Nat.lt_succ_self _)
    · rw [off p same, sound.away]
      omega
  · intro p
    by_cases same : p = w.takes
    · subst same
      have cell := sound.cells w.takes
      unfold CellOk at cell ⊢
      rw [ready] at cell
      change (match update w.phase w.takes (.taken t) w.takes with
        | .untouched => _
        | .writing _ => _
        | .published | .taken _ => w.q.seq (w.takes % jqSize) = BitVec.ofNat 32 (w.takes + 1) ∧
              w.claimed[w.takes]? = some (w.q.fn (w.takes % jqSize), w.q.arg (w.takes % jqSize))
        | .left _ | .done => _)
      rw [update_self]
      exact cell
    · refine CellOk.of_phase (sound.cells p) ⟨rfl, rfl, rfl⟩ (off p same) ?_ (fun _ => id) id
      intro last
      by_cases next : p + jqSize = w.takes
      · rw [next] at last
        exact absurd ((update_self _ _ _).symm.trans last) (by simp)
      · exact (off _ next).symm.trans last
  · unfold ThreadOk
    rw [pcs_goto]
    change pos = BitVec.ofNat 32 (update w.spot t w.takes t) ∧
      update w.phase w.takes (.taken t) (update w.spot t w.takes t) = .taken t
    rw [update_self, update_self]
    exact ⟨isPos.trans (by rw [atEnd]), rfl⟩
  · intro p holds
    change (update w.phase w.takes (.taken t) p = .taken t ∨ update w.phase w.takes (.taken t) p = .left t) at holds
    by_cases same : p = w.takes
    · subst same
      exact ⟨update_self _ _ _, congrArg Pc.hasJob pcs_goto⟩
    · rw [off p same] at holds
      exact absurd (sound.holders p t holds) (not_holds here rfl)

theorem Sound.release_slot (sound : Sound w) (here : w.q.pcs t = .release pos fn arg) :
    Sound (jobStep w (.go t spurious)) := by
  have step : jqGo w.q t spurious = (.released,
      { w.q with seq := update w.q.seq (jqSlot pos) (pos + BitVec.ofNat 32 jqSize) }.goto t (.run fn arg)) := by
    rw [jqGo, here]
  rw [jobStep_go step]
  have ok := sound.threads t
  unfold ThreadOk at ok
  rw [here] at ok
  obtain ⟨isPos, taken, job⟩ := ok
  have slot : jqSlot pos = w.spot t % jqSize := by rw [isPos, jqSlot_ofNat]
  have claimed : w.spot t < w.claims := sound.claimed_iff.mp (by simp [taken])
  have frame : Frame w { w.record t .released with
      q := { w.q with seq := update w.q.seq (jqSlot pos) (pos + BitVec.ofNat 32 jqSize) }.goto t (.run fn arg) } t := by
    refine ⟨fun other differ => update_of_ne differ _ _, fun _ _ => rfl, List.prefix_refl _,
      Nat.le_refl _, fun _ => id, ?_, fun _ _ _ _ => ⟨rfl, rfl⟩⟩
    intro p
    by_cases same : p = w.spot t
    · subst same
      exact Or.inr (.leave taken (update_self _ _ _))
    · exact Or.inl (update_of_ne same _ _)
  have off : ∀ p, p ≠ w.spot t → update w.phase (w.spot t) (.left t) p = w.phase p :=
    fun p differ => update_of_ne differ _ _
  refine sound.advance frame (by simp [taken]) rfl (by simp) (by simp) (by simp [taken])
    (by simp [taken, Phase.free])
    ⟨rfl, rfl, rfl, rfl, rfl⟩ sound.deq ?_ ?_ ?_ ?_ (fun p member => Or.inl member)
    (Or.inl ⟨rfl, by simp⟩)
  · intro p
    change (update w.phase (w.spot t) (.left t) p).away = true ↔ p < w.takes
    by_cases same : p = w.spot t
    · subst same
      rw [update_self, ← sound.away, taken]
      exact Iff.rfl
    · rw [off p same]
      exact sound.away p
  · intro p
    by_cases same : p = w.spot t
    · subst same
      change (match update w.phase (w.spot t) (.left t) (w.spot t) with
        | .untouched => _
        | .writing _ => _
        | .published | .taken _ => _
        | .left _ | .done => update w.phase (w.spot t) (.left t) (w.spot t + jqSize) = .untouched →
            update w.q.seq (jqSlot pos) (pos + BitVec.ofNat 32 jqSize) (w.spot t % jqSize) =
              BitVec.ofNat 32 (w.spot t + jqSize))
      rw [Function.update_self, slot]
      intro _
      rw [Function.update_self, isPos, BitVec.ofNat_add]
    · have kept := @Sound.cell_of_write _ _ _
        ({ w.q with seq := update w.q.seq (jqSlot pos) (pos + BitVec.ofNat 32 jqSize) }.goto t (.run fn arg)) sound
        claimed (by simp [taken, Phase.free]) same
        (fun other differ => update_of_ne (by rwa [slot]) _ _) (fun _ _ => rfl) (fun _ _ => rfl)
      refine CellOk.of_phase kept ⟨rfl, rfl, rfl⟩ (off p same) ?_ (fun _ => id) id
      intro last
      by_cases next : p + jqSize = w.spot t
      · rw [next] at last
        exact absurd ((update_self _ _ _).symm.trans last) (by simp)
      · exact (off _ next).symm.trans last
  · unfold ThreadOk
    rw [pcs_goto]
    change update w.phase (w.spot t) (.left t) (w.spot t) = .left t ∧ _
    rw [update_self]
    exact ⟨rfl, job⟩
  · intro p holds
    change (update w.phase (w.spot t) (.left t) p = .taken t ∨ update w.phase (w.spot t) (.left t) p = .left t) at holds
    by_cases same : p = w.spot t
    · subst same
      exact ⟨rfl, congrArg Pc.hasJob pcs_goto⟩
    · rw [off p same] at holds
      exact absurd (sound.holders p t holds).1.symm same

theorem Sound.run_job (sound : Sound w) (here : w.q.pcs t = .run fn arg) :
    Sound (jobStep w (.go t spurious)) := by
  have step : jqGo w.q t spurious = (.ran fn arg, w.q.goto t .idle) := by
    rw [jqGo, here]
  rw [jobStep_go step]
  have ok := sound.threads t
  unfold ThreadOk at ok
  rw [here] at ok
  obtain ⟨left, job⟩ := ok
  have frame : Frame w { w.record t (.ran fn arg) with q := w.q.goto t .idle } t := by
    refine ⟨fun other differ => update_of_ne differ _ _, fun _ _ => rfl, List.prefix_refl _,
      Nat.le_refl _, fun _ => id, ?_, fun _ _ _ _ => ⟨rfl, rfl⟩⟩
    intro p
    by_cases same : p = w.spot t
    · subst same
      exact Or.inr (.finish left (update_self _ _ _))
    · exact Or.inl (update_of_ne same _ _)
  have off : ∀ p, p ≠ w.spot t → update w.phase (w.spot t) .done p = w.phase p :=
    fun p differ => update_of_ne differ _ _
  refine sound.advance frame (by simp [left]) rfl (by simp) (by simp) (by simp [left])
    (fun _ => rfl)
    ⟨rfl, rfl, rfl, rfl, rfl⟩ sound.deq ?_ ?_ ?_ ?_ (fun p member => Or.inl member)
    (Or.inr ⟨(fn, arg), rfl, job, rfl⟩)
  · intro p
    change (update w.phase (w.spot t) .done p).away = true ↔ p < w.takes
    by_cases same : p = w.spot t
    · subst same
      rw [update_self, ← sound.away, left]
      exact Iff.rfl
    · rw [off p same]
      exact sound.away p
  · intro p
    by_cases same : p = w.spot t
    · subst same
      have cell := sound.cells (w.spot t)
      have size : 0 < jqSize := by decide
      unfold CellOk at cell ⊢
      rw [left] at cell
      change (match update w.phase (w.spot t) .done (w.spot t) with
        | .untouched => _
        | .writing _ => _
        | .published | .taken _ => _
        | .left _ | .done => update w.phase (w.spot t) .done (w.spot t + jqSize) = .untouched →
            w.q.seq (w.spot t % jqSize) = BitVec.ofNat 32 (w.spot t + jqSize))
      rw [Function.update_self]
      intro last
      rw [off _ (by omega)] at last
      exact cell last
    · refine CellOk.of_phase (sound.cells p) ⟨rfl, rfl, rfl⟩ (off p same) ?_ (fun _ => id) id
      intro last
      by_cases next : p + jqSize = w.spot t
      · rw [next] at last
        exact absurd ((update_self _ _ _).symm.trans last) (by simp)
      · exact (off _ next).symm.trans last
  · unfold ThreadOk
    rw [pcs_goto]
    trivial
  · intro p holds
    change (update w.phase (w.spot t) .done p = .taken t ∨ update w.phase (w.spot t) .done p = .left t) at holds
    by_cases same : p = w.spot t
    · subst same
      simp at holds
    · rw [off p same] at holds
      exact absurd (sound.holders p t holds).1.symm same

theorem Sound.inUse_full (sound : Sound w) (round : jqSize ≤ w.claims)
    (used : ∀ p < w.claims, w.claims ≤ p + jqSize → (w.phase p).free = false) :
    w.inUse = jqSize := by
  obtain ⟨early, isEarly⟩ : ∃ early, w.claims = early + jqSize := ⟨w.claims - jqSize, by omega⟩
  rw [inUse, isEarly, List.range_add, List.countP_append]
  have before : (List.range early).countP (fun p => ! (w.phase p).free) = 0 := by
    rw [List.countP_eq_zero]
    intro p member
    rw [List.mem_range] at member
    rw [sound.before p (by omega)]
    decide
  have last : ((List.range jqSize).map (early + ·)).countP (fun p => ! (w.phase p).free) =
    jqSize := by
    rw [List.countP_eq_length.mpr, List.length_map, List.length_range]
    intro p member
    obtain ⟨i, inside, rfl⟩ := List.mem_map.mp member
    rw [List.mem_range] at inside
    rw [used (early + i) (by omega) (by omega)]
    rfl
  rw [before, last, Nat.zero_add]

theorem Sound.refuse (sound : Sound w) (here : w.q.pcs t = .pushSeq fn arg pos)
    (permitted : orderly w (.go t spurious)) (refused : Seq.diff (w.q.seq (jqSlot pos)) pos < 0) :
    w.inUse = jqSize := by
  have ok := sound.threads t
  unfold ThreadOk at ok
  rw [here] at ok
  obtain ⟨all, isPos, bound⟩ := ok
  dsimp only [orderly] at permitted
  rw [here] at permitted
  obtain ⟨near, inTurn⟩ := permitted
  rw [isPos, jqSlot_ofNat] at refused
  rcases Nat.lt_or_eq_of_le bound with stale | current
  · obtain ⟨value, shown, low, high⟩ := sound.claimed_slot stale
    rw [shown, diff_ofNat (by omega) (by omega)] at refused
    omega
  · rw [current] at refused
    rcases sound.next_slot all with ⟨-, shown⟩ | ⟨round, used, -⟩
    · rw [shown, diff_ofNat (by omega) (by omega)] at refused
      omega
    · exact sound.inUse_full round (inTurn round used)

theorem Sound.pop_ready (sound : Sound w) (all : w.AllInited)
    (equal : Seq.diff (w.q.seq (w.takes % jqSize)) (BitVec.ofNat 32 (w.takes + 1)) = 0) :
    w.phase w.takes = .published := by
  have size : jqSize = 256 := rfl
  have notAway : (w.phase w.takes).away ≠ true :=
    fun away => Nat.lt_irrefl _ ((sound.away _).mp away)
  have cell := sound.cells w.takes
  unfold CellOk at cell
  cases phase : w.phase w.takes with
  | published => rfl
  | taken _ => exact absurd (by rw [phase]; rfl) notAway
  | left _ => exact absurd (by rw [phase]; rfl) notAway
  | done => exact absurd (by rw [phase]; rfl) notAway
  | writing _ =>
      rw [phase] at cell
      rw [show w.q.seq (w.takes % jqSize) = BitVec.ofNat 32 w.takes from cell, diff_ofNat (by omega) (by omega)] at equal
      omega
  | untouched =>
      have late := (sound.untouched _).mp phase
      have early : w.takes ≤ w.claims := by
        apply Nat.not_lt.mp
        intro past
        have away := (sound.away w.claims).mpr past
        rw [(sound.untouched w.claims).mpr (Nat.le_refl _)] at away
        cases away
      have same : w.takes = w.claims := Nat.le_antisymm early late
      rw [same] at equal
      rcases sound.next_slot all with ⟨-, shown⟩ | ⟨round, -, shown⟩
      · rw [shown, diff_ofNat (by omega) (by omega)] at equal
        omega
      · rcases shown with shown | shown
        · rw [shown, diff_ofNat (by omega) (by omega)] at equal
          omega
        · rw [shown, diff_ofNat (by omega) (by omega)] at equal
          omega

end

theorem Sound.quiet {pc old : Pc} (sound : Sound w) (here : w.q.pcs t = old)
    (job : old.hasJob = pc.hasJob) (own : JobWorld.ThreadOk { w with q := w.q.goto t pc } t) :
    Sound { w with q := w.q.goto t pc } := by
  have busy : ∀ p, w.Holds t p →
    JobWorld.Holds { w with q := w.q.goto t pc, spot := w.spot } t p := by
    intro p holds
    refine ⟨holds.1, (congrArg Pc.hasJob pcs_goto).trans ?_⟩
    rw [← job, ← here]
    exact holds.2
  exact sound.moved (fun _ _ => rfl) busy own

theorem Sound.saw {pc old : Pc} {position : Nat} (sound : Sound w) (here : w.q.pcs t = old)
    (job : old.hasJob = false)
    (own : JobWorld.ThreadOk { w with q := w.q.goto t pc, spot := update w.spot t position } t) :
    Sound { w with q := w.q.goto t pc, spot := update w.spot t position } :=
  sound.moved (fun _ differ => update_of_ne differ _ _)
    (fun _ holds => absurd holds (not_holds here job)) own

theorem Sound.go {spurious : Bool} (sound : Sound w) (permitted : orderly w (.go t spurious)) :
    Sound (jobStep w (.go t spurious)) := by
  have ok := sound.threads t
  have allowed := permitted
  unfold ThreadOk at ok
  dsimp only [orderly] at allowed
  cases here : w.q.pcs t with
  | idle =>
      have step : jqGo w.q t spurious = (.quiet, w.q) := by rw [jqGo, here]
      rw [jobStep_go step]
      exact sound
  | testReady fn arg =>
      have step : jqGo w.q t spurious = (.quiet, w.q.goto t (if w.q.ready then .loadEnq fn arg else .init fn arg 0)) := by
        rw [jqGo, here]
      rw [jobStep_go step]
      split
      · rename_i ready
        refine Sound.quiet sound here rfl ?_
        unfold ThreadOk
        rw [pcs_goto]
        exact sound.ready ready
      · refine Sound.quiet sound here rfl ?_
        unfold ThreadOk
        rw [pcs_goto]
        exact fun j less => absurd less (Nat.not_lt_zero j)
  | init fn arg i =>
      rw [here] at allowed
      by_cases inside : i < jqSize
      · exact sound.init_store here inside (allowed inside)
      · exact sound.init_done here inside
  | loadEnq fn arg =>
      have step : jqGo w.q t spurious = (.sawEnq, w.q.goto t (.pushSeq fn arg w.q.enq)) := by rw [jqGo, here]
      rw [jobStep_go step]
      rw [here] at ok
      refine Sound.saw sound here rfl ?_
      unfold ThreadOk
      rw [pcs_goto]
      refine ⟨ok, ?_, ?_⟩
      · change w.q.enq = BitVec.ofNat 32 (update w.spot t w.claims t)
        rw [update_self]
        exact sound.enq
      · exact Nat.le_of_eq (update_self _ _ _)
  | pushSeq fn arg pos =>
      rw [here] at ok
      obtain ⟨all, isPos, bound⟩ := ok
      by_cases equal : Seq.diff (w.q.seq (jqSlot pos)) pos = 0
      · have step : jqGo w.q t spurious = (.quiet, w.q.goto t (.claimEnq fn arg pos)) := by
          rw [jqGo, here]
          exact if_pos equal
        rw [jobStep_go step]
        refine Sound.quiet sound here rfl ?_
        unfold ThreadOk
        rw [pcs_goto]
        refine ⟨all, isPos, bound, fun late => ?_⟩
        have current : w.spot t = w.claims := Nat.le_antisymm bound late
        rw [isPos, jqSlot_ofNat, current] at equal
        rw [current]
        exact sound.freed_of_diff all equal
      · by_cases below : Seq.diff (w.q.seq (jqSlot pos)) pos < 0
        · have step : jqGo w.q t spurious = (.refused, w.q.goto t .idle) := by
            rw [jqGo, here]
            exact (if_neg equal).trans (if_pos below)
          rw [jobStep_go step]
          have count := sound.refuse here permitted below
          have moved : Sound { w with q := w.q.goto t .idle } := by
            refine Sound.quiet sound here rfl ?_
            unfold ThreadOk
            rw [pcs_goto]
            trivial
          refine ⟨moved.enq, moved.deq, moved.untouched, moved.away, moved.before, moved.cells, moved.ready, moved.threads,
            moved.holders, moved.once, moved.right, moved.done, moved.accepted, ?_⟩
          intro counted member
          rcases List.mem_append.mp member with before | last
          · exact sound.full counted before
          · exact (List.mem_singleton.mp last).trans count
        · have step : jqGo w.q t spurious = (.quiet, w.q.goto t (.loadEnq fn arg)) := by
            rw [jqGo, here]
            exact (if_neg equal).trans (if_neg below)
          rw [jobStep_go step]
          refine Sound.quiet sound here rfl ?_
          unfold ThreadOk
          rw [pcs_goto]
          exact all
  | claimEnq fn arg pos =>
      rw [here] at allowed
      by_cases taken : w.q.enq = pos ∧ spurious = false
      · obtain ⟨equal, rfl⟩ := taken
        exact sound.claim_enq here equal allowed
      · have step : jqGo w.q t spurious = (.sawEnq, w.q.goto t (.pushSeq fn arg w.q.enq)) := by
          rw [jqGo, here]
          exact if_neg taken
        rw [jobStep_go step]
        rw [here] at ok
        refine Sound.saw sound here rfl ?_
        unfold ThreadOk
        rw [pcs_goto]
        refine ⟨ok.1, ?_, ?_⟩
        · change w.q.enq = BitVec.ofNat 32 (update w.spot t w.claims t)
          rw [update_self]
          exact sound.enq
        · exact Nat.le_of_eq (update_self _ _ _)
  | putFn fn arg pos => exact sound.put_fn here
  | putArg arg pos => exact sound.put_arg here
  | publish pos => exact sound.publish_seq here
  | checkReady =>
      have step : jqGo w.q t spurious = (.quiet, w.q.goto t (if w.q.ready then .loadDeq else .idle)) := by
        rw [jqGo, here]
      rw [jobStep_go step]
      split
      · rename_i ready
        refine Sound.quiet sound here rfl ?_
        unfold ThreadOk
        rw [pcs_goto]
        exact sound.ready ready
      · refine Sound.quiet sound here rfl ?_
        unfold ThreadOk
        rw [pcs_goto]
        trivial
  | loadDeq =>
      have step : jqGo w.q t spurious = (.sawDeq, w.q.goto t (.popSeq w.q.deq)) := by rw [jqGo, here]
      rw [jobStep_go step]
      rw [here] at ok
      refine Sound.saw sound here rfl ?_
      unfold ThreadOk
      rw [pcs_goto]
      refine ⟨ok, ?_, ?_⟩
      · change w.q.deq = BitVec.ofNat 32 (update w.spot t w.takes t)
        rw [update_self]
        exact sound.deq
      · exact Nat.le_of_eq (update_self _ _ _)
  | popSeq pos =>
      rw [here] at ok
      obtain ⟨all, isPos, bound⟩ := ok
      by_cases equal : Seq.diff (w.q.seq (jqSlot pos)) (pos + 1) = 0
      · have step : jqGo w.q t spurious = (.quiet, w.q.goto t (.claimDeq pos)) := by
          rw [jqGo, here]
          exact if_pos equal
        rw [jobStep_go step]
        refine Sound.quiet sound here rfl ?_
        unfold ThreadOk
        rw [pcs_goto]
        refine ⟨all, isPos, bound, fun late => ?_⟩
        have current : w.spot t = w.takes := Nat.le_antisymm bound late
        have next : BitVec.ofNat 32 w.takes + 1 = BitVec.ofNat 32 (w.takes + 1) := by
          rw [BitVec.ofNat_add]
          rfl
        rw [isPos, jqSlot_ofNat, current, next] at equal
        rw [current]
        exact sound.pop_ready all equal
      · by_cases below : Seq.diff (w.q.seq (jqSlot pos)) (pos + 1) < 0
        · have step : jqGo w.q t spurious = (.quiet, w.q.goto t .idle) := by
            rw [jqGo, here]
            exact (if_neg equal).trans (if_pos below)
          rw [jobStep_go step]
          refine Sound.quiet sound here rfl ?_
          unfold ThreadOk
          rw [pcs_goto]
          trivial
        · have step : jqGo w.q t spurious = (.quiet, w.q.goto t .loadDeq) := by
            rw [jqGo, here]
            exact (if_neg equal).trans (if_neg below)
          rw [jobStep_go step]
          refine Sound.quiet sound here rfl ?_
          unfold ThreadOk
          rw [pcs_goto]
          exact all
  | claimDeq pos =>
      rw [here] at allowed
      by_cases taken : w.q.deq = pos ∧ spurious = false
      · obtain ⟨equal, rfl⟩ := taken
        exact sound.claim_deq here equal allowed
      · have step : jqGo w.q t spurious = (.sawDeq, w.q.goto t (.popSeq w.q.deq)) := by
          rw [jqGo, here]
          exact if_neg taken
        rw [jobStep_go step]
        rw [here] at ok
        refine Sound.saw sound here rfl ?_
        unfold ThreadOk
        rw [pcs_goto]
        refine ⟨ok.1, ?_, ?_⟩
        · change w.q.deq = BitVec.ofNat 32 (update w.spot t w.takes t)
          rw [update_self]
          exact sound.deq
        · exact Nat.le_of_eq (update_self _ _ _)
  | getFn pos =>
      have step : jqGo w.q t spurious = (.quiet, w.q.goto t (.getArg pos (w.q.fn (jqSlot pos)))) := by rw [jqGo, here]
      rw [jobStep_go step]
      rw [here] at ok
      obtain ⟨isPos, taken⟩ := ok
      refine Sound.quiet sound here rfl ?_
      have cell := sound.cells (w.spot t)
      unfold CellOk at cell
      rw [taken] at cell
      unfold ThreadOk
      rw [pcs_goto]
      refine ⟨isPos, taken, ?_⟩
      rw [isPos, jqSlot_ofNat]
      exact cell.2
  | getArg pos fn =>
      have step : jqGo w.q t spurious = (.quiet, w.q.goto t (.release pos fn (w.q.arg (jqSlot pos)))) := by rw [jqGo, here]
      rw [jobStep_go step]
      rw [here] at ok
      obtain ⟨isPos, taken, job⟩ := ok
      refine Sound.quiet sound here rfl ?_
      unfold ThreadOk
      rw [pcs_goto]
      refine ⟨isPos, taken, ?_⟩
      rw [isPos, jqSlot_ofNat]
      exact job
  | release pos fn arg => exact sound.release_slot here
  | run fn arg => exact sound.run_job here

theorem Sound.step {label : JobStep} (sound : Sound w) (permitted : orderly w label) :
    Sound (jobStep w label) := by
  cases label with
  | push t fn arg =>
      by_cases idle : w.q.pcs t = .idle
      · have step : jobStep w (.push t fn arg) = { w with q := w.q.goto t (.testReady fn arg) } := by
          rw [jobStep, jqStep, if_pos idle]
          rfl
        rw [step]
        refine Sound.quiet sound idle rfl ?_
        unfold ThreadOk
        rw [pcs_goto]
        trivial
      · have step : jobStep w (.push t fn arg) = w := by
          rw [jobStep, jqStep, if_neg idle]
          rfl
        rw [step]
        exact sound
  | work t =>
      by_cases idle : w.q.pcs t = .idle
      · have step : jobStep w (.work t) = { w with q := w.q.goto t .checkReady } := by
          rw [jobStep, jqStep, if_pos idle]
          rfl
        rw [step]
        refine Sound.quiet sound idle rfl ?_
        unfold ThreadOk
        rw [pcs_goto]
        trivial
      · have step : jobStep w (.work t) = w := by
          rw [jobStep, jqStep, if_neg idle]
          rfl
        rw [step]
        exact sound
  | go t spurious => exact sound.go permitted

theorem startJobs_sound : Sound startJobs where
  enq := rfl
  deq := rfl
  untouched := fun p => iff_of_true rfl (Nat.zero_le p)
  away := fun p => iff_of_false Bool.noConfusion (Nat.not_lt_zero p)
  before := fun p early => absurd early (Nat.not_lt_zero _)
  cells := fun p _ inited => absurd inited Bool.noConfusion
  ready := fun ready => absurd ready Bool.noConfusion
  threads := fun t => trivial
  holders := by
    intro p t holds
    rcases holds with wrong | wrong <;> cases wrong
  once := List.Pairwise.nil
  right := fun job member => absurd member List.not_mem_nil
  done := fun p => iff_of_false List.not_mem_nil (fun wrong => by cases wrong)
  accepted := fun p member => absurd member List.not_mem_nil
  full := fun count member => absurd member List.not_mem_nil

/-- In every orderly run each accepted job runs once, with its argument and in turn. -/
theorem jobs_run_once (labels : List JobStep)
    (permitted : StepsAllowed jobStep orderly startJobs labels) :
    RunsOnce (runSteps jobStep startJobs labels) := by
  have reached : Reaches jobStep orderly startJobs (runSteps jobStep startJobs labels) :=
    Reaches.runSteps .refl permitted
  have sound := reached.invariant startJobs_sound fun _ _ sound permitted => sound.step permitted
  exact sound.runsOnce

/-- One push by the first thread, all of `jq_init` included, and one take by another. -/
def pushAndTake : List JobStep :=
  .push 0 7 8 :: List.replicate 264 (.go 0 false) ++ (.work 1 :: List.replicate 8 (.go 1 false))

theorem jobs_run_once_example : (runSteps jobStep startJobs pushAndTake).ran = [(0, 7, 8)] ∧
    RunsOnce (runSteps jobStep startJobs pushAndTake) :=
  ⟨by set_option maxRecDepth 100000 in decide, jobs_run_once pushAndTake (by set_option maxRecDepth 100000 in decide)⟩

theorem jobStep_other {label : JobStep} (other : label.thread ≠ t) :
    (jobStep w label).q.pcs t = w.q.pcs t := by
  have away : ∀ (q : JobQueue) (pc : Pc) (mover : Nat), mover ≠ t →
    (q.goto mover pc).pcs t = q.pcs t :=
    fun q pc mover differ => update_of_ne (Ne.symm differ) _ _
  cases label with
  | push mover fn arg =>
      change (if w.q.pcs mover = .idle then w.q.goto mover (.testReady fn arg) else w.q).pcs t = w.q.pcs t
      split
      · exact away _ _ _ other
      · rfl
  | work mover =>
      change (if w.q.pcs mover = .idle then w.q.goto mover .checkReady else w.q).pcs t = w.q.pcs t
      split
      · exact away _ _ _ other
      · rfl
  | go mover spurious =>
      change (jqGo w.q mover spurious).2.pcs t = w.q.pcs t
      unfold jqGo
      cases w.q.pcs mover with
      | idle => rfl
      | init fn arg i =>
          dsimp only
          split
          · exact away _ _ _ other
          · exact away _ _ _ other
      | pushSeq fn arg pos =>
          dsimp only
          split
          · exact away _ _ _ other
          · split
            · exact away _ _ _ other
            · exact away _ _ _ other
      | claimEnq fn arg pos =>
          dsimp only
          split
          · exact away _ _ _ other
          · exact away _ _ _ other
      | popSeq pos =>
          dsimp only
          split
          · exact away _ _ _ other
          · split
            · exact away _ _ _ other
            · exact away _ _ _ other
      | claimDeq pos =>
          dsimp only
          split
          · exact away _ _ _ other
          · exact away _ _ _ other
      | _ => exact away _ _ _ other

theorem runSteps_other {labels : List JobStep} (others : ∀ label ∈ labels, label.thread ≠ t) :
    (runSteps jobStep w labels).q.pcs t = w.q.pcs t := by
  induction labels generalizing w with
  | nil => rfl
  | cons label rest ih =>
      rw [runSteps, ih fun next member => others next (List.mem_cons_of_mem _ member),
        jobStep_other (others label List.mem_cons_self)]

/-- Two threads find the ring not ready; the first prepares it and pushes, and the second stores the
first number again. -/
def lateInit : List JobStep :=
  .push 0 7 8 :: .push 1 9 10 :: .go 0 false :: .go 1 false :: List.replicate 263 (.go 0 false) ++
    [.go 1 false]

theorem lateInit_threads : ∀ label ∈ lateInit, label.thread < 2 := by
  set_option maxRecDepth 100000 in decide

theorem late_init_loses_job : ¬ RunsOnce (runSteps jobStep startJobs lateInit) := by
  intro runs
  have accepted : (runSteps jobStep startJobs lateInit).accepted = [0] := by
    set_option maxRecDepth 100000 in decide
  rcases runs.kept 0 (by rw [accepted]; exact List.mem_singleton_self 0) with ran | ⟨t, holds⟩ |
    ⟨-, shown, -⟩
  · have none : (runSteps jobStep startJobs lateInit).ran = [] := by set_option maxRecDepth 100000 in decide
    rw [none] at ran
    exact List.not_mem_nil ran
  · have first : ((runSteps jobStep startJobs lateInit).q.pcs 0).hasJob = false := by
      set_option maxRecDepth 100000 in decide
    have second : ((runSteps jobStep startJobs lateInit).q.pcs 1).hasJob = false := by
      set_option maxRecDepth 100000 in decide
    have busy := holds.2
    by_cases isFirst : t = 0
    · rw [isFirst, first] at busy
      cases busy
    · by_cases isSecond : t = 1
      · rw [isSecond, second] at busy
        cases busy
      · have still := @runSteps_other startJobs t lateInit fun label member same => by
          have early := lateInit_threads label member
          omega
        rw [still] at busy
        cases busy
  · exact absurd shown (by set_option maxRecDepth 100000 in decide)

end JobWorld

end Cos.Runtime
