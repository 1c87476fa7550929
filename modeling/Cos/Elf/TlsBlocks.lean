import Cos.Elf.Tls

/-! # The blocks of the modules

As long as no module asks for more than `COS_ELF_MAX_SEGMENT` bytes the sums of the layout
do not wrap: each module's block ends where the one before it begins, or lower.  A module
that asks for more is laid out with a wrapped offset, and its block does not fit.
-/

namespace Cos.Elf

variable {objs : List TlsObject} {slots : List TlsSlot} {mem mem' : UserMem}
  {region regionSize : Addr} {tls : TlsBlock} {offset maxAlign modid last align : Nat}

theorem alignUpWord_of_pow {v k : Nat} (room : v + 2 ^ k < 2 ^ 64) :
    v ≤ alignUpWord v (2 ^ k) ∧ alignUpWord v (2 ^ k) < v + 2 ^ k ∧
    2 ^ k ∣ alignUpWord v (2 ^ k) := by
  unfold alignUpWord
  by_cases one : 2 ^ k ≤ 1
  · have same : 2 ^ k = 1 := Nat.le_antisymm one Nat.one_le_two_pow
    rw [same]
    exact ⟨Nat.le_refl v, Nat.lt_succ_self v, Nat.one_dvd v⟩
  · have mask : 2 ^ k &&& (2 ^ k - 1) = 0 := by
      rw [Nat.and_two_pow_sub_one_eq_mod, Nat.mod_self]
    rw [if_neg one, if_neg (not_not.mpr mask), Nat.mod_eq_of_lt (by omega)]
    have divided := Nat.div_add_mod (v + 2 ^ k - 1) (2 ^ k)
    rw [Nat.mul_comm] at divided
    exact ⟨by omega, by omega, Nat.dvd_mul_left _ _⟩

theorem alignment_pow (o : TlsObject) : ∃ k, o.alignment = 2 ^ k := by
  unfold TlsObject.alignment
  have nonzero : (if o.align = 0 then 8 else o.align) ≠ 0 := by
    by_cases zero : o.align = 0
    · rw [if_pos zero]
      decide
    · rw [if_neg zero]
      exact zero
  generalize (if o.align = 0 then 8 else o.align) = a at nonzero ⊢
  by_cases power : a &&& (a - 1) = 0
  · rw [if_neg (not_not.mpr power)]
    exact (Nat.and_sub_one_eq_zero_iff_isPowerOfTwo nonzero).mp power
  · rw [if_pos power]
    exact ⟨3, rfl⟩

theorem larger_of_pows {a b j k : Nat} (isA : a = 2 ^ j) (isB : b = 2 ^ k) :
    a ∣ (if a > b then a else b) ∧ b ∣ (if a > b then a else b) ∧
    ∃ i, (if a > b then a else b) = 2 ^ i := by
  by_cases more : a > b
  · rw [if_pos more]
    refine ⟨Nat.dvd_refl a, ?_, j, isA⟩
    rw [isA, isB] at more ⊢
    exact Nat.pow_dvd_pow 2 (Nat.le_of_lt ((Nat.pow_lt_pow_iff_right (by decide)).mp more))
  · rw [if_neg more]
    refine ⟨?_, Nat.dvd_refl b, k, isB⟩
    rw [isA, isB] at more ⊢
    exact Nat.pow_dvd_pow 2 ((Nat.pow_le_pow_iff_right (by decide)).mp (Nat.le_of_not_lt more))

def modulesOf (slots : List TlsSlot) : List TlsSlot := slots.filter fun slot => slot.modid > 0

/-- What the layout promises of the modules behind `offset`. -/
structure LaidOut (slots : List TlsSlot) (offset modid last align : Nat) : Prop where
  grows : offset ≤ last
  room : ∀ slot ∈ modulesOf slots, offset + slot.obj.memsz ≤ slot.offset ∧ slot.offset ≤ last
  aligned : ∀ slot ∈ modulesOf slots, slot.obj.alignment ∣ slot.offset ∧ slot.obj.alignment ∣ align
  apart : (modulesOf slots).Pairwise fun first second =>
    first.offset + second.obj.memsz ≤ second.offset
  numbered : ∀ slot ∈ modulesOf slots, slot.modid ≤ modid + (modulesOf slots).length
  count : (modulesOf slots).length ≤ last - offset

theorem tlsLayoutFrom_laidOut {k : Nat}
    (modest : ∀ o ∈ objs, o.hasTls = true → o.memsz ≤ maxSegment) (small : offset ≤ maxSegment)
    (pow : maxAlign = 2 ^ k) (bounded : maxAlign ≤ 2 ^ 16)
    (laid : tlsLayoutFrom objs offset maxAlign modid = some (slots, last, align)) :
    LaidOut slots offset modid last align ∧ last ≤ maxSegment ∧ maxAlign ∣ align ∧ align ≤ 2 ^ 16 ∧
    ∃ j, align = 2 ^ j := by
  induction objs generalizing offset maxAlign modid slots k with
  | nil =>
      cases laid
      refine ⟨⟨Nat.le_refl _, ?_, ?_, List.Pairwise.nil, ?_, Nat.zero_le _⟩, small, Nat.dvd_refl _, bounded, k, pow⟩
      all_goals exact fun _ member => absurd member List.not_mem_nil
  | cons o rest ih =>
      have restModest : ∀ o ∈ rest, o.hasTls = true → o.memsz ≤ maxSegment := fun o member =>
        modest o (List.mem_cons_of_mem _ member)
      rw [tlsLayoutFrom] at laid
      split at laid
      · split at laid
        · contradiction
        · rename_i others result isRest
          cases laid
          have skipped : modulesOf (⟨o, 0, 0⟩ :: others) = modulesOf others := by
            rfl
          obtain ⟨laidRest, facts⟩ := ih restModest small pow bounded isRest
          refine ⟨⟨laidRest.grows, ?_, ?_, ?_, ?_, ?_⟩, facts⟩ <;> rw [skipped]
          · exact laidRest.room
          · exact laidRest.aligned
          · exact laidRest.apart
          · exact laidRest.numbered
          · exact laidRest.count
      · rename_i isModule
        rw [not_or] at isModule
        split at laid
        · contradiction
        · dsimp only at laid
          generalize isNext : alignUpWord ((offset + o.memsz) % 2 ^ 64) o.alignment = next at laid
          split at laid
          · contradiction
          · split at laid
            · contradiction
            · rename_i others result isRest
              cases laid
              obtain ⟨j, isPow⟩ := alignment_pow o
              have limit : maxSegment = 2 ^ 28 := rfl
              have size := modest o List.mem_cons_self (by simpa using isModule.1)
              rw [Nat.mod_eq_of_lt (show offset + o.memsz < 2 ^ 64 by omega)] at isNext
              have ⟨above, _, multiple⟩ := @alignUpWord_of_pow (offset + o.memsz) j (by omega)
              rw [← isPow, isNext] at above multiple
              obtain ⟨toBoth, keeps, i, isMax⟩ := larger_of_pows isPow pow
              have atMost : (if o.alignment > maxAlign then o.alignment else maxAlign) ≤ 2 ^ 16 := by
                split <;> omega
              obtain ⟨laidRest, small', divides, rest'⟩ := ih restModest (by omega) isMax atMost isRest
              have taken : modulesOf (⟨o, modid + 1, next⟩ :: others) = ⟨o, modid + 1, next⟩ :: modulesOf others :=
                List.filter_cons_of_pos (by simp)
              have grows := laidRest.grows
              refine ⟨⟨by omega, ?_, ?_, ?_, ?_, ?_⟩, small', Nat.dvd_trans keeps divides, rest'⟩ <;> rw [taken]
              · refine List.forall_mem_cons.mpr ⟨⟨above, grows⟩, fun slot member => ?_⟩
                have later := laidRest.room slot member
                omega
              · exact List.forall_mem_cons.mpr ⟨⟨multiple, Nat.dvd_trans toBoth divides⟩, laidRest.aligned⟩
              · exact List.pairwise_cons.mpr ⟨fun slot member => (laidRest.room slot member).1, laidRest.apart⟩
              · rw [List.length_cons]
                refine List.forall_mem_cons.mpr ⟨by dsimp only; omega, fun slot member => ?_⟩
                have later := laidRest.numbered slot member
                omega
              · have later := laidRest.count
                rw [List.length_cons]
                omega


theorem tlsLayoutFrom_slots (laid :
    tlsLayoutFrom objs offset maxAlign modid = some (slots, last, align)) {o : TlsObject}
    (member : o ∈ objs) (isModule : o.hasTls = true ∧ o.memsz ≠ 0) :
    ∃ slot ∈ modulesOf slots, slot.obj = o ∧ slot.offset ≤ maxSegment := by
  induction objs generalizing offset maxAlign modid slots with
  | nil => exact absurd member List.not_mem_nil
  | cons first rest ih =>
      rw [tlsLayoutFrom] at laid
      split at laid
      · rename_i skipped
        split at laid
        · contradiction
        · rename_i others result isRest
          cases laid
          rcases List.mem_cons.mp member with rfl | member
          · rw [isModule.1] at skipped
            exact absurd skipped (not_or.mpr ⟨by decide, isModule.2⟩)
          · obtain ⟨slot, isSlot, found⟩ := ih isRest member
            exact ⟨slot, List.mem_filter.mpr ⟨List.mem_cons_of_mem _ (List.mem_filter.mp isSlot).1,
              (List.mem_filter.mp isSlot).2⟩, found⟩
      · split at laid
        · contradiction
        · dsimp only at laid
          split at laid
          · contradiction
          · rename_i fits
            split at laid
            · contradiction
            · rename_i others result isRest
              cases laid
              rcases List.mem_cons.mp member with rfl | member
              · exact ⟨_, List.mem_filter.mpr ⟨List.mem_cons_self, by simp⟩, rfl, Nat.le_of_not_lt fits⟩
              · obtain ⟨slot, isSlot, found⟩ := ih isRest member
                exact ⟨slot, List.mem_filter.mpr ⟨List.mem_cons_of_mem _ (List.mem_filter.mp isSlot).1,
                  (List.mem_filter.mp isSlot).2⟩, found⟩

theorem copyImage_changes {dest source : Addr} {chunks left : Nat}
    (room : dest.toNat + left < 2 ^ 63)
    (copied : copyImage dest source chunks left mem = some mem') :
    ChangesWithin dest.toNat (dest.toNat + left) mem mem' := by
  induction chunks generalizing dest source left mem with
  | zero =>
      cases copied
      exact ChangesWithin.refl
  | succ chunks ih =>
      rw [copyImage] at copied
      split at copied
      · contradiction
      · rename_i bytes read
        have length := (userRead_iff.mp read).2.1
        split at copied
        · contradiction
        · rename_i next isNext
          have first := userWrite_changes isNext (by omega)
          have place : (dest + BitVec.ofNat 64 (min left 256)).toNat = dest.toNat + min left 256 :=
            toNat_add_ofNat (by omega)
          have rest := ih (by omega) copied
          exact (first.widen (Nat.le_refl _) (by omega)).trans (rest.widen (by omega) (by omega))

/-- The control block, the vector and every module's block lie where they should, apart
from each other, and nothing is written outside the region. -/
structure TlsPlaced (region regionSize : Nat) (mem mem' : UserMem) (tls : TlsBlock) : Prop where
  inside : ∀ slot ∈ modulesOf tls.slots, slot.offset ≤ tls.tp ∧ region ≤ tls.tp - slot.offset ∧
    tls.tp - slot.offset + slot.obj.memsz ≤ tls.tp
  apart : (modulesOf tls.slots).Pairwise fun first second =>
    tls.tp - first.offset + first.obj.memsz ≤ tls.tp - second.offset ∨
      tls.tp - second.offset + second.obj.memsz ≤ tls.tp - first.offset
  aligned : ∀ slot ∈ modulesOf tls.slots, slot.obj.alignment ∣ tls.tp - slot.offset
  control : region ≤ tls.tp ∧ tls.tp + tcbSize ≤ tls.dtv ∧
    tls.dtv + (tls.modules + 1) * 8 ≤ region + regionSize
  writes : ChangesWithin region (region + regionSize) mem mem'

theorem toNat_ofNat_small {n : Nat} (small : n < 2 ^ 64) : (BitVec.ofNat 64 n).toNat = n := by
  exact Nat.mod_eq_of_lt small

theorem initModules_changes {start stop tp dtv modules : Nat} (slots : List TlsSlot)
    (inside : ∀ slot ∈ modulesOf slots, slot.offset ≤ tp ∧ start ≤ tp - slot.offset ∧
      tp - slot.offset + slot.obj.memsz ≤ tp ∧ slot.modid ≤ modules)
    (control : tp ≤ dtv ∧ start ≤ tp ∧ dtv + (modules + 1) * 8 ≤ stop)
    (small : dtv + (modules + 1) * 8 < 2 ^ 63)
    (filled : initModules start tp dtv slots mem = some mem') :
    ChangesWithin start stop mem mem' := by
  induction slots generalizing mem with
  | nil =>
      cases filled
      exact ChangesWithin.refl
  | cons slot rest ih =>
      rw [initModules] at filled
      by_cases none : slot.modid = 0
      · rw [if_pos none] at filled
        have same : modulesOf (slot :: rest) = modulesOf rest := List.filter_cons_of_neg (by simp [none])
        rw [same] at inside
        exact ih inside filled
      · rw [if_neg none] at filled
        have taken : modulesOf (slot :: rest) = slot :: modulesOf rest :=
          List.filter_cons_of_pos (by simpa using Nat.pos_of_ne_zero none)
        rw [taken] at inside
        obtain ⟨below, lower, upper, number⟩ := inside slot List.mem_cons_self
        have filledPart := slot.obj.filled
        split at filled
        · contradiction
        · rename_i next isNext
          refine ChangesWithin.trans ?_ (ih (fun slot member => inside slot (List.mem_cons_of_mem _ member)) filled)
          unfold initModule at isNext
          dsimp only at isNext
          rw [show (2 ^ 64 + tp - slot.offset) % 2 ^ 64 = tp - slot.offset by omega] at isNext
          split at isNext
          · contradiction
          · split at isNext
            · contradiction
            · rename_i imaged isImaged
              have destNat : (BitVec.ofNat 64 (tp - slot.offset)).toNat = tp - slot.offset :=
                toNat_ofNat_small (by omega)
              have entryNat : (BitVec.ofNat 64 (dtv + slot.modid * 8)).toNat = dtv + slot.modid * 8 :=
                toNat_ofNat_small (by omega)
              have image := copyImage_changes (by omega) isImaged
              have entry := userWrite_changes isNext (by rw [leBytes_length]; decide)
              rw [leBytes_length] at entry
              exact (image.widen (by omega) (by omega)).trans (entry.widen (by omega) (by omega))

theorem tlsPlaced_of_modest (modest : ∀ o ∈ objs, o.hasTls = true → o.memsz ≤ maxSegment)
    (built : cosElfTlsInit mem region regionSize objs = some (mem', tls)) :
    TlsPlaced region.toNat regionSize.toNat mem mem' tls := by
  unfold cosElfTlsInit cosElfTlsLayout at built
  cases laid : tlsLayoutFrom objs 0 8 0 with
  | none =>
      rw [laid] at built
      contradiction
  | some result =>
      obtain ⟨slots, last, align⟩ := result
      rw [laid] at built
      dsimp only at built
      obtain ⟨layout, small, _, bounded, k, isPow⟩ := @tlsLayoutFrom_laidOut objs slots 0 8 0 last
        align 3 modest (Nat.zero_le _) rfl (by decide) laid
      have limit : maxSegment = 2 ^ 28 := rfl
      have isCount : (slots.countP fun slot => slot.modid > 0) = (modulesOf slots).length := List.countP_eq_length_filter
      have few := layout.count
      rw [isCount] at built
      have ⟨blockAbove, blockBelow, blockMultiple⟩ := @alignUpWord_of_pow last k (by omega)
      rw [← isPow] at blockAbove blockBelow blockMultiple
      generalize alignUpWord last align = block at built blockAbove blockBelow blockMultiple
      split at built
      · contradiction
      rename_i checked
      rw [not_or, Nat.not_lt, Bool.not_eq_true', Bool.not_eq_false] at checked
      obtain ⟨enough, range⟩ := checked
      rw [cosElfTlsRegionSize, Nat.mod_eq_of_lt (show block + tcbSize + ((modulesOf slots).length + 1) * 8 < 2 ^ 64 by
        rw [tcbSize]; omega)] at enough range built
      have ⟨needAbove, needBelow, _⟩ := @alignUpWord_of_pow
        (block + tcbSize + ((modulesOf slots).length + 1) * 8) 6 (by rw [tcbSize]; omega)
      rw [show 2 ^ 6 = 64 from rfl] at needAbove needBelow
      have tcb : tcbSize = 64 := rfl
      have top : userLimit.toNat = 2 ^ 47 := rfl
      have bounds := (userRangeOk_iff (by omega) (by omega)).mp range
      rw [Nat.mod_eq_of_lt (show region.toNat + block < 2 ^ 64 by omega)] at built
      have ⟨tpAbove, tpBelow, tpMultiple⟩ := @alignUpWord_of_pow (region.toNat + block) k (by omega)
      rw [← isPow] at tpAbove tpBelow tpMultiple
      generalize alignUpWord (region.toNat + block) align = tp at built tpAbove tpBelow tpMultiple
      rw [Nat.mod_eq_of_lt (show tp + tcbSize < 2 ^ 64 by omega),
        Nat.mod_eq_of_lt (show tp + tcbSize + ((modulesOf slots).length + 1) * 8 < 2 ^ 64 by omega)] at built
      simp only [Option.bind_eq_bind, Option.bind_eq_some_iff] at built
      obtain ⟨zeroed, isZeroed, built⟩ := built
      split at built
      · simp at built
      rename_i fits
      simp only [Option.bind_eq_some_iff, Option.pure_def, Option.some.injEq, Prod.mk.injEq] at built
      obtain ⟨filled, isFilled, self, isSelf, pointer, isPointer, final, isFinal, same, isTls⟩ := built
      have inRegion : tp + tcbSize + ((modulesOf slots).length + 1) * 8 ≤ region.toNat + regionSize.toNat :=
        Nat.le_trans (Nat.le_of_not_lt fits) (Nat.mod_le _ _)
      have placed (slot : TlsSlot) (member : slot ∈ modulesOf slots) : slot.offset ≤ tp ∧ region.toNat ≤ tp - slot.offset ∧
          tp - slot.offset + slot.obj.memsz ≤ tp ∧ slot.modid ≤ (modulesOf slots).length := by
        have room := layout.room slot member
        have number := layout.numbered slot member
        omega
      rw [← same, ← isTls]
      constructor
      case inside => exact fun slot member => ⟨(placed slot member).1, (placed slot member).2.1, (placed slot member).2.2.1⟩
      case apart =>
        refine layout.apart.imp_of_mem fun {first second} isFirst isSecond order => .inr ?_
        have two := placed second isSecond
        dsimp only
        omega
      case aligned =>
        intro slot member
        obtain ⟨ofOffset, ofAlign⟩ := layout.aligned slot member
        exact Nat.dvd_sub (Nat.dvd_trans ofAlign tpMultiple) ofOffset
      case control =>
        dsimp only
        omega
      case writes =>
        have zeroes := userWrite_changes isZeroed (by rw [List.length_replicate]; omega)
        rw [List.length_replicate] at zeroes
        have modules := initModules_changes slots placed ⟨by omega, by omega, inRegion⟩ (by omega) isFilled
        have one := userWrite_changes isSelf (by rw [leBytes_length]; decide)
        have two := userWrite_changes isPointer (by rw [leBytes_length]; decide)
        have three := userWrite_changes isFinal (by rw [leBytes_length]; decide)
        rw [leBytes_length, toNat_ofNat_small (by omega)] at one two three
        refine (zeroes.widen (Nat.le_refl _) (by omega)).trans (modules.trans ?_)
        exact (one.widen (by omega) (by omega)).trans ((two.widen (by omega) (by omega)).trans
          (three.widen (by omega) (by omega)))

theorem modest_of_tlsPlaced (built : cosElfTlsInit mem region regionSize objs = some (mem', tls))
    (placed : TlsPlaced region.toNat regionSize.toNat mem mem' tls) :
    ∀ o ∈ objs, o.hasTls = true → o.memsz ≤ maxSegment := by
  intro o member hasTls
  by_cases empty : o.memsz = 0
  · rw [empty]
    exact Nat.zero_le _
  unfold cosElfTlsInit cosElfTlsLayout at built
  cases laid : tlsLayoutFrom objs 0 8 0 with
  | none =>
      rw [laid] at built
      contradiction
  | some result =>
      rw [laid] at built
      dsimp only at built
      split at built
      · contradiction
      simp only [Option.bind_eq_bind, Option.bind_eq_some_iff] at built
      obtain ⟨zeroed, isZeroed, built⟩ := built
      split at built
      · simp at built
      simp only [Option.bind_eq_some_iff, Option.pure_def, Option.some.injEq, Prod.mk.injEq] at built
      obtain ⟨filled, isFilled, self, isSelf, pointer, isPointer, final, isFinal, same, isTls⟩ := built
      rw [← isTls] at placed
      obtain ⟨slot, isSlot, rfl, bounded⟩ := tlsLayoutFrom_slots laid member ⟨hasTls, empty⟩
      have inside := placed.inside slot isSlot
      omega

/-- Whenever the blocks are laid out and filled they are placed as they should be exactly
if no module asks for more than `COS_ELF_MAX_SEGMENT` bytes. -/
theorem tls_init_places_blocks (built :
    cosElfTlsInit mem region regionSize objs = some (mem', tls)) :
    TlsPlaced region.toNat regionSize.toNat mem mem' tls ↔
    ∀ o ∈ objs, o.hasTls = true → o.memsz ≤ maxSegment :=
  ⟨modest_of_tlsPlaced built, fun modest => tlsPlaced_of_modest modest built⟩

def smallModule : TlsObject := ⟨true, pieBase + 0x3000, 4, 100, 16, by decide, by decide⟩

def alignedModule : TlsObject := ⟨true, pieBase + 0x3004, 8, 40, 32, by decide, by decide⟩

theorem tls_init_places_blocks_small :
    ∃ mem' tls, cosElfTlsInit (fun _ => some 7) pieBase 0x2000 [smallModule, alignedModule] =
      some (mem', tls) ∧ (TlsPlaced pieBase.toNat (0x2000 : Addr).toNat (fun _ => some 7) mem' tls ↔
        ∀ o ∈ [smallModule, alignedModule], o.hasTls = true → o.memsz ≤ maxSegment) := by
  have built : (cosElfTlsInit (fun _ => some 7) pieBase 0x2000 [smallModule,
    alignedModule]).isSome = true := by
    set_option maxRecDepth 100000 in decide
  obtain ⟨⟨mem', tls⟩, result⟩ := Option.isSome_iff_exists.mp built
  exact ⟨mem', tls, result, tls_init_places_blocks result⟩

/-- A module of all but 32 bytes of the address space: its offset wraps to zero. -/
def hugeModule : TlsObject := ⟨true, pieBase + 0x3000, 0, 2 ^ 64 - 32, 64, by decide, by decide⟩

theorem tls_init_accepts_huge :
    ∃ mem' tls, cosElfTlsInit (fun _ => some 7) pieBase 0x2000 [hugeModule] = some (mem', tls) ∧
      ¬TlsPlaced pieBase.toNat (0x2000 : Addr).toNat (fun _ => some 7) mem' tls := by
  have built : (cosElfTlsInit (fun _ => some 7) pieBase 0x2000 [hugeModule]).isSome = true := by
    set_option maxRecDepth 100000 in decide
  obtain ⟨⟨mem', tls⟩, result⟩ := Option.isSome_iff_exists.mp built
  refine ⟨mem', tls, result, fun placed => ?_⟩
  have modest := modest_of_tlsPlaced result placed hugeModule List.mem_cons_self rfl
  exact absurd modest (by decide)

end Cos.Elf
