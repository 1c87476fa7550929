import Mathlib.Data.List.Forall2
import Cos.Elf.Relocate

/-! # User memory

What a store changes, and that a load after it gives back the bytes stored.
-/

namespace Cos.Elf

variable {mem mem' : UserMem} {target value : Addr} {bytes : List UInt8} {width len : Nat}

/-- Only bytes of `[lower, upper)` differ. -/
def ChangesWithin (lower upper : Nat) (mem mem' : UserMem) : Prop :=
  ∀ place : Addr, place.toNat < lower ∨ upper ≤ place.toNat → mem' place = mem place

theorem ChangesWithin.refl {lower upper : Nat} : ChangesWithin lower upper mem mem := fun _ _ => rfl

theorem ChangesWithin.trans {lower upper : Nat} {mem'' : UserMem}
    (first : ChangesWithin lower upper mem mem') (second : ChangesWithin lower upper mem' mem'') :
    ChangesWithin lower upper mem mem'' :=
  fun place outside => (second place outside).trans (first place outside)

theorem ChangesWithin.widen {lower upper lower' upper' : Nat}
    (changes : ChangesWithin lower upper mem mem') (below : lower' ≤ lower)
    (above : upper ≤ upper') : ChangesWithin lower' upper' mem mem' :=
  fun place outside => changes place (by omega)

theorem userRangeOk_iff {start : Addr} (positive : 0 < len) (small : len < 2 ^ 64) :
    userRangeOk start (BitVec.ofNat 64 len) = true ↔
      pieBase.toNat ≤ start.toNat ∧ start.toNat + len ≤ userLimit.toNat := by
  have lenNat : (BitVec.ofNat 64 len).toNat = len := by
    exact Nat.mod_eq_of_lt small
  have nonzero : (BitVec.ofNat 64 len == 0) = false := by
    rw [beq_eq_false_iff_ne, ne_eq, BitVec.toNat_eq, lenNat]
    exact Nat.pos_iff_ne_zero.mp positive
  have limit : userLimit.toNat = 0x800000000000 := rfl
  have bottom : pieBase.toNat = 0x8000000000 := rfl
  unfold userRangeOk
  rw [nonzero, Bool.false_or, Bool.and_eq_true, Bool.and_eq_true, decide_eq_true_eq,
    decide_eq_true_eq, decide_eq_true_eq, BitVec.le_def, BitVec.le_def, BitVec.le_def,
    BitVec.toNat_add, lenNat, limit, bottom]
  omega

theorem toNat_add_ofNat {i : Nat} (room : target.toNat + i < 2 ^ 64) :
    (target + BitVec.ofNat 64 i).toNat = target.toNat + i := by
  rw [BitVec.toNat_add, BitVec.toNat_ofNat, Nat.add_mod_mod, Nat.mod_eq_of_lt room]

theorem place_offset {place : Addr} (inside : target.toNat ≤ place.toNat) :
    (place - target).toNat = place.toNat - target.toNat := by
  rw [BitVec.toNat_sub]
  omega

theorem place_offset_wrapped {place : Addr} (below : place.toNat < target.toNat) :
    (place - target).toNat = 2 ^ 64 + place.toNat - target.toNat := by
  rw [BitVec.toNat_sub]
  omega

theorem store_changes {range : userRangeOk target (BitVec.ofNat 64 bytes.length) = true}
    (small : bytes.length < 2 ^ 64) {count : Nat} (short : count ≤ bytes.length) :
    ChangesWithin target.toNat (target.toNat + bytes.length) mem
      (fun place => ((bytes.take count)[(place - target).toNat]?).or (mem place)) := by
  intro place outside
  have length : (bytes.take count).length ≤ bytes.length := by
    rw [List.length_take]
    omega
  rcases Nat.eq_zero_or_pos bytes.length with none | positive
  · beta_reduce
    rw [List.getElem?_eq_none (by omega), Option.none_or]
  · have bounds := (userRangeOk_iff positive small).mp range
    have past : bytes.length ≤ (place - target).toNat := by
      rcases outside with below | above
      · rw [place_offset_wrapped below]
        omega
      · rw [place_offset (by omega)]
        omega
    beta_reduce
    rw [List.getElem?_eq_none (by omega), Option.none_or]

theorem userWrite_range (written : userWrite mem target bytes = some mem') :
    userRangeOk target (BitVec.ofNat 64 bytes.length) = true := by
  unfold userWrite at written
  split at written
  · rename_i allowed
    exact allowed.1
  · contradiction

theorem userWrite_eq (written : userWrite mem target bytes = some mem') :
    mem' = fun place => (bytes[(place - target).toNat]?).or (mem place) := by
  unfold userWrite at written
  split at written
  · exact (Option.some.inj written).symm
  · contradiction

theorem userWrite_changes (written : userWrite mem target bytes = some mem')
    (small : bytes.length < 2 ^ 64) :
    ChangesWithin target.toNat (target.toNat + bytes.length) mem mem' := by
  have changes := @store_changes mem target bytes (userWrite_range written) small bytes.length
    (Nat.le_refl _)
  rw [List.take_length] at changes
  rw [userWrite_eq written]
  exact changes

theorem userWrittenPart_changes (small : bytes.length < 2 ^ 64) :
    ChangesWithin target.toNat (target.toNat + bytes.length) mem
    (userWrittenPart mem target bytes) := by
  unfold userWrittenPart
  split
  · rename_i range
    have short : ((List.range bytes.length).takeWhile fun i =>
        (mem (target + BitVec.ofNat 64 i)).isSome).length ≤ bytes.length := by
      have := (List.takeWhile_sublist (fun i => (mem (target + BitVec.ofNat 64 i)).isSome)
        (l := List.range bytes.length)).length_le
      rwa [List.length_range] at this
    exact @store_changes mem target bytes range small _ short
  · exact ChangesWithin.refl

theorem takeWhile_range {p : Nat → Bool} {count i : Nat}
    (inside : i < ((List.range count).takeWhile p).length) : p i = true := by
  have spot : ((List.range count).takeWhile p)[i] = i := by
    rw [( List.takeWhile_prefix p).getElem inside, List.getElem_range]
  have member := List.all_eq_true.mp List.all_takeWhile _ (List.getElem_mem inside)
  rwa [spot] at member

theorem place_eq (place : Addr) : place = target + BitVec.ofNat 64 (place - target).toNat := by
  rw [BitVec.ofNat_toNat, BitVec.setWidth_eq, BitVec.add_comm, BitVec.sub_add_cancel]

theorem userWrite_mapped (written : userWrite mem target bytes = some mem') (place : Addr) :
    (mem' place).isSome = (mem place).isSome := by
  rw [userWrite_eq written]
  beta_reduce
  unfold userWrite at written
  split at written
  · rename_i allowed
    by_cases inside : (place - target).toNat < bytes.length
    · have here := allowed.2 _ inside
      rw [← place_eq] at here
      rw [List.getElem?_eq_getElem inside, Option.some_or, here, Option.isSome_some]
    · rw [List.getElem?_eq_none (Nat.le_of_not_lt inside), Option.none_or]
  · contradiction

theorem userWrittenPart_mapped (place : Addr) :
    (userWrittenPart mem target bytes place).isSome = (mem place).isSome := by
  unfold userWrittenPart
  split
  · dsimp only
    by_cases inside : (place - target).toNat < (bytes.take ((List.range bytes.length).takeWhile fun i =>
        (mem (target + BitVec.ofNat 64 i)).isSome).length).length
    · rw [List.length_take] at inside
      have here := takeWhile_range (Nat.lt_of_lt_of_le inside (Nat.min_le_left _ _))
      rw [← place_eq] at here
      rw [List.getElem?_eq_getElem (by rwa [List.length_take]), Option.some_or, here, Option.isSome_some]
    · rw [List.getElem?_eq_none (Nat.le_of_not_lt inside), Option.none_or]
  · rfl

theorem userWrittenPart_stops {i : Nat} (small : bytes.length < 2 ^ 64) (less : i < bytes.length)
    (hole : mem (target + BitVec.ofNat 64 i) = none) :
    ChangesWithin target.toNat (target.toNat + i) mem (userWrittenPart mem target bytes) := by
  intro place outside
  by_cases past : (target.toNat + bytes.length ≤ place.toNat) ∨ place.toNat < target.toNat
  · exact userWrittenPart_changes small place past.symm
  · have offset := @place_offset target place (by omega)
    unfold userWrittenPart
    split
    · have short : ((List.range bytes.length).takeWhile fun i =>
          (mem (target + BitVec.ofNat 64 i)).isSome).length ≤ i := by
        by_contra more
        have mapped := takeWhile_range (Nat.lt_of_not_le more)
        rw [hole] at mapped
        contradiction
      dsimp only
      rw [List.getElem?_eq_none (by rw [List.length_take]; omega), Option.none_or]
    · rfl

theorem offset_of_add {i : Nat} (small : i < 2 ^ 64) :
    (target + BitVec.ofNat 64 i - target).toNat = i := by
  rw [BitVec.add_comm, BitVec.add_sub_cancel, BitVec.toNat_ofNat]
  exact Nat.mod_eq_of_lt small

theorem mapM_eq_some_iff {α β : Type} {f : α → Option β} {xs : List α} {ys : List β} :
    xs.mapM f = some ys ↔ List.Forall₂ (fun x y => f x = some y) xs ys := by
  induction xs generalizing ys with
  | nil => rw [List.mapM_nil, List.forall₂_nil_left_iff, Option.pure_def, Option.some.injEq,
    eq_comm]
  | cons x xs ih =>
      rw [List.mapM_cons, List.forall₂_cons_left_iff]
      simp only [Option.bind_eq_bind, Option.bind_eq_some_iff, Option.pure_def, Option.some.injEq, ih]
      constructor
      · rintro ⟨y, first, rest, others, same⟩
        exact ⟨y, rest, first, others, same.symm⟩
      · rintro ⟨y, rest, first, others, same⟩
        exact ⟨y, first, rest, others, same.symm⟩

theorem userRead_iff : userRead mem target len = some bytes ↔
    userRangeOk target (BitVec.ofNat 64 len) = true ∧ bytes.length = len ∧
      ∀ i < len, mem (target + BitVec.ofNat 64 i) = bytes[i]? := by
  unfold userRead
  by_cases range : userRangeOk target (BitVec.ofNat 64 len) = true
  · rw [if_pos range, mapM_eq_some_iff, List.forall₂_iff_get]
    simp only [List.length_range, List.get_eq_getElem, List.getElem_range]
    constructor
    · rintro ⟨same, values⟩
      refine ⟨range, same.symm, fun i less => ?_⟩
      rw [values i less (same ▸ less), List.getElem?_eq_getElem]
    · rintro ⟨_, same, values⟩
      refine ⟨same.symm, fun i less bound => ?_⟩
      rw [values i less, List.getElem?_eq_getElem bound]
  · rw [if_neg range]
    exact ⟨fun wrong => (nomatch wrong), fun claim => absurd claim.1 range⟩

theorem userRead_userWrite (written : userWrite mem target bytes = some mem')
    (small : bytes.length < 2 ^ 64) : userRead mem' target bytes.length = some bytes := by
  refine userRead_iff.mpr ⟨userWrite_range written, rfl, fun i less => ?_⟩
  rw [userWrite_eq written]
  beta_reduce
  rw [offset_of_add (Nat.lt_trans less small), List.getElem?_eq_getElem less, Option.some_or]

theorem userRead_congr (same :
    ∀ i < len, mem' (target + BitVec.ofNat 64 i) =
    mem (target + BitVec.ofNat 64 i)) : userRead mem' target len = userRead mem target len := by
  ext bytes
  simp only [userRead_iff]
  constructor <;> rintro ⟨range, length, values⟩ <;> refine ⟨range, length, fun i less => ?_⟩
  · rw [← same i less, values i less]
  · rw [same i less, values i less]

theorem userWrite_of_read {bytes' : List UInt8} (read : userRead mem target len = some bytes)
    (same : bytes'.length = len) :
    userWrite mem target bytes' = some fun place =>
    (bytes'[(place - target).toNat]?).or (mem place) := by
  obtain ⟨range, length, values⟩ := userRead_iff.mp read
  rw [← same] at range
  refine if_pos ⟨range, fun i less => ?_⟩
  rw [values i (same ▸ less), List.getElem?_eq_getElem (by omega), Option.isSome_some]

theorem leBytes_length : (leBytes value width).length = width := by
  rw [leBytes, List.length_map, List.length_range]

theorem ofLeBytes_getLsbD {place : Nat} (small : place < 64) :
    (ofLeBytes bytes).getLsbD place =
      ((bytes[place / 8]?).map fun byte => byte.toBitVec.getLsbD (place % 8)).getD false := by
  induction bytes generalizing place with
  | nil =>
      exact BitVec.getLsbD_zero
  | cons byte rest ih =>
      have step : ofLeBytes (byte :: rest) = (ofLeBytes rest <<< 8) ||| byte.toBitVec.setWidth 64 := rfl
      rw [step, BitVec.getLsbD_or, BitVec.getLsbD_shiftLeft, BitVec.getLsbD_setWidth,
        decide_eq_true small, Bool.true_and]
      by_cases first : place < 8
      · rw [Nat.div_eq_of_lt first, Nat.mod_eq_of_lt first]
        simp [first]
      · have later : place / 8 = (place - 8) / 8 + 1 := by omega
        have high : byte.toBitVec.getLsbD place = false := BitVec.getLsbD_of_ge _ _ (by omega)
        have inner : place % 8 = (place - 8) % 8 := by omega
        rw [later, inner, List.getElem?_cons_succ, ← ih (by omega), high]
        simp [first]

theorem ofLeBytes_leBytes :
    ofLeBytes (leBytes value width) = (value.setWidth (8 * width)).setWidth 64 := by
  apply BitVec.eq_of_getLsbD_eq
  intro place small
  rw [ofLeBytes_getLsbD small, BitVec.getLsbD_setWidth, BitVec.getLsbD_setWidth,
    decide_eq_true small, Bool.true_and]
  by_cases inside : place / 8 < width
  · have spot : 8 * (place / 8) + place % 8 = place := Nat.div_add_mod place 8
    have bit : place < 8 * width := by omega
    rw [leBytes, List.getElem?_map, List.getElem?_range inside, Option.map_some, Option.map_some,
      Option.getD_some, decide_eq_true bit, Bool.true_and]
    simp [BitVec.getLsbD_setWidth, BitVec.getLsbD_ushiftRight, spot]
    omega
  · have bit : ¬place < 8 * width := by omega
    rw [List.getElem?_eq_none (by rw [leBytes_length]; omega), Option.map_none, Option.getD_none,
      decide_eq_false bit, Bool.false_and]

end Cos.Elf
