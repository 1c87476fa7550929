import Cos.Lib.Memory
import Mathlib.Data.List.GetD

/-! # Memory primitives

`cos_memset`, `cos_memcpy`, `cos_memcmp` and `memmove` with their wide loads and stores.  The ranges
are parts of objects, so no address wraps.
-/

namespace Cos.Libc

open Cos.Lib

/-- A load of `count` bytes at once. -/
def load (m : Memory) (a count : Nat) : List UInt8 := (List.range count).map fun i => m (a + i)

def store (m : Memory) (a : Nat) (bytes : List UInt8) : Memory := fun x =>
  if a ≤ x then bytes.getD (x - a) (m x) else m x

/-- The loop of `cos_memset` in steps of 32 bytes; `fuel` is at least the number of its rounds. -/
def memsetLoop (d n : Nat) (v : List UInt8) : Nat → Nat → Memory → Memory × Nat
  | 0, i, m => (m, i)
  | fuel + 1, i, m =>
      if i + 32 ≤ n then memsetLoop d n v fuel (i + 32) (store (store m (d + i) v) (d + i + 16) v) else (m, i)

/-- A loop over single bytes: `d[i] = value i` while `i < n`. -/
def byteLoop (d n : Nat) (value : Memory → Nat → UInt8) : Nat → Nat → Memory → Memory
  | 0, _, m => m
  | fuel + 1, i, m => if i < n then byteLoop d n value fuel (i + 1) (store m (d + i) [value m i]) else m

def cosMemset (m : Memory) (d : Nat) (c : Int) (n : Nat) : Memory :=
  let b := UInt8.ofInt c
  if n ≥ 16 then
    let v := List.replicate 16 b
    let (m, i) := memsetLoop d n v n 0 m
    let (m, i) := if i + 16 ≤ n then (store m (d + i) v, i + 16) else (m, i)
    if i < n then store m (d + n - 16) v else m
  else byteLoop d n (fun _ _ => b) n 0 m

/-- The loop of `cos_memcpy`: both loads come before the stores. -/
def memcpyLoop (d s n : Nat) : Nat → Nat → Memory → Memory × Nat
  | 0, i, m => (m, i)
  | fuel + 1, i, m =>
      if i + 32 ≤ n then
        let a := load m (s + i) 16
        let b := load m (s + i + 16) 16
        memcpyLoop d s n fuel (i + 32) (store (store m (d + i) a) (d + i + 16) b)
      else (m, i)

/-- Two moves of `count` bytes, at the start and at the end. -/
def moveEnds (m : Memory) (d s n count : Nat) : Memory :=
  let a := load m s count
  let b := load m (s + n - count) count
  store (store m d a) (d + n - count) b

def cosMemcpy (m : Memory) (d s n : Nat) : Memory :=
  if n ≥ 16 then
    let (m, i) := memcpyLoop d s n n 0 m
    let (m, i) := if i + 16 ≤ n then (store m (d + i) (load m (s + i) 16), i + 16) else (m, i)
    if i < n then store m (d + n - 16) (load m (s + n - 16) 16) else m
  else if n ≥ 8 then moveEnds m d s n 8
  else if n ≥ 4 then moveEnds m d s n 4
  else if n ≥ 2 then moveEnds m d s n 2
  else if n ≠ 0 then store m d (load m s 1)
  else m

/-- The first loop of `cos_memcmp`: where the first differing eight bytes begin. -/
def wordCompare (m : Memory) (x y n : Nat) : Nat → Nat → Nat
  | 0, i => i
  | fuel + 1, i =>
      if i + 8 ≤ n then
        if load m (x + i) 8 ≠ load m (y + i) 8 then i else wordCompare m x y n fuel (i + 8)
      else i

def byteCompare (m : Memory) (x y n : Nat) : Nat → Nat → Int
  | 0, _ => 0
  | fuel + 1, i =>
      if i < n then
        if m (x + i) ≠ m (y + i) then (m (x + i)).toNat - (m (y + i)).toNat else byteCompare m x y n fuel (i + 1)
      else 0

def cosMemcmp (m : Memory) (x y n : Nat) : Int :=
  byteCompare m x y n n (wordCompare m x y n n 0)

/-- The loop of `memmove` for a destination below the source. -/
def forwardLoop (d s n : Nat) : Nat → Nat → Memory → Memory × Nat
  | 0, i, m => (m, i)
  | fuel + 1, i, m =>
      if i + 16 ≤ n then forwardLoop d s n fuel (i + 16) (store m (d + i) (load m (s + i) 16)) else (m, i)

/-- The loop of `memmove` for a destination above the source. -/
def backwardLoop (d s : Nat) : Nat → Nat → Memory → Memory × Nat
  | 0, i, m => (m, i)
  | fuel + 1, i, m =>
      if i ≥ 16 then backwardLoop d s fuel (i - 16) (store m (d + i - 16) (load m (s + i - 16) 16)) else (m, i)

def backwardBytes (d s : Nat) : Nat → Memory → Memory
  | 0, m => m
  | i + 1, m => backwardBytes d s i (store m (d + i) [m (s + i)])

def memmove (m : Memory) (d s n : Nat) : Memory :=
  if d = s ∨ n = 0 then m
  else if d + n ≤ s ∨ s + n ≤ d then cosMemcpy m d s n
  else if d < s then
    let (m, i) := forwardLoop d s n n 0 m
    byteLoop d n (fun m i => m (s + i)) n i m
  else
    let (m, i) := backwardLoop d s n n m
    backwardBytes d s i m

variable {m : Memory} {a b c d s i k n o x y fuel : Nat} {bytes : List UInt8} {value : UInt8}

theorem load_getD (z : UInt8) : (load m a k).getD i z = if i < k then m (a + i) else z := by
  unfold load
  by_cases inside : i < k
  · rw [if_pos inside, List.getD_eq_getElem _ _ (by simpa using inside)]
    simp
  · rw [if_neg inside, List.getD_eq_default _ _ (by simpa using inside)]

theorem store_load : store m a (load m b k) = copyBytes m a b k := by
  funext x
  simp only [store, load_getD, copyBytes]
  split_ifs <;> first | rfl | omega

/-- The part `[a, b)` of the destination has been copied. -/
def copied (m : Memory) (d s a b : Nat) : Memory := fun x =>
  if d + a ≤ x ∧ x < d + b then m (s + (x - d)) else m x

theorem copied_none : copied m d s a a = m := by
  funext x
  exact if_neg (by omega)

theorem copied_all : copied m d s 0 n = copyBytes m d s n := rfl

/-- A wide move of the bytes `[o, o + k)` that meets or overlaps the part copied, from bytes
that have not been overwritten. -/
theorem store_copied (touches : o ≤ b) (reaches : a ≤ o + k)
    (kept : ∀ j, o ≤ j → j < o + k → ¬(d + a ≤ s + j ∧ s + j < d + b)) :
    store (copied m d s a b) (d + o) (load (copied m d s a b) (s + o) k) =
      copied m d s (min a o) (max b (o + k)) := by
  funext x
  simp only [store, load_getD]
  by_cases inside : d + o ≤ x ∧ x < d + o + k
  · have source := kept (x - d) (by omega) (by omega)
    have place : s + o + (x - (d + o)) = s + (x - d) := by omega
    rw [if_pos inside.1, if_pos (by omega), place]
    unfold copied
    rw [if_neg source, if_pos (by omega)]
  · have here : (if d + o ≤ x then if x - (d + o) < k then copied m d s a b (s + o + (x - (d + o)))
        else copied m d s a b x else copied m d s a b x) = copied m d s a b x := by
      split_ifs <;> first | rfl | omega
    rw [here]
    unfold copied
    split_ifs <;> first | rfl | omega

theorem load_store (apart : b + k ≤ a ∨ a + bytes.length ≤ b) :
    load (store m a bytes) b k = load m b k := by
  unfold load store
  apply List.map_congr_left
  intro i member
  have less := List.mem_range.mp member
  split
  · rw [List.getD_eq_default _ _ (by omega)]
  · rfl

@[simp] theorem load_length : (load m a k).length = k := by simp [load]

/-- `n` bytes are set from `d` on. -/
def filled (m : Memory) (d n : Nat) (value : UInt8) : Memory :=
  fun x => if d ≤ x ∧ x < d + n then value else m x

theorem store_filled (touches : o ≤ b) :
    store (filled m d b value) (d + o) (List.replicate k value) =
    filled m d (max b (o + k)) value := by
  funext x
  simp only [store, filled]
  by_cases inside : x - (d + o) < k
  · rw [List.getD_eq_getElem _ _ (by simpa using inside), List.getElem_replicate]
    split_ifs <;> first | rfl | omega
  · rw [List.getD_eq_default _ _ (by simpa using inside)]
    split_ifs <;> first | rfl | omega

theorem filled_none : filled m d 0 value = m := by
  funext x
  exact if_neg (by omega)

theorem memsetLoop_spec (within : i ≤ n) (enough : n ≤ i + fuel) :
    ∃ j, memsetLoop d n (List.replicate 16 value) fuel i (filled m d i value) =
      (filled m d j value, j) ∧ j ≤ n ∧ n < j + 32 := by
  induction fuel generalizing i with
  | zero => exact ⟨i, rfl, within, by omega⟩
  | succ fuel ih =>
      rw [memsetLoop]
      split
      · rename_i room
        rw [store_filled (Nat.le_refl i), Nat.max_eq_right (by omega), Nat.add_assoc,
          store_filled (Nat.le_refl (i + 16)), Nat.max_eq_right (by omega)]
        exact ih (by omega) (by omega)
      · exact ⟨i, rfl, within, by omega⟩

theorem byteLoop_filled (enough : n ≤ i + fuel) :
    byteLoop d n (fun _ _ => value) fuel i (filled m d i value) = filled m d (max i n) value := by
  induction fuel generalizing i with
  | zero => rw [byteLoop, Nat.max_eq_left (by omega)]
  | succ fuel ih =>
      rw [byteLoop]
      split
      · have step := @store_filled m i d 1 i value (Nat.le_refl i)
        rw [Nat.max_eq_right (by omega)] at step
        rw [show [value] = List.replicate 1 value from rfl, step, ih (by omega)]
        congr 1
        omega
      · rw [Nat.max_eq_left (by omega)]

theorem cosMemset_eq (m : Memory) (d : Nat) (c : Int) (n : Nat) :
    cosMemset m d c n = filled m d n (UInt8.ofInt c) := by
  unfold cosMemset
  by_cases wide : n ≥ 16
  · obtain ⟨j, ran, within, left⟩ := @memsetLoop_spec m d 0 n n (UInt8.ofInt c) (Nat.zero_le n) (by omega)
    rw [filled_none] at ran
    simp only [if_pos wide, ran]
    have tail : ∀ j, j ≤ n → n - 16 ≤ j → store (filled m d j (UInt8.ofInt c)) (d + n - 16)
        (List.replicate 16 (UInt8.ofInt c)) = filled m d n (UInt8.ofInt c) := by
      intro j within near
      rw [Nat.add_sub_assoc wide, store_filled near]
      congr 1
      omega
    by_cases room : j + 16 ≤ n
    · simp only [if_pos room]
      rw [store_filled (Nat.le_refl j), Nat.max_eq_right (by omega)]
      split
      · exact tail _ room (by omega)
      · congr 1
        omega
    · simp only [if_neg room]
      split
      · exact tail _ within (by omega)
      · congr 1
        omega
  · have bytes := @byteLoop_filled m d 0 n n (UInt8.ofInt c) (by omega)
    rw [filled_none, Nat.max_eq_right (Nat.zero_le n)] at bytes
    simp only [if_neg wide, bytes]

/-- The source keeps clear of what is written. -/
def Clear (d s n : Nat) : Prop := d + n ≤ s ∨ s + n ≤ d

theorem store_copied_next (kept : ∀ j, i ≤ j → j < i + k → ¬(d ≤ s + j ∧ s + j < d + i)) :
    store (copied m d s 0 i) (d + i) (load (copied m d s 0 i) (s + i) k) =
    copied m d s 0 (i + k) := by
  rw [store_copied (Nat.le_refl i) (Nat.zero_le _) (by simpa using kept), Nat.zero_min,
    Nat.max_eq_right (Nat.le_add_right i k)]

theorem memcpyLoop_spec (clear : Clear d s n) (within : i ≤ n) (enough : n ≤ i + fuel) :
    ∃ j, memcpyLoop d s n fuel i (copied m d s 0 i) = (copied m d s 0 j, j) ∧ j ≤ n ∧
    n < j + 32 := by
  unfold Clear at clear
  induction fuel generalizing i with
  | zero => exact ⟨i, rfl, within, by omega⟩
  | succ fuel ih =>
      rw [memcpyLoop]
      split
      · rename_i room
        have second : load (copied m d s 0 i) (s + i + 16) 16 =
            load (store (copied m d s 0 i) (d + i) (load (copied m d s 0 i) (s + i) 16)) (s + (i + 16)) 16 := by
          rw [load_store (by rw [load_length]; omega), Nat.add_assoc]
        dsimp only
        rw [second, store_copied_next (by omega), Nat.add_assoc d, store_copied_next (by omega)]
        exact ih (by omega) (by omega)
      · exact ⟨i, rfl, within, by omega⟩

/-- The overlapping move at the end of a copy that is nearly done. -/
theorem store_copied_tail (clear : Clear d s n) (wide : k ≤ n) (within : i ≤ n) (near : n - k ≤ i) :
    store (copied m d s 0 i) (d + n - k) (load (copied m d s 0 i) (s + n - k) k) =
    copied m d s 0 n := by
  unfold Clear at clear
  rw [Nat.add_sub_assoc wide, Nat.add_sub_assoc wide, store_copied near (Nat.zero_le _) (by omega),
    Nat.zero_min]
  congr 1
  omega

theorem moveEnds_spec (clear : Clear d s n) (wide : k ≤ n) (short : n ≤ 2 * k) :
    moveEnds m d s n k = copied m d s 0 n := by
  have second : load m (s + n - k) k = load (store m d (load m s k)) (s + n - k) k := by
    unfold Clear at clear
    rw [load_store (by rw [load_length]; omega)]
  have first : store m d (load m s k) = copied m d s 0 k := by
    rw [store_load, copied_all]
  rw [moveEnds, second, first]
  exact store_copied_tail clear wide wide (by omega)

theorem cosMemcpy_eq (clear : Clear d s n) : cosMemcpy m d s n = copyBytes m d s n := by
  rw [← copied_all]
  unfold cosMemcpy
  by_cases wide : n ≥ 16
  · obtain ⟨j, ran, within, left⟩ := @memcpyLoop_spec m d s 0 n n clear (Nat.zero_le n) (by omega)
    rw [copied_none] at ran
    simp only [if_pos wide, ran]
    by_cases room : j + 16 ≤ n
    · have next := @store_copied_next m d s j 16 (by unfold Clear at clear; omega)
      simp only [if_pos room, next]
      split
      · exact store_copied_tail clear wide room (by omega)
      · congr 1
        omega
    · simp only [if_neg room]
      split
      · exact store_copied_tail clear wide within (by omega)
      · congr 1
        omega
  rw [if_neg wide]
  split
  · exact moveEnds_spec clear (by assumption) (by omega)
  split
  · exact moveEnds_spec clear (by assumption) (by omega)
  split
  · exact moveEnds_spec clear (by assumption) (by omega)
  split
  · have one : n = 1 := by omega
    rw [one, store_load, copied_all]
  · have none : n = 0 := by omega
    rw [none, copied_none]

theorem forwardLoop_spec (below : d < s) (within : i ≤ n) (enough : n ≤ i + fuel) :
    ∃ j, forwardLoop d s n fuel i (copied m d s 0 i) = (copied m d s 0 j, j) ∧ j ≤ n := by
  induction fuel generalizing i with
  | zero => exact ⟨i, rfl, within⟩
  | succ fuel ih =>
      rw [forwardLoop]
      split
      · rw [store_copied_next (by omega)]
        exact ih (by omega) (by omega)
      · exact ⟨i, rfl, within⟩

theorem load_one : load m a 1 = [m a] := rfl

theorem byteLoop_copied (below : d < s) (within : i ≤ n) (enough : n ≤ i + fuel) :
    byteLoop d n (fun m i => m (s + i)) fuel i (copied m d s 0 i) = copied m d s 0 n := by
  induction fuel generalizing i with
  | zero => rw [byteLoop, show i = n by omega]
  | succ fuel ih =>
      rw [byteLoop]
      split
      · rw [← load_one, store_copied_next (by omega)]
        exact ih (by omega) (by omega)
      · rw [show i = n by omega]

theorem store_copied_before (above : s < d) (room : k ≤ i) (within : i ≤ n) :
    store (copied m d s i n) (d + (i - k)) (load (copied m d s i n) (s + (i - k)) k) =
    copied m d s (i - k) n := by
  rw [store_copied (by omega) (by omega) (by omega), Nat.min_eq_right (by omega),
    Nat.max_eq_left (by omega)]

theorem backwardLoop_spec (above : s < d) (within : i ≤ n) :
    ∃ j, backwardLoop d s fuel i (copied m d s i n) = (copied m d s j n, j) ∧ j ≤ n := by
  induction fuel generalizing i with
  | zero => exact ⟨i, rfl, within⟩
  | succ fuel ih =>
      rw [backwardLoop]
      split
      · rename_i room
        rw [Nat.add_sub_assoc room, Nat.add_sub_assoc room, store_copied_before above room within]
        exact ih (by omega)
      · exact ⟨i, rfl, within⟩

theorem backwardBytes_spec (above : s < d) (within : i ≤ n) :
    backwardBytes d s i (copied m d s i n) = copied m d s 0 n := by
  induction i with
  | zero => rfl
  | succ i ih =>
      have step := @store_copied_before m d s (i + 1) 1 n above (by omega) within
      rw [Nat.add_sub_cancel] at step
      rw [backwardBytes, ← load_one, step]
      exact ih (by omega)

theorem memmove_eq (m : Memory) (d s n : Nat) : memmove m d s n = copyBytes m d s n := by
  unfold memmove
  split
  · rename_i trivial
    funext x
    unfold copyBytes
    split
    · rcases trivial with rfl | rfl
      · congr 1
        omega
      · omega
    · rfl
  split
  · exact cosMemcpy_eq (by assumption)
  split
  · rename_i below
    obtain ⟨j, ran, within⟩ := @forwardLoop_spec m d s 0 n n below (Nat.zero_le n) (by omega)
    rw [copied_none] at ran
    simp only [ran]
    rw [byteLoop_copied below within (by omega), copied_all]
  · rename_i distinct _ notBelow
    have above : s < d := by omega
    obtain ⟨j, ran, within⟩ := @backwardLoop_spec m d s n n n above (Nat.le_refl n)
    rw [copied_none] at ran
    simp only [ran]
    rw [backwardBytes_spec above within, copied_all]

theorem load_eq_iff : load m a k = load m b k ↔ ∀ i < k, m (a + i) = m (b + i) := by
  constructor
  · intro same i less
    have here := congrArg (·.getD i 0) same
    simpa only [load_getD, if_pos less] using here
  · intro same
    apply List.map_congr_left
    intro i member
    exact same i (List.mem_range.mp member)

/-- The first `n` bytes agree and the result is 0, or the result has the sign of the first
differing pair. -/
def ComparesAs (m : Memory) (x y n : Nat) (result : Int) : Prop :=
  (result = 0 ∧ ∀ i < n, m (x + i) = m (y + i)) ∨
    ∃ i < n, (∀ j < i, m (x + j) = m (y + j)) ∧ m (x + i) ≠ m (y + i) ∧
      (0 < result ↔ m (y + i) < m (x + i)) ∧ (result < 0 ↔ m (x + i) < m (y + i))

theorem wordCompare_spec (within : i ≤ n) (same : ∀ j < i, m (x + j) = m (y + j)) :
    wordCompare m x y n fuel i ≤ n ∧ ∀ j < wordCompare m x y n fuel i, m (x + j) = m (y + j) := by
  induction fuel generalizing i with
  | zero => exact ⟨within, same⟩
  | succ fuel ih =>
      rw [wordCompare]
      split
      · rename_i room
        split
        · exact ⟨within, same⟩
        · rename_i equal
          refine ih room fun j less => ?_
          rcases Nat.lt_or_ge j i with before | after
          · exact same j before
          · have here := load_eq_iff.mp (not_not.mp equal) (j - i) (by omega)
            rwa [Nat.add_assoc, Nat.add_assoc, Nat.add_sub_cancel' after] at here
      · exact ⟨within, same⟩

theorem byteCompare_spec (within : i ≤ n) (enough : n ≤ i + fuel)
    (same : ∀ j < i, m (x + j) = m (y + j)) : ComparesAs m x y n (byteCompare m x y n fuel i) := by
  induction fuel generalizing i with
  | zero => exact Or.inl ⟨rfl, fun j less => same j (by omega)⟩
  | succ fuel ih =>
      rw [byteCompare]
      split
      · rename_i less
        split
        · rename_i differ
          refine Or.inr ⟨i, less, same, differ, ?_, ?_⟩ <;> rw [UInt8.lt_iff_toNat_lt] <;> omega
        · rename_i equal
          refine ih (by omega) (by omega) fun j before => ?_
          rcases Nat.lt_succ_iff_lt_or_eq.mp before with less | rfl
          · exact same j less
          · exact not_not.mp equal
      · exact Or.inl ⟨rfl, fun j less => same j (by omega)⟩

/-- The wide primitives do what byte-wise ones would: `copyBytes` reads the memory before
the call, and neither it nor `filled` changes a byte outside the range. -/
theorem wide_memory_bytewise (m : Memory) (d s n : Nat) (c : Int) :
    memmove m d s n = copyBytes m d s n ∧
      (Clear d s n → cosMemcpy m d s n = copyBytes m d s n) ∧
      cosMemset m d c n = filled m d n (UInt8.ofInt c) ∧
      ComparesAs m d s n (cosMemcmp m d s n) := by
  have words := @wordCompare_spec m 0 n d s n (Nat.zero_le n)
    (fun _ less => absurd less (Nat.not_lt_zero _))
  exact ⟨memmove_eq m d s n, cosMemcpy_eq, cosMemset_eq m d c n,
    byteCompare_spec words.1 (Nat.le_add_left _ _) words.2⟩

/-- A copy of 20 bytes onto a place three bytes further, and a plain one. -/
theorem wide_memory_bytewise_overlap :
    memmove (fun x => UInt8.ofNat x) 103 100 20 = copyBytes (fun x => UInt8.ofNat x) 103 100 20 ∧
      cosMemcpy (fun x => UInt8.ofNat x) 120 100 20 = copyBytes (fun x => UInt8.ofNat x) 120 100 20 :=
  ⟨(wide_memory_bytewise _ 103 100 20 0).1,
    (wide_memory_bytewise _ 120 100 20 0).2.1 (Or.inr (by decide))⟩

end Cos.Libc
