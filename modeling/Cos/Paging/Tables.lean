import Mathlib.Tactic.Ring
import Mathlib.Tactic.NormNum

/-! # Page-table words

`src/kernel/mm/paging.c` walks the four x86-64 levels PML4, PDPT, PD and PT.
A table is one 4 KiB page of 512 entries, named by its (identity mapped)
address; an entry carries the address of the next table, or of a frame, in
bits 12..51 and its flags in the other bits.
-/

namespace Cos.Paging

/-- `uint64_t`. -/
abbrev U64 := BitVec 64

def fPresent : U64 := 0x001#64
def fRw : U64 := 0x002#64
def fUser : U64 := 0x004#64
/-- The page-size bit: the entry is a 2 MiB (or 1 GiB) leaf, not a table. -/
def fPs : U64 := 0x080#64
def pageNx : U64 := 0x8000000000000000#64
def fAddrMask : U64 := 0x000FFFFFFFFFF000#64
def fHugeAddrMask : U64 := 0x000FFFFFFFE00000#64
def pageOffsetMask : U64 := 0xFFF#64

/-- `pt_level_t`: one table level. -/
abbrev Level := Fin 512 → U64

/-- The contents of every page, read as a table level, by page address. -/
abbrev TableMem := U64 → Level

def idx4 (v : U64) : Fin 512 := Fin.ofNat 512 (v >>> 39).toNat
def idx3 (v : U64) : Fin 512 := Fin.ofNat 512 (v >>> 30).toNat
def idx2 (v : U64) : Fin 512 := Fin.ofNat 512 (v >>> 21).toNat
def idx1 (v : U64) : Fin 512 := Fin.ofNat 512 (v >>> 12).toNat

@[simp] theorem idx4_val (v : U64) : (idx4 v).val = v.toNat / 2 ^ 39 % 512 := by
  simp [idx4, BitVec.toNat_ushiftRight, Nat.shiftRight_eq_div_pow]

@[simp] theorem idx3_val (v : U64) : (idx3 v).val = v.toNat / 2 ^ 30 % 512 := by
  simp [idx3, BitVec.toNat_ushiftRight, Nat.shiftRight_eq_div_pow]

@[simp] theorem idx2_val (v : U64) : (idx2 v).val = v.toNat / 2 ^ 21 % 512 := by
  simp [idx2, BitVec.toNat_ushiftRight, Nat.shiftRight_eq_div_pow]

@[simp] theorem idx1_val (v : U64) : (idx1 v).val = v.toNat / 2 ^ 12 % 512 := by
  simp [idx1, BitVec.toNat_ushiftRight, Nat.shiftRight_eq_div_pow]

/-- `phys_to_table_ptr`: the table an entry points at, `none` for the null pointer. -/
def physToTablePtr (phys : U64) : Option U64 :=
  if phys &&& fAddrMask = 0#64 then none else some (phys &&& fAddrMask)

/-- `virt & ~(uint64_t)(PAGE_SIZE - 1)`. -/
def pageDown (v : U64) : U64 := v &&& ~~~pageOffsetMask

theorem toNat_and_not_mask (v : U64) (bits : Nat) (small : bits ≤ 64) :
    (v &&& ~~~(BitVec.ofNat 64 (2 ^ bits - 1))).toNat = v.toNat / 2 ^ bits * 2 ^ bits := by
  apply Nat.eq_of_testBit_eq
  intro index
  rw [Nat.mul_comm, Nat.testBit_two_pow_mul, Nat.testBit_div_two_pow, BitVec.testBit_toNat,
    BitVec.getLsbD_and, BitVec.getLsbD_not, BitVec.getLsbD_ofNat, Nat.testBit_two_pow_sub_one]
  by_cases low : index < bits
  · simp [low, show index < 64 by omega]
  · by_cases inside : index < 64
    · simp [inside, low, show bits ≤ index by omega, BitVec.testBit_toNat]
    · have outside : v.getLsbD index = false := BitVec.getLsbD_of_ge v index (by omega)
      simp [inside, show bits ≤ index by omega, outside, BitVec.testBit_toNat]

@[simp] theorem toNat_pageDown (v : U64) : (pageDown v).toNat = v.toNat / 4096 * 4096 :=
  toNat_and_not_mask v 12 (by omega)

theorem and_eq_mask_iff (entry mask : U64) :
    entry &&& mask = mask ↔ ∀ bit < 64, mask.getLsbD bit = true → entry.getLsbD bit = true := by
  constructor
  · intro same bit _ set
    rw [← same, BitVec.getLsbD_and, Bool.and_eq_true] at set
    exact set.1
  · intro covered
    apply BitVec.eq_of_getLsbD_eq
    intro bit bound
    rw [BitVec.getLsbD_and]
    cases set : mask.getLsbD bit with
    | false => simp
    | true => simp [covered bit bound set]

theorem and_twoPow_eq_zero_iff (entry : U64) (bit : Nat) (bound : bit < 64) :
    entry &&& BitVec.twoPow 64 bit = 0#64 ↔ entry.getLsbD bit = false := by
  rw [BitVec.and_twoPow]
  cases set : entry.getLsbD bit with
  | false => simp
  | true =>
      have nonzero : BitVec.twoPow 64 bit ≠ 0#64 := by
        intro zero
        have selected := congrArg (fun word => BitVec.getLsbD word bit) zero
        simp [bound] at selected
      simp [nonzero]

end Cos.Paging
