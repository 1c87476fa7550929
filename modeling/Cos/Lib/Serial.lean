import Mathlib.Tactic.Common
import Mathlib.Algebra.Group.Nat.Defs
import Mathlib.Algebra.Group.Int.Defs

/-! # Sequence numbers

Numbers modulo `2 ^ 32`, compared by the sign of their difference.  Numbers that are less than `2 ^
31` apart compare like the positions that they stand for.
-/

namespace Cos.Lib

abbrev Seq := BitVec 32

/-- `(int32_t)(a - b)`. -/
def Seq.diff (a b : Seq) : Int := (a - b).toInt

variable {base : Seq} {a b n : Nat}

theorem Seq.add_ofNat (base : Seq) (a b : Nat) :
    base + BitVec.ofNat 32 a + BitVec.ofNat 32 b = base + BitVec.ofNat 32 (a + b) := by
  rw [BitVec.add_assoc, BitVec.ofNat_add]

theorem Seq.sub_ofNat (base : Seq) (a b : Nat) :
    base + BitVec.ofNat 32 a - (base + BitVec.ofNat 32 b) =
    BitVec.ofNat 32 a - BitVec.ofNat 32 b := by
  bv_omega

theorem Seq.sub_toNat (ordered : b ≤ a) (near : a - b < 2 ^ 32) :
    (base + BitVec.ofNat 32 a - (base + BitVec.ofNat 32 b)).toNat = a - b := by
  rw [Seq.sub_ofNat, BitVec.toNat_sub, BitVec.toNat_ofNat, BitVec.toNat_ofNat]
  omega

theorem Seq.diff_near (above : (a : Int) - b < 2 ^ 31) (below : -(2 ^ 31) ≤ (a : Int) - b) :
    Seq.diff (base + BitVec.ofNat 32 a) (base + BitVec.ofNat 32 b) = a - b := by
  rw [Seq.diff, Seq.sub_ofNat, BitVec.toInt_eq_toNat_cond, BitVec.toNat_sub, BitVec.toNat_ofNat,
    BitVec.toNat_ofNat]
  split <;> omega

theorem Seq.diff_base (near : n < 2 ^ 31) : Seq.diff (base + BitVec.ofNat 32 n) base = n := by
  have away := @Seq.diff_near base n 0 (by omega) (by omega)
  simpa using away

end Cos.Lib
