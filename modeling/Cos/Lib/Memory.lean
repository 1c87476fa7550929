import Cos.Lib.Span
import Mathlib.Algebra.Group.Nat.Defs

/-! # A memory of bytes

Words lie in it lowest byte first.  Two memories agree on a range when no byte of
the range differs.
-/

namespace Cos.Lib

abbrev Memory := Nat → UInt8

def loadWord (m : Memory) : Nat → Nat → Nat
  | _, 0 => 0
  | a, width + 1 => (m a).toNat + 256 * loadWord m (a + 1) width

def storeWord (m : Memory) (a width value : Nat) : Memory := fun x =>
  if a ≤ x ∧ x < a + width then UInt8.ofNat (value / 256 ^ (x - a)) else m x

/-- `memset` with zero. -/
def zeroBytes (m : Memory) (a count : Nat) : Memory :=
  fun x => if a ≤ x ∧ x < a + count then 0 else m x

/-- `memcpy` between two ranges that keep clear of each other. -/
def copyBytes (m : Memory) (dst src count : Nat) : Memory := fun x =>
  if dst ≤ x ∧ x < dst + count then m (src + (x - dst)) else m x

def Agree (m m' : Memory) (s : Span) : Prop := ∀ x, s.start ≤ x → x < s.stop → m' x = m x

variable {m m' m'' : Memory} {s t : Span} {a b width value : Nat}

theorem Agree.refl : Agree m m s := fun _ _ _ => rfl

theorem Agree.trans (first : Agree m m' s) (second : Agree m' m'' s) :
    Agree m m'' s := fun x lower upper =>
  (second x lower upper).trans (first x lower upper)

theorem Agree.shrink (agree : Agree m m' s) (lower : s.start ≤ t.start) (upper : t.stop ≤ s.stop) :
    Agree m m' t :=
  fun x above below => agree x (Nat.le_trans lower above) (Nat.lt_of_lt_of_le below upper)

theorem Agree.loadWord (agree : Agree m m' s) (lower : s.start ≤ a) (upper : a + width ≤ s.stop) :
    loadWord m' a width = loadWord m a width := by
  induction width generalizing a with
  | zero => rfl
  | succ width ih =>
      rw [Lib.loadWord, Lib.loadWord, agree a lower (by omega), ih (by omega) (by omega)]

theorem Agree.storeWord (apart : (⟨a, a + width⟩ : Span).Apart s) :
    Agree m (storeWord m a width value) s := by
  intro x lower upper
  unfold Span.Apart at apart
  exact if_neg (by simp only at apart; omega)

theorem Agree.zeroBytes {count : Nat} (apart : (⟨a, a + count⟩ : Span).Apart s) :
    Agree m (zeroBytes m a count) s := by
  intro x lower upper
  unfold Span.Apart at apart
  exact if_neg (by simp only at apart; omega)

theorem Agree.copyBytes {count : Nat} (apart : (⟨a, a + count⟩ : Span).Apart s) :
    Agree m (copyBytes m a b count) s := by
  intro x lower upper
  unfold Span.Apart at apart
  exact if_neg (by simp only at apart; omega)

theorem loadWord_of_bytes (bytes : ∀ i, i < width → m (a + i) = UInt8.ofNat (value / 256 ^ i)) :
    loadWord m a width = value % 256 ^ width := by
  induction width generalizing a value with
  | zero => rw [loadWord, Nat.pow_zero, Nat.mod_one]
  | succ width ih =>
      have first := bytes 0 (Nat.succ_pos width)
      have rest : loadWord m (a + 1) width = value / 256 % 256 ^ width := by
        apply ih
        intro i less
        have next := bytes (i + 1) (Nat.succ_lt_succ less)
        rw [Nat.add_assoc, Nat.add_comm 1 i, next, Nat.div_div_eq_div_mul, Nat.pow_succ, Nat.mul_comm]
      rw [Nat.pow_zero, Nat.div_one, Nat.add_zero] at first
      have split : 256 ^ (width + 1) = 256 * 256 ^ width := by rw [Nat.pow_succ, Nat.mul_comm]
      have low : (UInt8.ofNat value).toNat = value % 256 := UInt8.toNat_ofNat'
      rw [loadWord, first, rest, low, split, Nat.mod_mul]

theorem loadWord_storeWord :
    loadWord (storeWord m a width value) a width = value % 256 ^ width := by
  apply loadWord_of_bytes
  intro i less
  unfold storeWord
  rw [if_pos ⟨Nat.le_add_right a i, Nat.add_lt_add_left less a⟩, Nat.add_sub_cancel_left]

theorem loadWord_storeWord_of_apart {width' : Nat} (apart : b + width' ≤ a ∨ a + width ≤ b) :
    loadWord (storeWord m a width value) b width' = loadWord m b width' := by
  refine @Agree.loadWord m _ ⟨b, b + width'⟩ b width' (Agree.storeWord ?_) (Nat.le_refl _)
    (Nat.le_refl _)
  exact apart.symm

theorem loadWord_lt : loadWord m a width < 256 ^ width := by
  induction width generalizing a with
  | zero => exact Nat.one_pos
  | succ width ih =>
      have byte : (m a).toNat < 256 := (m a).toNat_lt
      have rest : loadWord m (a + 1) width < 256 ^ width := ih
      rw [loadWord, Nat.pow_succ]
      omega

-- only the lemmas above look into it
attribute [irreducible] loadWord

end Cos.Lib
