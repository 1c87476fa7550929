import Mathlib.Logic.Function.Basic

/-! # Ring buffers

A buffer of `cap` cells that is written and read at positions modulo `cap`.
-/

namespace Cos.Lib

variable {α : Type u} {cap : Nat} {buf : Nat → α} {data : List α} {at_ count : Nat}

def ringPut (cap : Nat) : List α → Nat → (Nat → α) → Nat → α
  | [], _, buf => buf
  | value :: rest, at_, buf => ringPut cap rest (at_ + 1) (Function.update buf (at_ % cap) value)

def ringGet (cap : Nat) (buf : Nat → α) : Nat → Nat → List α
  | 0, _ => []
  | count + 1, at_ => buf (at_ % cap) :: ringGet cap buf count (at_ + 1)

@[simp] theorem ringGet_length : (ringGet cap buf count at_).length = count := by
  induction count generalizing at_ with
  | zero => rfl
  | succ count ih => rw [ringGet, List.length_cons, ih]

theorem ringGet_add (first second : Nat) :
    ringGet cap buf (first + second) at_ = ringGet cap buf first at_ ++
    ringGet cap buf second (at_ + first) := by
  induction first generalizing at_ with
  | zero => rw [ringGet, Nat.zero_add, List.nil_append, Nat.add_zero]
  | succ first ih =>
      rw [Nat.succ_add, ringGet, ringGet, ih, List.cons_append]
      congr 3
      omega

theorem ringGet_mod : ringGet cap buf count (at_ % cap) = ringGet cap buf count at_ := by
  induction count generalizing at_ with
  | zero => rfl
  | succ count ih => rw [ringGet, ringGet, Nat.mod_mod, ← ih, ← @ih (at_ + 1), Nat.mod_add_mod]

theorem ringGet_congr {other : Nat → α}
    (same : ∀ i < count, buf ((at_ + i) % cap) = other ((at_ + i) % cap)) :
    ringGet cap buf count at_ = ringGet cap other count at_ := by
  induction count generalizing at_ with
  | zero => rfl
  | succ count ih =>
      have first := same 0 (by omega)
      rw [Nat.add_zero] at first
      rw [ringGet, ringGet, first]
      congr 1
      apply ih
      intro i less
      have later := same (i + 1) (by omega)
      rwa [show at_ + (i + 1) = at_ + 1 + i by omega] at later

theorem ring_apart {first second : Nat} (less : first < second) (near : second < first + cap) :
    first % cap ≠ second % cap := by
  intro same
  have whole := Nat.sub_mod_eq_zero_of_mod_eq same.symm
  rw [Nat.mod_eq_of_lt (by omega)] at whole
  omega

theorem ringPut_away {cell : Nat} (away : ∀ i < data.length, cell ≠ (at_ + i) % cap) :
    ringPut cap data at_ buf cell = buf cell := by
  induction data generalizing at_ buf with
  | nil => rfl
  | cons value rest ih =>
      rw [ringPut, ih]
      · exact Function.update_of_ne (away 0 (by simp)) _ _
      · intro i less
        have later := away (i + 1) (by rw [List.length_cons]; omega)
        rwa [show at_ + (i + 1) = at_ + 1 + i by omega] at later

theorem ringGet_put (room : data.length ≤ cap) :
    ringGet cap (ringPut cap data at_ buf) data.length at_ = data := by
  induction data generalizing at_ buf with
  | nil => rfl
  | cons value rest ih =>
      rw [List.length_cons] at room
      rw [List.length_cons, ringGet, ringPut, ih (by omega)]
      rw [ringPut_away, Function.update_self]
      intro i less
      exact ring_apart (by omega) (by omega)

theorem ringGet_append (room : count + data.length ≤ cap) :
    ringGet cap (ringPut cap data (at_ + count) buf) (count + data.length) at_ =
    ringGet cap buf count at_ ++ data := by
  rw [ringGet_add, ringGet_put (by omega)]
  congr 1
  apply ringGet_congr
  intro i less
  apply ringPut_away
  intro k inside
  exact ring_apart (by omega) (by omega)

end Cos.Lib
