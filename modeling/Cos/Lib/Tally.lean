import Mathlib.Algebra.Order.BigOperators.Group.Finset
import Mathlib.Algebra.BigOperators.Group.Finset.Piecewise

/-! # Tallies

How a sum over places changes when one place does.
-/

namespace Cos.Lib

variable {α : Type u} {β : Type v} [DecidableEq α] {places : Finset α} {a : α}

theorem sum_change {before after : α → Nat} (inside : a ∈ places)
    (others : ∀ c ∈ places, c ≠ a → after c = before c) :
    ∑ c ∈ places, after c + before a = ∑ c ∈ places, before c + after a := by
  have same : ∑ c ∈ places.erase a, after c = ∑ c ∈ places.erase a, before c :=
    Finset.sum_congr rfl fun c member =>
      others c (Finset.mem_of_mem_erase member) (Finset.ne_of_mem_erase member)
  rw [← Finset.add_sum_erase places after inside, ← Finset.add_sum_erase places before inside, same]
  omega

theorem tally_update [DecidableEq β] {holds : α → β} (inside : a ∈ places) (new value : β) :
    (places.filter fun c => Function.update holds a new c = value).card +
      (if holds a = value then 1 else 0) =
      (places.filter fun c => holds c = value).card + (if new = value then 1 else 0) := by
  rw [Finset.card_filter, Finset.card_filter]
  have others : ∀ c ∈ places, c ≠ a →
      (if Function.update holds a new c = value then 1 else 0) = if holds c = value then 1
      else 0 := by
    intro c _ different
    rw [Function.update_of_ne different]
  have change := sum_change inside others
  rwa [Function.update_self] at change

end Cos.Lib
