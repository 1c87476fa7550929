import Mathlib.Data.List.Perm.Basic
import Mathlib.Data.List.Pairwise

/-! # Half-open ranges of addresses -/

namespace Cos.Lib

/-- The addresses from `start` up to but not including `stop`. -/
structure Span where
  start : Nat
  stop : Nat
deriving DecidableEq, Repr

namespace Span

variable {s t u : Span}

def Apart (s t : Span) : Prop := s.stop ≤ t.start ∨ t.stop ≤ s.start

theorem Apart.symm (apart : s.Apart t) : t.Apart s := Or.symm apart

theorem Apart.join (left : s.Apart u) (right : t.Apart u) (touch : s.stop = t.start)
    (nonempty : u.start < u.stop) : (⟨s.start, t.stop⟩ : Span).Apart u := by
  simp only [Apart] at *
  omega

theorem Apart.shrink (apart : s.Apart u) (lower : s.start ≤ t.start) (upper : t.stop ≤ s.stop) :
    t.Apart u := by
  simp only [Apart] at *
  omega

end Span

/-- Overwrite element `index` with the last one and drop the last place. -/
def swapRemove {α : Type u} (items : List α) (index : Nat) : List α :=
  match items.getLast? with
  | none => items
  | some last => (items.set index last).dropLast

theorem swapRemove_perm {α : Type u} {items : List α} {index : Nat} (bound : index < items.length) :
    (swapRemove items index).Perm (items.eraseIdx index) := by
  obtain ⟨init, last, rfl⟩ : ∃ init last, items = init ++ [last] :=
    ⟨items.dropLast, items.getLast (by rintro rfl; simp at bound),
      (List.dropLast_append_getLast _).symm⟩
  simp only [swapRemove, List.getLast?_append, List.getLast?_singleton, Option.some_or]
  by_cases inside : index < init.length
  · rw [List.set_append_left _ _ inside, List.dropLast_concat, List.eraseIdx_append_of_lt_length inside]
    exact (List.set_perm_cons_eraseIdx inside last).trans
      (List.perm_append_singleton last (init.eraseIdx index)).symm
  · have atEnd : index = init.length := by
      simp only [List.length_append, List.length_singleton] at bound
      omega
    subst atEnd
    rw [List.set_append_right _ _ (Nat.le_refl _), List.eraseIdx_append_of_length_le (Nat.le_refl _)]
    simp

theorem swapRemove_cons_perm {α : Type u} {items : List α} {index : Nat}
    (bound : index < items.length) : (items[index] :: swapRemove items index).Perm items :=
  ((swapRemove_perm bound).cons _).trans (List.getElem_cons_eraseIdx_perm bound)

/-- What filtering in place looks at next: an element that goes is overwritten with the last one. -/
def lastFirst {α : Type u} (items : List α) : List α :=
  match items.getLast? with
  | none => []
  | some last => last :: items.dropLast

theorem lastFirst_perm {α : Type u} (items : List α) : (lastFirst items).Perm items := by
  rcases List.eq_nil_or_concat items with rfl | ⟨init, last, rfl⟩
  · exact List.Perm.refl []
  · rw [lastFirst, List.concat_eq_append, List.getLast?_concat, List.dropLast_concat]
    exact (List.perm_append_singleton last init).symm

/-- The elements that stay, `count` of them looked at. -/
def swapFilterFrom {α : Type u} (keep : α → Bool) : Nat → List α → List α
  | count + 1, item :: rest =>
      if keep item then item :: swapFilterFrom keep count rest else swapFilterFrom keep count (lastFirst rest)
  | _, _ => []

def swapFilter {α : Type u} (keep : α → Bool) (items : List α) : List α :=
  swapFilterFrom keep items.length items

theorem swapFilterFrom_perm {α : Type u} {keep : α → Bool} {count : Nat} {items : List α}
    (all : items.length = count) : (swapFilterFrom keep count items).Perm (items.filter keep) := by
  induction count generalizing items with
  | zero => rw [List.eq_nil_of_length_eq_zero all]; exact List.Perm.refl []
  | succ count ih =>
      cases items with
      | nil => cases all
      | cons item rest =>
          have rest_length : rest.length = count := Nat.succ.inj all
          rw [swapFilterFrom, List.filter_cons]
          split
          · exact (ih rest_length).cons item
          · have moved := lastFirst_perm rest
            exact (ih (moved.length_eq.trans rest_length)).trans (moved.filter keep)

theorem mem_swapFilter {α : Type u} {keep : α → Bool} {items : List α} {item : α} :
    item ∈ swapFilter keep items ↔ item ∈ items ∧ keep item = true :=
  (swapFilterFrom_perm rfl).mem_iff.trans List.mem_filter

end Cos.Lib
