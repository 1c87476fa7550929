import Mathlib.Data.List.TakeWhile

/-! # Reading text back

Lines end with a separator and words with a blank.  What was written one by one is read back one by
one, as long as no part holds what ends it.
-/

namespace Cos.Lib

variable {α : Type u} (ends : α → Bool)

def scanPart (text : List α) : List α × List α :=
  (text.takeWhile (! ends ·), text.dropWhile (! ends ·))

variable {ends} {part rest : List α} {sep : α}

theorem scanPart_append (unbroken : ∀ c ∈ part, ends c = false) (broken : ends sep = true) :
    scanPart ends (part ++ sep :: rest) = (part, sep :: rest) := by
  have whole : ∀ c ∈ part, (! ends c) = true := by simpa using unbroken
  rw [scanPart, List.takeWhile_append_of_pos whole, List.dropWhile_append_of_pos whole,
    List.takeWhile_cons_of_neg (by simpa), List.dropWhile_cons_of_neg (by simpa), List.append_nil]

theorem scanPart_all (unbroken : ∀ c ∈ part, ends c = false) : scanPart ends part = (part, []) := by
  rw [scanPart, List.takeWhile_eq_self_iff.mpr (by simpa using unbroken),
    List.dropWhile_eq_nil_iff.mpr (by simpa using unbroken)]

def scanParts (ends : α → Bool) : List α → List (List α)
  | [] => []
  | c :: rest =>
      if ends c then [] :: scanParts ends rest
      else
        match scanParts ends rest with
        | [] => [[c]]
        | part :: parts => (c :: part) :: parts

theorem scanParts_append (unbroken : ∀ c ∈ part, ends c = false) (broken : ends sep = true) :
    scanParts ends (part ++ sep :: rest) = part :: scanParts ends rest := by
  induction part with
  | nil => rw [List.nil_append, scanParts, if_pos broken]
  | cons c part ih =>
      rw [List.cons_append, scanParts, if_neg (by simp [unbroken c List.mem_cons_self]),
        ih fun other member => unbroken other (List.mem_cons_of_mem _ member)]

theorem scanParts_flatMap {parts : List (List α)}
    (unbroken : ∀ part ∈ parts, ∀ c ∈ part, ends c = false) (broken : ends sep = true) :
    scanParts ends (parts.flatMap (· ++ [sep])) = parts := by
  induction parts with
  | nil => rfl
  | cons part parts ih =>
      rw [List.flatMap_cons, List.append_assoc, List.singleton_append,
        scanParts_append (unbroken part List.mem_cons_self) broken,
        ih fun other member => unbroken other (List.mem_cons_of_mem _ member)]

end Cos.Lib
