import Mathlib.Data.List.Basic

/-! # Texts

Texts as lists of characters: comparison up to the case of ASCII letters, and
the pieces of a text between separators. -/

namespace Cos.Lib

variable {a b text key : List Char}

def ciEqual : List Char → List Char → Bool
  | a :: as, b :: bs => if a.toLower = b.toLower then ciEqual as bs else false
  | [], [] => true
  | _, _ => false

def ciStartsWith : List Char → List Char → Bool
  | _, [] => true
  | [], _ :: _ => false
  | a :: as, b :: bs => if a.toLower = b.toLower then ciStartsWith as bs else false

def lower (text : List Char) : List Char := text.map Char.toLower

theorem ciEqual_iff : ciEqual a b = true ↔ lower a = lower b := by
  induction a generalizing b with
  | nil => cases b <;> simp [ciEqual, lower]
  | cons x a ih =>
      cases b with
      | nil => simp [ciEqual, lower]
      | cons y b =>
          simp only [ciEqual, lower, List.map_cons, List.cons.injEq]
          split
          · next same => exact ih.trans ⟨fun rest => ⟨same, rest⟩, And.right⟩
          · next differs => exact ⟨nofun, fun both => absurd both.1 differs⟩

theorem ciEqual_refl : ciEqual a a = true :=
  ciEqual_iff.mpr rfl

theorem ciStartsWith_length (starts : ciStartsWith text key = true) : key.length ≤ text.length := by
  induction text generalizing key with
  | nil => cases key <;> simp_all [ciStartsWith]
  | cons x text ih =>
      cases key with
      | nil => simp
      | cons y key =>
          simp only [ciStartsWith] at starts
          split at starts
          · simpa using ih starts
          · cases starts

theorem ciStartsWith_other {x y : Char} {other : List Char} (differs : x.toLower ≠ y.toLower)
    (starts : ciStartsWith text (x :: key) = true) : ciStartsWith text (y :: other) = false := by
  cases text with
  | nil => rfl
  | cons z text =>
      simp only [ciStartsWith] at starts ⊢
      split at starts
      · next same => exact if_neg fun also => differs (same.symm.trans also)
      · cases starts

def pieces (separator : Char) : List Char → List (List Char)
  | [] => [[]]
  | x :: rest =>
      if x = separator then [] :: pieces separator rest
      else match pieces separator rest with
        | [] => [[x]]
        | piece :: others => (x :: piece) :: others

theorem pieces_cons (separator : Char) (text : List Char) :
    ∃ piece others, pieces separator text = piece :: others := by
  cases text with
  | nil => exact ⟨[], [], rfl⟩
  | cons x rest =>
      rw [pieces]
      split
      · exact ⟨_, _, rfl⟩
      · split <;> exact ⟨_, _, rfl⟩

theorem pieces_append (separator : Char) (text more : List Char) :
    pieces separator (text ++ separator :: more) = pieces separator text ++
    pieces separator more := by
  induction text with
  | nil =>
      have isPieces : pieces separator (separator :: more) = [] :: pieces separator more := if_pos rfl
      exact isPieces
  | cons x rest ih =>
      rw [List.cons_append, pieces, pieces, ih]
      split
      · rfl
      · obtain ⟨piece, others, isPieces⟩ := pieces_cons separator rest
        rw [isPieces]
        rfl

end Cos.Lib
