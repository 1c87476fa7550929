import Cos.Lib.Text
import Mathlib.Data.List.DropRight

/-! # Paths of a confined process

The filter that a path argument goes through, and what the file system makes of
a path.  A text is the characters of a C string up to its end. -/

namespace Cos.Sandbox

open Cos.Lib

abbrev Text := List Char

def isDot (c : Char) : Bool :=
  decide (c = '.' ∨ c = ' ')

/-- The loop of cos_path_is_clean, with what it knows of the component it is in. -/
def pathIsCleanFrom : Text → Bool → Nat → Bool
  | [], onlyDots, len => !(decide (0 < len) && onlyDots)
  | c :: rest, onlyDots, len =>
      if c = '\\' ∨ c.toNat < 0x20 ∨ c.toNat = 0x7F then false
      else if c = '/' then if 0 < len ∧ onlyDots then false else pathIsCleanFrom rest true 0
      else pathIsCleanFrom rest (onlyDots && isDot c) (len + 1)

def pathIsClean (path : Text) : Bool :=
  pathIsCleanFrom path true 0

def jailAllows (jail path : Text) : Bool :=
  if jail = [] then true
  else if path.head? ≠ some '/' then false
  else if !pathIsClean path then false
  else decide (path.take jail.length = jail) &&
    decide (path[jail.length]? = some '/' ∨ path[jail.length]? = none)

/-- Up to the first NUL of what can be read, where that comes within the buffer. -/
def copyPath (jail : Text) (dstSize : Nat) (readable : Text) : Option Text :=
  let path := readable.takeWhile (· ≠ '\x00')
  if path.length < readable.length ∧ path.length < dstSize ∧ jailAllows jail path then some path
    else none

def fsName (component : Text) : Text :=
  component.rdropWhile isDot

/-- A component that is nothing but dots and spaces is no name; with two dots it climbs. -/
def fsEnter (dir : List Text) (component : Text) : List Text :=
  if fsName component = [] then if 2 ≤ component.count '.' then dir.dropLast else dir
  else dir ++ [fsName component]

def fsPath (path : Text) : List Text :=
  (pieces '/' (path.map fun c => if c = '\\' then '/' else c)).foldl fsEnter []

def AtOrBelow (jail path : Text) : Prop :=
  fsPath jail <+: fsPath path

variable {jail path rest : Text} {component : Text} {dir : List Text}

def Named (component : Text) : Prop :=
  component ≠ [] → ∃ c ∈ component, isDot c = false

theorem pathIsCleanFrom_pieces {onlyDots : Bool} {len : Nat}
    (clean : pathIsCleanFrom path onlyDots len = true) : '\\' ∉ path ∧ (∀ component ∈ (pieces '/' path).tail, Named component) ∧
      (0 < len ∨ (pieces '/' path).headD [] ≠ [] → onlyDots = true → ∃ c ∈ (pieces '/' path).headD [], isDot c = false) := by
  induction path generalizing onlyDots len with
  | nil =>
      refine ⟨nofun, nofun, fun some only => ?_⟩
      rw [pathIsCleanFrom, only, Bool.and_true, Bool.not_eq_true', decide_eq_false_iff_not] at clean
      exact absurd (some.resolve_right (fun differs => differs rfl)) clean
  | cons c rest ih =>
      rw [pathIsCleanFrom] at clean
      split at clean
      · cases clean
      · next plain =>
        have notBack : c ≠ '\\' := fun isBack => plain (.inl isBack)
        split at clean
        · next isSlash =>
          subst isSlash
          split at clean
          · cases clean
          · next fine =>
            obtain ⟨back, tail, head⟩ := ih clean
            have isPieces : pieces '/' ('/' :: rest) = [] :: pieces '/' rest := if_pos rfl
            refine ⟨?_, ?_, ?_⟩
            · rintro (- | ⟨_, inside⟩)
              exact back inside
            · rw [isPieces]
              intro component member isSome
              obtain ⟨first, others, isRest⟩ := pieces_cons '/' rest
              rw [List.tail_cons, isRest] at member
              rw [isRest] at tail head
              rcases List.mem_cons.mp member with rfl | later
              · exact head (.inr isSome) rfl
              · exact tail component later isSome
            · rintro (some | differs) only
              · exact absurd ⟨some, only⟩ fine
              · exact absurd rfl differs
        · next notSlash =>
          obtain ⟨back, tail, head⟩ := ih clean
          obtain ⟨first, others, isRest⟩ := pieces_cons '/' rest
          have isPieces : pieces '/' (c :: rest) = (c :: first) :: others := by
            rw [pieces, if_neg notSlash, isRest]
          rw [isRest] at tail head
          rw [isPieces]
          refine ⟨?_, tail, fun _ only => ?_⟩
          · rintro (- | ⟨_, inside⟩)
            · exact notBack rfl
            · exact back inside
          · cases isDotted : isDot c with
            | false => exact ⟨c, List.mem_cons_self, isDotted⟩
            | true =>
                rw [only, isDotted] at head
                obtain ⟨d, inside, named⟩ := head (.inl (by omega)) rfl
                exact ⟨d, List.mem_cons_of_mem _ inside, named⟩

theorem pathIsClean_pieces (clean : pathIsClean path = true) :
    '\\' ∉ path ∧ ∀ component ∈ pieces '/' path, Named component := by
  obtain ⟨back, tail, head⟩ := pathIsCleanFrom_pieces clean
  refine ⟨back, fun component member => ?_⟩
  obtain ⟨first, others, isPieces⟩ := pieces_cons '/' path
  rw [isPieces] at member tail head
  rcases List.mem_cons.mp member with rfl | later
  · exact fun isSome => head (.inr isSome) rfl
  · exact tail component later

theorem fsEnter_named (named : Named component) : dir <+: fsEnter dir component := by
  rw [fsEnter]
  split
  · next none =>
    rw [fsName, List.rdropWhile_eq_nil_iff] at none
    by_cases isEmpty : component = []
    · rw [isEmpty]
      exact List.prefix_rfl
    · obtain ⟨c, inside, isName⟩ := named isEmpty
      exact absurd (none c inside) (by rw [isName]; decide)
  · exact List.prefix_append _ _

theorem foldl_fsEnter {components : List Text} (named : ∀ component ∈ components, Named component) :
    dir <+: components.foldl fsEnter dir := by
  induction components generalizing dir with
  | nil => exact List.prefix_rfl
  | cons component others ih =>
      exact (fsEnter_named (named component List.mem_cons_self)).trans
        (ih fun other member => named other (List.mem_cons_of_mem _ member))

theorem map_slash {text : Text} (noBack : '\\' ∉ text) :
    text.map (fun c => if c = '\\' then '/' else c) = text := by
  refine (List.map_congr_left fun c inside => ?_).trans (List.map_id text)
  have notBack : c ≠ '\\' := fun isBack => noBack (isBack ▸ inside)
  exact if_neg notBack

theorem fsPath_append (noBack : '\\' ∉ path) : fsPath (path ++ '/' :: rest) =
    (pieces '/' (rest.map fun c => if c = '\\' then '/' else c)).foldl fsEnter (fsPath path) := by
  rw [fsPath, fsPath, List.map_append, List.map_cons, map_slash noBack,
    show (if '/' = '\\' then '/' else '/') = '/' from rfl, pieces_append, List.foldl_append]

theorem jailAllows_atOrBelow (allows : jailAllows jail path = true) : AtOrBelow jail path := by
  rw [jailAllows] at allows
  split at allows
  · next none =>
    rw [none]
    exact List.nil_prefix
  · split at allows
    · cases allows
    · split at allows
      · cases allows
      · next clean =>
        simp only [Bool.not_eq_true', Bool.not_eq_false] at clean
        rw [Bool.and_eq_true, decide_eq_true_eq, decide_eq_true_eq] at allows
        obtain ⟨starts, follows⟩ := allows
        obtain ⟨noBack, named⟩ := pathIsClean_pieces clean
        have whole := List.take_append_drop jail.length path
        rw [starts] at whole
        rcases follows with slash | ends
        · obtain ⟨bound, isSlash⟩ := List.getElem?_eq_some_iff.mp slash
          rw [List.drop_eq_getElem_cons bound, isSlash] at whole
          rw [← whole] at noBack named ⊢
          have noBackJail : '\\' ∉ jail := fun inside => noBack (List.mem_append_left _ inside)
          have noBackRest : '\\' ∉ path.drop (jail.length + 1) := fun inside =>
            noBack (List.mem_append_right _ (List.mem_cons_of_mem _ inside))
          rw [AtOrBelow, fsPath_append noBackJail, map_slash noBackRest]
          refine foldl_fsEnter fun component member => named component ?_
          rw [pieces_append]
          exact List.mem_append_right _ member
        · rw [List.getElem?_eq_none_iff] at ends
          rw [List.drop_eq_nil_of_le ends, List.append_nil] at whole
          rw [whole]
          exact List.prefix_rfl

theorem fsPath_rdropWhile (noBack : '\\' ∉ path) :
    fsPath (path.rdropWhile (· = '/')) = fsPath path := by
  induction path using List.reverseRecOn with
  | nil => rfl
  | append_singleton text c ih =>
      have noBackText : '\\' ∉ text := fun inside => noBack (List.mem_append_left _ inside)
      by_cases isSlash : c = '/'
      · subst isSlash
        rw [List.rdropWhile_concat_pos _ _ _ (by decide), ih noBackText, fsPath_append noBackText]
        rfl
      · rw [List.rdropWhile_concat_neg _ _ _ (by simpa using isSlash)]

end Cos.Sandbox
