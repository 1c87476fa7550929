import Mathlib.Data.List.Nodup
import Mathlib.Data.List.Perm.Subperm
import Mathlib.Logic.Function.Basic

/-! # Singly linked chains in an array

Cells are the indices of an array and `next` is their link; index 0 ends a chain.
`Chain next head cells` says which cells a walk from `head` meets, in order.
The two walks are given fuel: a chain without repeated cells is walked to its end
by as much fuel as it has cells.
-/

namespace Cos.Lib

variable {next : Nat → Nat} {head cell prev fuel : Nat} {cells rest : List Nat}

def Chain (next : Nat → Nat) : Nat → List Nat → Prop
  | head, [] => head = 0
  | head, cell :: rest => head = cell ∧ cell ≠ 0 ∧ Chain next (next cell) rest

/-- `for (i = head; i; i = next[i]) if (test(i)) break;`, 0 when no cell passes. -/
def chainFind (next : Nat → Nat) (test : Nat → Bool) : Nat → Nat → Nat
  | 0, _ => 0
  | fuel + 1, i => if i = 0 then 0 else if test i then i else chainFind next test fuel (next i)

/-- The walk for the link that points at `cell`, from the link of `prev` on. -/
def chainUnlinkAfter (cell : Nat) : Nat → Nat → (Nat → Nat) → Nat → Nat
  | 0, _, next => next
  | fuel + 1, prev, next =>
      if next prev = 0 then next
      else if next prev = cell then Function.update next prev (next cell)
      else chainUnlinkAfter cell fuel (next prev) next

/-- `for (pp = &head; *pp; pp = &next[*pp]) if (*pp == cell) { *pp = next[cell]; break; }`:
the new head and the new links. -/
def chainUnlink (fuel cell head : Nat) (next : Nat → Nat) : Nat × (Nat → Nat) :=
  if head = 0 then (head, next)
  else if head = cell then (next cell, next)
  else (head, chainUnlinkAfter cell fuel head next)

theorem Chain.frame {other : Nat → Nat} (chain : Chain next head cells)
    (same : ∀ cell ∈ cells, other cell = next cell) : Chain other head cells := by
  induction cells generalizing head with
  | nil => exact chain
  | cons first rest ih =>
      obtain ⟨atHead, nonzero, tail⟩ := chain
      refine ⟨atHead, nonzero, ?_⟩
      rw [same first (by simp)]
      exact ih tail fun cell member => same cell (by simp [member])

theorem Chain.update {value : Nat} (chain : Chain next head cells) (absent : cell ∉ cells) :
    Chain (Function.update next cell value) head cells := by
  refine chain.frame fun other member => Function.update_of_ne ?_ _ _
  rintro rfl
  exact absent member

theorem Chain.push (chain : Chain next head cells) (nonzero : cell ≠ 0) (absent : cell ∉ cells) :
    Chain (Function.update next cell head) cell (cell :: cells) := by
  refine ⟨rfl, nonzero, ?_⟩
  rw [Function.update_self]
  exact chain.update absent

theorem Chain.pop (chain : Chain next head cells) (nonempty : head ≠ 0) :
    ∃ rest, cells = head :: rest ∧ Chain next (next head) rest := by
  cases cells with
  | nil => exact absurd chain nonempty
  | cons first rest =>
      obtain ⟨rfl, _, tail⟩ := chain
      exact ⟨rest, rfl, tail⟩

theorem Chain.nonzero (chain : Chain next head cells) (member : cell ∈ cells) : cell ≠ 0 := by
  induction cells generalizing head with
  | nil => contradiction
  | cons first rest ih =>
      obtain ⟨_, nonzero, tail⟩ := chain
      cases List.mem_cons.mp member with
      | inl same => exact same ▸ nonzero
      | inr later => exact ih tail later

theorem chainFind_eq {test : Nat → Bool} (chain : Chain next head cells)
    (enough : cells.length ≤ fuel) :
    chainFind next test fuel head = (cells.find? test).getD 0 := by
  induction fuel generalizing head cells with
  | zero =>
      obtain rfl := List.length_eq_zero_iff.mp (Nat.le_zero.mp enough)
      rfl
  | succ fuel ih =>
      cases cells with
      | nil =>
          obtain rfl : head = 0 := chain
          rfl
      | cons first rest =>
          obtain ⟨rfl, nonzero, tail⟩ := chain
          rw [chainFind, if_neg nonzero, List.find?_cons]
          cases passes : test head with
          | true => rfl
          | false => exact ih tail (Nat.le_of_succ_le_succ enough)

theorem chainUnlinkAfter_spec (tail : Chain next (next prev) cells)
    (distinct : (prev :: cells).Nodup) (member : cell ∈ cells) (enough : cells.length ≤ fuel) :
    Chain (chainUnlinkAfter cell fuel prev next) (chainUnlinkAfter cell fuel prev next prev)
        (cells.erase cell) ∧
      ∀ other, other ∉ prev :: cells → chainUnlinkAfter cell fuel prev next other = next other := by
  induction fuel generalizing prev cells with
  | zero =>
      obtain rfl := List.length_eq_zero_iff.mp (Nat.le_zero.mp enough)
      contradiction
  | succ fuel ih =>
      cases cells with
      | nil => contradiction
      | cons first rest =>
          obtain ⟨rfl, nonzero, after⟩ := tail
          obtain ⟨prevAbsent, restDistinct⟩ := List.nodup_cons.mp distinct
          rw [chainUnlinkAfter, if_neg nonzero]
          by_cases found : next prev = cell
          · rw [if_pos found]
            subst found
            rw [List.erase_cons_head, Function.update_self]
            refine ⟨after.update fun inside => prevAbsent (by simp [inside]), fun other outside => ?_⟩
            exact Function.update_of_ne (fun same => outside (by simp [same])) _ _
          · rw [if_neg found, List.erase_cons_tail (by simpa using found)]
            have later : cell ∈ rest := (List.mem_cons.mp member).resolve_left (Ne.symm found)
            obtain ⟨unlinked, kept⟩ := ih after restDistinct later (Nat.le_of_succ_le_succ enough)
            have keptPrev := kept prev prevAbsent
            refine ⟨⟨keptPrev, nonzero, unlinked⟩, fun other outside => ?_⟩
            exact kept other fun inside => outside (List.mem_cons_of_mem _ inside)

theorem chainUnlink_spec (chain : Chain next head cells) (distinct : cells.Nodup)
    (member : cell ∈ cells) (enough : cells.length ≤ fuel) :
    Chain (chainUnlink fuel cell head next).2 (chainUnlink fuel cell head next).1
        (cells.erase cell) ∧
      ∀ other, other ∉ cells → (chainUnlink fuel cell head next).2 other = next other := by
  cases cells with
  | nil => contradiction
  | cons first rest =>
      obtain ⟨rfl, nonzero, tail⟩ := chain
      rw [chainUnlink, if_neg nonzero]
      by_cases found : head = cell
      · rw [if_pos found]
        subst found
        rw [List.erase_cons_head]
        exact ⟨tail, fun _ _ => rfl⟩
      · rw [if_neg found, List.erase_cons_tail (by simpa using found)]
        have later : cell ∈ rest := (List.mem_cons.mp member).resolve_left (Ne.symm found)
        obtain ⟨unlinked, kept⟩ := chainUnlinkAfter_spec tail distinct later
          (Nat.le_of_succ_le (show rest.length + 1 ≤ fuel from enough))
        exact ⟨⟨rfl, nonzero, unlinked⟩, kept⟩

theorem length_le_of_nodup_bounded {bound : Nat} (distinct : cells.Nodup)
    (inside : ∀ cell ∈ cells, cell ≠ 0 ∧ cell ≤ bound) : cells.length ≤ bound := by
  have subset : cells ⊆ List.range' 1 bound := by
    intro cell member
    obtain ⟨nonzero, below⟩ := inside cell member
    exact List.mem_range'_1.mpr ⟨by omega, by omega⟩
  have shorter := (List.subperm_of_subset distinct subset).length_le
  rwa [List.length_range'] at shorter

end Cos.Lib
