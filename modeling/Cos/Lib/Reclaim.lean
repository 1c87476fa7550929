import Mathlib.Logic.Relation
import Mathlib.Order.WellFounded
import Mathlib.Data.Fintype.Order

/-! # What counting users frees

A collector that frees a node as soon as no node it keeps uses it frees the nodes of a least
fixed point.  Compared with what no root reaches, it misses exactly the cycles.
-/

namespace Cos.Lib

variable {α : Type u} {root : α → Prop} {uses : α → α → Prop} {j : α}

/-- The nodes that can be freed one after the other, each once its users are gone. -/
inductive Released (root : α → Prop) (uses : α → α → Prop) : α → Prop
  | release {j : α} (free : ¬ root j) (users : ∀ k, k ≠ j → uses k j → Released root uses k) :
      Released root uses j

def InUse (root : α → Prop) (uses : α → α → Prop) (j : α) : Prop :=
  ∃ r, root r ∧ Relation.ReflTransGen uses r j

def OrphanUse (root : α → Prop) (uses : α → α → Prop) (k j : α) : Prop :=
  k ≠ j ∧ uses k j ∧ ¬ InUse root uses k ∧ ¬ InUse root uses j

theorem InUse.step {k : α} (used : InUse root uses k) (use : uses k j) : InUse root uses j := by
  obtain ⟨r, isRoot, path⟩ := used
  exact ⟨r, isRoot, path.tail use⟩

theorem Released.not_inUse (released : Released root uses j) : ¬ InUse root uses j := by
  rintro ⟨r, isRoot, path⟩
  induction path with
  | refl =>
      cases released with
      | release free _ => exact free isRoot
  | @tail k j _ use ih =>
      cases released with
      | release _ users =>
          rcases eq_or_ne k j with rfl | other
          · exact ih (.release ‹_› users)
          · exact ih (users k other use)

theorem Released.acyclic (released : Released root uses j) :
    ¬ Relation.TransGen (OrphanUse root uses) j j := by
  induction released with
  | @release j _ _ ih =>
      intro cycle
      obtain ⟨k, path, last⟩ := Relation.TransGen.tail'_iff.mp cycle
      exact ih k last.1 last.2.1 (Relation.TransGen.head' last path)

theorem released_iff_acyclic {nodes : Finset α} (finite : ∀ k j, uses k j → k ∈ nodes) :
    (∀ j, ¬ InUse root uses j → Released root uses j) ↔
      ∀ j, ¬ Relation.TransGen (OrphanUse root uses) j j := by
  constructor
  · intro complete j cycle
    obtain ⟨k, _, last⟩ := Relation.TransGen.tail'_iff.mp cycle
    exact (complete j last.2.2.2).acyclic cycle
  · intro acyclic
    let below : nodes → nodes → Prop := fun k j => Relation.TransGen (OrphanUse root uses) k.1 j.1
    have irrefl : Std.Irrefl below := ⟨fun k => acyclic k.1⟩
    have wellFounded : WellFounded below := Finite.wellFounded_of_trans_of_irrefl below
    have inside : ∀ k : nodes, ¬ InUse root uses k.1 → Released root uses k.1 := by
      intro k
      induction k using wellFounded.induction with
      | _ k ih =>
          intro orphan
          refine .release (fun isRoot => orphan ⟨k.1, isRoot, .refl⟩) fun user other use => ?_
          have unused : ¬ InUse root uses user := fun used => orphan (used.step use)
          exact ih ⟨user, finite user k.1 use⟩ (.single ⟨other, use, unused, orphan⟩) unused
    intro j orphan
    refine .release (fun isRoot => orphan ⟨j, isRoot, .refl⟩) fun user _ use => ?_
    exact inside ⟨user, finite user j use⟩ fun used => orphan (used.step use)

theorem Released.of_path {k : α} (released : Released root uses j)
    (path : Relation.ReflTransGen uses k j) : Released root uses k := by
  induction path using Relation.ReflTransGen.head_induction_on with
  | refl => exact released
  | @head k middle use _ ih =>
      rcases eq_or_ne k middle with rfl | other
      · exact ih
      · cases ih with
        | release _ users => exact users k other use

theorem exists_last_use {k : α} (path : Relation.ReflTransGen uses k j) (other : k ≠ j) :
    ∃ user, user ≠ j ∧ Relation.ReflTransGen uses k user ∧ uses user j := by
  induction path with
  | refl => exact absurd rfl other
  | @tail middle j before use ih =>
      rcases eq_or_ne middle j with rfl | different
      · exact ih other
      · exact ⟨middle, different, before, use⟩

theorem Released.no_return {k : α} (released : Released root uses j) (other : k ≠ j)
    (path : Relation.ReflTransGen uses k j) : ¬ Relation.ReflTransGen uses j k := by
  induction released generalizing k with
  | @release j _ _ ih =>
      intro back
      obtain ⟨user, different, before, use⟩ := exists_last_use path other
      exact ih user different use different.symm (back.trans before) (.single use)

theorem Released.rank_lt {rank : α → Nat} {k : α}
    (rises : ∀ k j, k ≠ j → uses k j → Released root uses j → rank k < rank j)
    (released : Released root uses j) (path : Relation.ReflTransGen uses k j) :
    k = j ∨ rank k < rank j := by
  induction path using Relation.ReflTransGen.head_induction_on with
  | refl => exact .inl rfl
  | @head k middle use rest ih =>
      rcases eq_or_ne k middle with rfl | other
      · exact ih
      · have first := rises k middle other use (released.of_path rest)
        rcases ih with rfl | further
        · exact .inr first
        · exact .inr (first.trans further)

end Cos.Lib
