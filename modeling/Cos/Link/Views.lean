import Cos.Elf.ScopeFrame
import Cos.Link.Open

/-! # What the linker leaves as it is

Most of what the linker does to a slot leaves most of the slot alone.  A view is the part of a
slot that a fact depends on; an operation that keeps the view keeps the fact.
-/

namespace Cos.Link

open Cos.Elf

def SameView {τ : Type u} (view : LinkObj → τ) (ns other : LinkNs) : Prop :=
  ∀ i, (other.objs i).map view = (ns.objs i).map view

section SameView

variable {τ : Type u} {view : LinkObj → τ} {ns other third : LinkNs}

theorem SameView.refl (ns : LinkNs) : SameView view ns ns := fun _ => rfl

theorem SameView.trans (first : SameView view ns other) (second : SameView view other third) :
    SameView view ns third := fun i => (second i).trans (first i)

theorem SameView.of_objs (same : other.objs = ns.objs) : SameView view ns other :=
  fun i => by rw [same]

theorem SameView.slot (same : SameView view ns other) {i : Nat} {slot : LinkObj}
    (found : other.objs i = some slot) :
    ∃ original, ns.objs i = some original ∧ view slot = view original := by
  have views := same i
  rw [found] at views
  cases here : ns.objs i with
  | none =>
      rw [here] at views
      contradiction
  | some original =>
      rw [here] at views
      exact ⟨original, rfl, Option.some.inj views⟩

theorem SameView.isSome (same : SameView view ns other) (i : Nat) :
    (other.objs i).isSome = (ns.objs i).isSome := by
  have views := congrArg Option.isSome (same i)
  simpa using views

theorem setSlot_view {i : Nat} {slot replaced : LinkObj} (here : ns.objs i = some replaced)
    (same : view slot = view replaced) : SameView view ns (ns.setSlot i (some slot)) := by
  intro j
  rw [LinkNs.setSlot_objs]
  split
  · rename_i isHere
    rw [isHere, here, Option.map_some, Option.map_some, same]
  · rfl

theorem updateSlot_view {change : LinkObj → LinkObj}
    (keeps : ∀ slot, view (change slot) = view slot) (i : Nat) :
    SameView view ns (ns.updateSlot i change) := by
  intro j
  rw [LinkNs.updateSlot, LinkNs.setSlot_objs]
  split
  · rename_i isHere
    rw [isHere, Option.map_map]
    congr 1
    funext slot
    exact keeps slot
  · rfl

theorem addNeed_view (ignores : ∀ slot needs, view { slot with needsMask := needs } = view slot)
    (i j : Nat) : SameView view ns (ns.addNeed i j) := by
  intro k
  simp only [LinkNs.addNeed]
  split
  · rw [Option.map_map]
    congr 1
    funext slot
    exact ignores slot _
  · rfl

theorem recordNeed_view (ignores : ∀ slot needs, view { slot with needsMask := needs } = view slot)
    (requester : Option Nat) (j : Nat) : SameView view ns (ns.recordNeed requester j) := by
  cases requester with
  | none => exact .refl ns
  | some i =>
      simp only [LinkNs.recordNeed]
      split
      · exact .refl ns
      · exact addNeed_view ignores i j

theorem markGlobal_view (ignores : ∀ slot value, view { slot with global := value } = view slot)
    (value : Bool) (order : List Nat) : SameView view ns (ns.markGlobal value order) := by
  intro i
  simp only [LinkNs.markGlobal]
  rw [Option.map_map]
  congr 1
  funext slot
  split
  · exact ignores slot value
  · rfl

theorem tlsLayout_view
    (ignores : ∀ slot modid offset,
      view { slot with obj := { slot.obj with tlsModid := modid, tlsOffset := offset } } = view slot)
    {used : List Nat} {offset maxAlign modid : Nat} {sizes : Nat × Nat × Nat}
    (ran : tlsLayout used offset maxAlign modid ns = some (other, sizes)) :
    SameView view ns other := by
  induction used generalizing offset maxAlign modid ns with
  | nil =>
      obtain ⟨rfl, _⟩ := Prod.mk.inj (Option.some.inj ran)
      exact .refl _
  | cons j rest ih =>
      rw [tlsLayout] at ran
      cases found : ns.objs j with
      | none =>
          rw [found] at ran
          exact ih ran
      | some slot =>
          rw [found] at ran
          dsimp only at ran
          split at ran
          · exact (setSlot_view found (ignores slot _ _)).trans (ih ran)
          · split at ran
            · contradiction
            · exact (setSlot_view found (ignores slot _ _)).trans (ih ran)

theorem scopeResolve_view (ignores :
    ∀ slot needs, view { slot with needsMask := needs } =
    view slot) (deepbind : Option Nat) (req : SymReq) (ns : LinkNs) :
    SameView view ns (scopeResolve deepbind req ns).2 := by
  rw [scopeResolve]
  split
  · exact .refl ns
  · split
    · exact .refl ns
    · obtain ⟨asker, isAsker⟩ : ∃ asker, (if (ns.objs req.requester).isSome = true then
        some req.requester else none) = asker := ⟨_, rfl⟩
      rw [isAsker]
      split
      · exact addNeed_view ignores _ _
      · exact .refl ns

end SameView

theorem tlsLayout_cursors {ns other : LinkNs} {used : List Nat} {offset maxAlign modid : Nat}
    {sizes : Nat × Nat × Nat}
    (ran : tlsLayout used offset maxAlign modid ns = some (other, sizes)) :
    other.nextBase = ns.nextBase ∧ other.nextSerial = ns.nextSerial ∧ other.count = ns.count := by
  induction used generalizing offset maxAlign modid ns with
  | nil =>
      obtain ⟨rfl, _⟩ := Prod.mk.inj (Option.some.inj ran)
      exact ⟨rfl, rfl, rfl⟩
  | cons j rest ih =>
      rw [tlsLayout] at ran
      cases found : ns.objs j with
      | none =>
          rw [found] at ran
          exact ih ran
      | some slot =>
          rw [found] at ran
          dsimp only at ran
          split at ran
          · have kept := ih ran
            exact kept
          · split at ran
            · contradiction
            · have kept := ih ran
              exact kept

theorem scopeResolve_nextBase (deepbind : Option Nat) (req : SymReq) (ns : LinkNs) :
    (scopeResolve deepbind req ns).2.nextBase = ns.nextBase := by
  rw [scopeResolve]
  split
  · rfl
  · split
    · rfl
    · obtain ⟨asker, isAsker⟩ : ∃ asker, (if (ns.objs req.requester).isSome = true then
        some req.requester else none) = asker := ⟨_, rfl⟩
      rw [isAsker]
      split <;> rfl

theorem relocateSlots_keeps {holds : LinkNs → Prop} {deepbind : Option Nat}
    (answers : ∀ req ns, holds ns → holds (scopeResolve deepbind req ns).2) (order : List Nat)
    {state : RelocState LinkNs} (before : holds state.scope) :
    holds (stopped (relocateSlots deepbind order state)).scope := by
  induction order generalizing state with
  | nil => exact before
  | cons i rest ih =>
      rw [relocateSlots]
      cases state.scope.objs i with
      | none => exact ih before
      | some slot =>
          dsimp only
          have first := @cosElfRelocate_keeps _ (scopeResolve deepbind) i slot.obj holds answers state before
          cases one : cosElfRelocate (scopeResolve deepbind) i slot.obj state with
          | error failed =>
              rw [one] at first
              exact first
          | ok after =>
              rw [one] at first
              exact ih first

theorem relocate_ns (pass : RelocState LinkNs → Except (RelocState LinkNs) (RelocState LinkNs))
    (state : LinkState) :
    (state.relocate pass).2.ns = (stopped (pass ⟨state.pages.userMem, state.ns, [], 0, []⟩)).scope ∧
      (state.relocate pass).2.pages.mapped = state.pages.mapped ∧
      (state.relocate pass).2.trespassed = state.trespassed := by
  rw [LinkState.relocate]
  cases pass ⟨state.pages.userMem, state.ns, [], 0, []⟩ <;> exact ⟨rfl, rfl, rfl⟩

end Cos.Link
