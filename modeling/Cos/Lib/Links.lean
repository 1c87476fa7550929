import Mathlib.Data.List.Nodup
import Mathlib.Logic.Function.Basic

/-! # Doubly linked lists

Nodes carry their own links.  `Linked links head nodes` says that a walk from `head` meets `nodes`,
and that the links back agree with it.
-/

namespace Cos.Lib

open Function (update update_of_ne update_self)

structure Links (α : Type u) where
  next : α → Option α
  prev : α → Option α

variable {α : Type u} [DecidableEq α] {links other : Links α} {node : α} {nodes more : List α}
  {head before after value : Option α} {fuel : Nat}

def Links.setNext (links : Links α) (node value : Option α) : Links α :=
  match node with
  | none => links
  | some node => { links with next := update links.next node value }

def Links.setPrev (links : Links α) (node value : Option α) : Links α :=
  match node with
  | none => links
  | some node => { links with prev := update links.prev node value }

/-- The node becomes the last one, after `tail`. -/
def Links.append (links : Links α) (tail : Option α) (node : α) : Links α :=
  ((links.setNext (some node) none).setPrev (some node) tail).setNext tail (some node)

/-- The node becomes the first one, before `head`. -/
def Links.push (links : Links α) (head : Option α) (node : α) : Links α :=
  ((links.setNext (some node) head).setPrev (some node) none).setPrev head (some node)

def Links.detach (links : Links α) (node : α) : Links α :=
  (((links.setNext (links.prev node) (links.next node)).setPrev (links.next node) (links.prev node)).setNext
    (some node) none).setPrev (some node) none

def Links.meets (links : Links α) (node : α) : Nat → Option α → Bool
  | 0, _ | _, none => false
  | fuel + 1, some cur => if cur = node then true else links.meets node fuel (links.next cur)

def Links.walk (links : Links α) : Nat → Option α → List α
  | 0, _ | _, none => []
  | fuel + 1, some node => node :: links.walk fuel (links.next node)

/-- The nodes between `before` and `after`. -/
def Segment (links : Links α) (after : Option α) : Option α → List α → Prop
  | _, [] => True
  | before, node :: rest =>
      links.prev node = before ∧ links.next node = rest.head?.or after ∧ Segment links after (some node) rest

structure Linked (links : Links α) (head : Option α) (nodes : List α) : Prop where
  head : head = nodes.head?
  segment : Segment links none none nodes
  nodup : nodes.Nodup

theorem Links.setNext_next (links : Links α) (target : Option α) (value : Option α) (node : α) :
    (links.setNext target value).next node = if target = some node then value
    else links.next node := by
  cases target with
  | none => rfl
  | some target =>
      by_cases isNode : target = node
      · subst isNode
        rw [if_pos rfl]
        exact update_self _ _ _
      · rw [if_neg (by simpa using isNode)]
        exact update_of_ne (Ne.symm isNode) _ _

theorem Links.setPrev_prev (links : Links α) (target : Option α) (value : Option α) (node : α) :
    (links.setPrev target value).prev node = if target = some node then value
    else links.prev node := by
  cases target with
  | none => rfl
  | some target =>
      by_cases isNode : target = node
      · subst isNode
        rw [if_pos rfl]
        exact update_self _ _ _
      · rw [if_neg (by simpa using isNode)]
        exact update_of_ne (Ne.symm isNode) _ _

@[simp] theorem Links.setNext_prev (links : Links α) (target value : Option α) :
    (links.setNext target value).prev = links.prev := by
  cases target <;> rfl

@[simp] theorem Links.setPrev_next (links : Links α) (target value : Option α) :
    (links.setPrev target value).next = links.next := by
  cases target <;> rfl

omit [DecidableEq α] in
theorem Segment.frame (segment : Segment links after before nodes)
    (same : ∀ node ∈ nodes, other.next node = links.next node ∧ other.prev node = links.prev node) :
    Segment other after before nodes := by
  induction nodes generalizing before with
  | nil => trivial
  | cons first rest ih =>
      obtain ⟨isPrev, isNext, later⟩ := segment
      obtain ⟨sameNext, samePrev⟩ := same first List.mem_cons_self
      exact ⟨samePrev.trans isPrev, sameNext.trans isNext, ih later fun node member => same node (List.mem_cons_of_mem _ member)⟩

omit [DecidableEq α] in
theorem Linked.frame (linked : Linked links head nodes)
    (same : ∀ node ∈ nodes, other.next node = links.next node ∧ other.prev node = links.prev node) :
    Linked other head nodes := ⟨linked.head, linked.segment.frame same, linked.nodup⟩

omit [DecidableEq α] in
theorem Segment.append : Segment links after before (nodes ++ more) ↔
    Segment links (more.head?.or after) before nodes ∧
    Segment links after (nodes.getLast?.or before) more := by
  induction nodes generalizing before with
  | nil => simp [Segment]
  | cons first rest ih =>
      have isHead : ((rest ++ more).head?).or after = rest.head?.or (more.head?.or after) := by
        cases rest <;> rfl
      have isLast : ((first :: rest).getLast?).or before = rest.getLast?.or (some first) := by
        cases rest with
        | nil => rfl
        | cons second later =>
            rfl
      simp only [List.cons_append, Segment, isHead, isLast, ih, and_assoc]

theorem Segment.retarget (segment : Segment links after before nodes) (nodup : nodes.Nodup)
    (value : Option α) : Segment (links.setNext nodes.getLast? value) value before nodes := by
  induction nodes generalizing before with
  | nil => trivial
  | cons first rest ih =>
      obtain ⟨isPrev, isNext, later⟩ := segment
      obtain ⟨absent, distinct⟩ := List.nodup_cons.mp nodup
      cases rest with
      | nil =>
          refine ⟨by simpa using isPrev, ?_, trivial⟩
          rw [Links.setNext_next]
          simp
      | cons second rest =>
          rw [List.getLast?_cons_cons]
          refine ⟨by simpa using isPrev, ?_, ih later distinct⟩
          have different : (second :: rest).getLast? ≠ some first := fun isLast =>
            absent (List.mem_of_getLast? isLast)
          rw [Links.setNext_next, if_neg different]
          simpa using isNext

theorem Segment.rebase (segment : Segment links after before nodes) (nodup : nodes.Nodup)
    (value : Option α) : Segment (links.setPrev nodes.head? value) after value nodes := by
  cases nodes with
  | nil => trivial
  | cons first rest =>
      obtain ⟨isPrev, isNext, later⟩ := segment
      obtain ⟨absent, -⟩ := List.nodup_cons.mp nodup
      refine ⟨by rw [Links.setPrev_prev]; simp, by simpa using isNext, later.frame fun node member => ?_⟩
      have different : ¬ first = node := fun same => absent (same ▸ member)
      rw [Links.setPrev_prev]
      simp [different]

theorem Linked.append {tail : Option α} (linked : Linked links head nodes)
    (isTail : tail = nodes.getLast?) (absent : node ∉ nodes) :
    Linked (links.append tail node) (if tail.isSome then head else some node)
    (nodes ++ [node]) := by
  subst isTail
  refine ⟨?_, ?_, ?_⟩
  · cases nodes with
    | nil => rfl
    | cons first rest =>
        rw [linked.head, if_pos (List.getLast?_isSome.mpr (List.cons_ne_nil _ _))]
        rfl
  · rw [Segment.append]
    have untouched : Segment ((links.setNext (some node) none).setPrev (some node) nodes.getLast?)
      none none nodes := by
      refine linked.segment.frame fun other member => ?_
      have different : ¬ node = other := fun same => absent (same ▸ member)
      rw [Links.setPrev_next, Links.setNext_next, Links.setPrev_prev, Links.setNext_prev]
      simp [different]
    refine ⟨untouched.retarget linked.nodup (some node), ?_, ?_, trivial⟩
    · rw [Links.append, Links.setNext_prev, Links.setPrev_prev]
      simp
    · have different : nodes.getLast? ≠ some node := fun isLast => absent (List.mem_of_getLast? isLast)
      rw [Links.append, Links.setNext_next, if_neg different, Links.setPrev_next, Links.setNext_next]
      simp
  · rw [List.nodup_append]
    exact ⟨linked.nodup, List.nodup_singleton _, fun a inside b isNode same =>
      absent (List.mem_singleton.mp isNode ▸ same ▸ inside)⟩

theorem Linked.push (linked : Linked links head nodes) (absent : node ∉ nodes) :
    Linked (links.push head node) (some node) (node :: nodes) := by
  rw [linked.head]
  have untouched : Segment ((links.setNext (some node) nodes.head?).setPrev (some node) none) none
    none nodes := by
    refine linked.segment.frame fun other member => ?_
    have different : ¬ node = other := fun same => absent (same ▸ member)
    rw [Links.setPrev_next, Links.setNext_next, Links.setPrev_prev, Links.setNext_prev]
    simp [different]
  refine ⟨rfl, ⟨?_, ?_, untouched.rebase linked.nodup (some node)⟩,
    List.nodup_cons.mpr ⟨absent, linked.nodup⟩⟩
  · have different : nodes.head? ≠ some node := fun isHead => absent (List.mem_of_head? isHead)
    rw [Links.push, Links.setPrev_prev, if_neg different, Links.setPrev_prev]
    simp
  · rw [Links.push, Links.setPrev_next, Links.setPrev_next, Links.setNext_next]
    simp

omit [DecidableEq α] in
theorem Linked.split (linked : Linked links head nodes) (member : node ∈ nodes) :
    ∃ front back, nodes = front ++ node :: back ∧ node ∉ front ∧ node ∉ back ∧
      links.prev node = front.getLast? ∧ links.next node = back.head? ∧
      Segment links (some node) none front ∧ Segment links none (some node) back := by
  obtain ⟨front, back, rfl⟩ := List.append_of_mem member
  obtain ⟨first, isPrev, isNext, last⟩ := Segment.append.mp linked.segment
  have distinct := List.nodup_append.mp linked.nodup
  have absent : node ∉ front := fun inside => distinct.2.2 node inside node List.mem_cons_self rfl
  rw [Option.or_none] at isPrev isNext
  exact ⟨front, back, rfl, absent, (List.nodup_cons.mp distinct.2.1).1, isPrev, isNext, first, last⟩

theorem Linked.detach (linked : Linked links head nodes) (member : node ∈ nodes) :
    Linked (links.detach node) (if (links.prev node).isSome then head else links.next node)
      (nodes.erase node) ∧ (if (links.next node).isSome then nodes.getLast? else links.prev node) =
      (nodes.erase node).getLast? := by
  obtain ⟨front, back, isNodes, notFront, notBack, isPrev, isNext, first, last⟩ :=
    linked.split member
  have distinct := linked.nodup
  rw [isNodes] at distinct
  obtain ⟨nodupFront, nodupBack, apart⟩ := List.nodup_append.mp distinct
  have erased : nodes.erase node = front ++ back := by
    rw [isNodes, List.erase_append_right _ notFront, List.erase_cons_head]
  have joined : Segment
      ((links.setNext front.getLast? back.head?).setPrev back.head? front.getLast?) none none
      (front ++ back) := by
    rw [Segment.append, Option.or_none, Option.or_none]
    constructor
    · refine (first.retarget nodupFront back.head?).frame fun other inside => ?_
      have different : back.head? ≠ some other := fun isHead =>
        apart other inside other (List.mem_cons_of_mem _ (List.mem_of_head? isHead)) rfl
      rw [Links.setPrev_next, Links.setPrev_prev, if_neg different]
      exact ⟨rfl, rfl⟩
    · refine Segment.rebase (last.frame fun other inside => ?_) (List.nodup_cons.mp nodupBack).2 front.getLast?
      have different : front.getLast? ≠ some other := fun isLast =>
        apart other (List.mem_of_getLast? isLast) other (List.mem_cons_of_mem _ inside) rfl
      rw [Links.setNext_next, if_neg different, Links.setNext_prev]
      exact ⟨rfl, rfl⟩
  have segment : Segment (links.detach node) none none (front ++ back) := by
    rw [Links.detach, isPrev, isNext]
    refine joined.frame fun other inside => ?_
    have different : ¬ node = other := by
      rintro rfl
      exact (List.mem_append.mp inside).elim notFront notBack
    rw [Links.setPrev_next, Links.setNext_next, Links.setPrev_prev, Links.setNext_prev]
    simp [different]
  rw [erased, isPrev, isNext]
  refine ⟨⟨?_, segment,
    List.nodup_append.mpr ⟨nodupFront, (List.nodup_cons.mp nodupBack).2, fun a inFront b inBack =>
    apart a inFront b (List.mem_cons_of_mem _ inBack)⟩⟩, ?_⟩
  · rw [linked.head, isNodes]
    cases front with
    | nil => rfl
    | cons other rest =>
        rfl
  · rw [isNodes]
    cases back with
    | nil => simp
    | cons other rest =>
        rw [List.head?_cons, if_pos Option.isSome_some, List.getLast?_append, List.getLast?_append,
          List.getLast?_cons_cons]

theorem Segment.meets (segment : Segment links none before nodes) (enough : nodes.length ≤ fuel) :
    links.meets node fuel nodes.head? = decide (node ∈ nodes) := by
  induction nodes generalizing before fuel with
  | nil => cases fuel <;> rfl
  | cons first rest ih =>
      obtain ⟨-, isNext, later⟩ := segment
      cases fuel with
      | zero => exact absurd enough (by simp)
      | succ fuel =>
          rw [Option.or_none] at isNext
          rw [List.head?_cons, Links.meets]
          by_cases isFirst : first = node
          · simp [isFirst]
          · rw [if_neg isFirst, isNext, ih later (Nat.le_of_succ_le_succ enough)]
            simp [Ne.symm isFirst]

omit [DecidableEq α] in
theorem Segment.walk (segment : Segment links none before nodes) (enough : nodes.length ≤ fuel) :
    links.walk fuel nodes.head? = nodes := by
  induction nodes generalizing before fuel with
  | nil => cases fuel <;> rfl
  | cons first rest ih =>
      obtain ⟨-, isNext, later⟩ := segment
      cases fuel with
      | zero => exact absurd enough (by simp)
      | succ fuel =>
          rw [Option.or_none] at isNext
          rw [List.head?_cons, Links.walk, isNext, ih later (Nat.le_of_succ_le_succ enough)]

theorem Links.append_other {tail : Option α} {x : α} (notNode : x ≠ node)
    (notTail : tail ≠ some x) :
    (links.append tail node).next x = links.next x ∧
    (links.append tail node).prev x = links.prev x := by
  rw [Links.append, Links.setNext_next, if_neg notTail, Links.setPrev_next, Links.setNext_next,
    Links.setNext_prev, Links.setPrev_prev, Links.setNext_prev]
  simp [Ne.symm notNode]

theorem Links.push_other {x : α} (notNode : x ≠ node) (notHead : head ≠ some x) :
    (links.push head node).next x = links.next x ∧
    (links.push head node).prev x = links.prev x := by
  rw [Links.push, Links.setPrev_prev, if_neg notHead, Links.setPrev_next, Links.setPrev_next,
    Links.setNext_next, Links.setPrev_prev, Links.setNext_prev]
  simp [Ne.symm notNode]

theorem Links.detach_other {x : α} (notNode : x ≠ node) (notPrev : links.prev node ≠ some x)
    (notNext : links.next node ≠ some x) :
    (links.detach node).next x = links.next x ∧ (links.detach node).prev x = links.prev x := by
  rw [Links.detach, Links.setPrev_next, Links.setNext_next, Links.setPrev_next, Links.setNext_next,
    if_neg notPrev, Links.setPrev_prev, Links.setNext_prev, Links.setPrev_prev, if_neg notNext,
    Links.setNext_prev]
  simp [Ne.symm notNode]

end Cos.Lib
