import Mathlib.Data.List.Basic

/-! # Two orders of a graph

A graph is given by the list of dependencies of each node; nodes with the same key count as
one.  `dfs` registers a node before it works through its dependencies, `bfsOrder` uses the
list itself as its queue.  The depth-first order always takes the first unregistered
dependency of the *last* node that has one, and this decides when the two orders agree.
-/

namespace Cos.Lib

variable {α : Type u} {κ : Type v} [DecidableEq κ] (deps : α → List α) (key : α → κ)

/-- Registers a node and what it needs, unless its key is registered; `levels` bounds the
depth of the recursion. -/
def dfsAll (visit : List α → α → Option (List α)) : List α → List α → Option (List α)
  | [], order => some order
  | d :: ds, order =>
      match visit order d with
      | none => none
      | some order => dfsAll visit ds order

def dfs : Nat → List α → α → Option (List α)
  | 0, _, _ => none
  | levels + 1, order, node =>
      if key node ∈ order.map key then some order
      else dfsAll (dfs levels) (deps node) (order ++ [node])

theorem dfsAll_append (visit : List α → α → Option (List α)) (first second order : List α) :
    dfsAll visit (first ++ second) order =
    (dfsAll visit first order).bind (dfsAll visit second) := by
  induction first generalizing order with
  | nil => rfl
  | cons d ds ih =>
      simp only [List.cons_append, dfsAll]
      cases visit order d with
      | none => rfl
      | some between => exact ih between

def enqueue : List α → List α → List α
  | [], order => order
  | d :: ds, order => enqueue ds (if key d ∈ order.map key then order else order ++ [d])

/-- Works through the queue from position `next` on. -/
def bfsFrom : Nat → Nat → List α → List α
  | 0, _, order => order
  | rounds + 1, next, order =>
      match order[next]? with
      | none => order
      | some node => bfsFrom rounds (next + 1) (enqueue key (deps node) order)

/-- The breadth-first order from `root`, over at most `rounds` nodes. -/
def bfsOrder (rounds : Nat) (root : α) : List α := bfsFrom deps key rounds 0 [root]

/-- The first dependency of `node` that is not registered. -/
def missing (order : List α) (node : α) : Option α :=
  (deps node).find? fun d => decide (key d ∉ order.map key)

def lastMissing (order : List α) : Option α := order.reverse.findSome? (missing deps key order)

def Complete (order : List α) (node : α) : Prop := ∀ d ∈ deps node, key d ∈ order.map key

variable {deps key} {order after middle : List α} {node root : α}

theorem missing_eq_none : missing deps key order node = none ↔ Complete deps key order node := by
  simp [missing, Complete]

omit [DecidableEq κ] in
theorem keys_mono {d : α} (longer : order <+: after) (member : key d ∈ order.map key) :
    key d ∈ after.map key :=
  (longer.map key).sublist.subset member

omit [DecidableEq κ] in
theorem Complete.mono (complete : Complete deps key order node) (longer : order <+: after) :
    Complete deps key after node :=
  fun d member => keys_mono longer (complete d member)

theorem lastMissing_eq_none (closed : ∀ node ∈ order, Complete deps key order node) :
    lastMissing deps key order = none := by
  rw [lastMissing, List.findSome?_eq_none_iff]
  intro node member
  exact missing_eq_none.mpr (closed node (List.mem_reverse.mp member))

theorem lastMissing_of_split {before rest earlier later : List α} {d : α}
    (rested : ∀ v ∈ rest, Complete deps key (before ++ node :: rest) v)
    (split : deps node = earlier ++ d :: later)
    (present : ∀ e ∈ earlier, key e ∈ (before ++ node :: rest).map key)
    (absent : key d ∉ (before ++ node :: rest).map key) :
    lastMissing deps key (before ++ node :: rest) = some d := by
  have here : missing deps key (before ++ node :: rest) node = some d := by
    have passed : ∀ e ∈ earlier, ¬ decide (key e ∉ (before ++ node :: rest).map key) = true :=
      fun e member unregistered => of_decide_eq_true unregistered (present e member)
    rw [missing, split, List.find?_append, List.find?_eq_none.mpr passed, List.find?_cons]
    simp only [absent, not_false_eq_true, decide_true, Option.none_or]
  have silent : rest.reverse.findSome? (missing deps key (before ++ node :: rest)) = none := by
    rw [List.findSome?_eq_none_iff]
    intro v member
    exact missing_eq_none.mpr (rested v (List.mem_reverse.mp member))
  rw [lastMissing, List.reverse_append, List.reverse_cons, List.append_assoc, List.findSome?_append,
    silent]
  simp [here]

variable (deps key) in
/-- Every node after `order` is what was missing last when it was added. -/
structure Grown (order after : List α) : Prop where
  longer : order <+: after
  steps : ∀ k, order.length ≤ k → k < after.length → lastMissing deps key (after.take k) = after[k]?

theorem Grown.refl (order : List α) : Grown deps key order order :=
  ⟨List.prefix_rfl, fun _ low high => absurd high (Nat.not_lt.mpr low)⟩

theorem Grown.trans (first : Grown deps key order middle) (second : Grown deps key middle after) :
    Grown deps key order after := by
  refine ⟨first.longer.trans second.longer, fun k low high => ?_⟩
  cases Nat.lt_or_ge k middle.length with
  | inr beyond => exact second.steps k beyond high
  | inl within =>
      obtain ⟨rest, rfl⟩ := second.longer
      rw [List.take_append_of_le_length (Nat.le_of_lt within), List.getElem?_append_left within]
      exact first.steps k low within

theorem Grown.single (asked : lastMissing deps key order = some node) :
    Grown deps key order (order ++ [node]) := by
  refine ⟨List.prefix_append .., fun k low high => ?_⟩
  have last : k = order.length := by
    simp only [List.length_append, List.length_singleton] at high
    omega
  subst last
  simpa using asked

variable (deps key) in
/-- A stretch of the traversal: the nodes it added need nothing more. -/
structure Explored (order after : List α) : Prop where
  grown : Grown deps key order after
  done : ∀ node ∈ after.drop order.length, Complete deps key after node

theorem Explored.refl (order : List α) : Explored deps key order order :=
  ⟨.refl order, by simp⟩

theorem Explored.trans (first : Explored deps key order middle)
    (second : Explored deps key middle after) : Explored deps key order after := by
  refine ⟨first.grown.trans second.grown, fun node member => ?_⟩
  obtain ⟨rest, rfl⟩ := second.grown.longer
  rw [List.drop_append_of_le_length first.grown.longer.length_le, List.mem_append] at member
  cases member with
  | inl old => exact (first.done node old).mono (List.prefix_append ..)
  | inr fresh => exact second.done node (by simpa using fresh)

theorem dfsAll_explored {visit : List α → α → Option (List α)}
    (visited : ∀ order d after, visit order d = some after →
      (key d ∈ order.map key ∨ lastMissing deps key order = some d) →
      Explored deps key order after ∧ key d ∈ after.map key)
    {before rest earlier todo : List α}
    (rested : ∀ v ∈ rest, Complete deps key (before ++ node :: rest) v)
    (split : deps node = earlier ++ todo)
    (present : ∀ e ∈ earlier, key e ∈ (before ++ node :: rest).map key)
    (ran : dfsAll visit todo (before ++ node :: rest) = some after) :
    Explored deps key (before ++ node :: rest) after ∧ Complete deps key after node := by
  induction todo generalizing rest earlier with
  | nil =>
      obtain rfl := Option.some.inj ran
      exact ⟨.refl _, fun d member => present d (by simpa [split] using member)⟩
  | cons d todo ih =>
      rw [dfsAll] at ran
      cases ranHere : visit (before ++ node :: rest) d with
      | none => simp [ranHere] at ran
      | some middle =>
          rw [ranHere] at ran
          have asked : key d ∈ (before ++ node :: rest).map key ∨
              lastMissing deps key (before ++ node :: rest) = some d := by
            by_cases known : key d ∈ (before ++ node :: rest).map key
            · exact .inl known
            · exact .inr (lastMissing_of_split rested split present known)
          obtain ⟨explored, registered⟩ := visited _ _ _ ranHere asked
          obtain ⟨fresh, rfl⟩ := explored.grown.longer
          have longer : before ++ node :: rest <+: before ++ node :: (rest ++ fresh) := by simp
          have same : before ++ node :: rest ++ fresh = before ++ node :: (rest ++ fresh) := by simp
          rw [same] at explored registered ran
          have restedNow : ∀ v ∈ rest ++ fresh,
              Complete deps key (before ++ node :: (rest ++ fresh)) v := by
            intro v member
            cases List.mem_append.mp member with
            | inl old => exact (rested v old).mono longer
            | inr new =>
                refine explored.done v ?_
                rw [← same, List.drop_left]
                exact new
          have presentNow : ∀ e ∈ earlier ++ [d],
              key e ∈ (before ++ node :: (rest ++ fresh)).map key := by
            intro e member
            cases List.mem_append.mp member with
            | inl old => exact keys_mono longer (present e old)
            | inr new =>
                obtain rfl := List.mem_singleton.mp new
                exact registered
          obtain ⟨exploredRest, complete⟩ := ih restedNow (by simpa using split) presentNow ran
          exact ⟨explored.trans exploredRest, complete⟩

theorem dfs_explored {levels : Nat} (ran : dfs deps key levels order node = some after)
    (asked : key node ∈ order.map key ∨ lastMissing deps key order = some node) :
    Explored deps key order after ∧ key node ∈ after.map key := by
  induction levels generalizing order node after with
  | zero => contradiction
  | succ levels ih =>
      rw [dfs] at ran
      split at ran
      · rename_i known
        obtain rfl := Option.some.inj ran
        exact ⟨.refl _, known⟩
      · rename_i unknown
        have last : lastMissing deps key order = some node := asked.resolve_left unknown
        obtain ⟨explored, complete⟩ := @dfsAll_explored _ _ _ deps key after node _
          (fun _ _ _ ran asked => ih ran asked) order [] [] _ (by simp) rfl (by simp) ran
        refine ⟨⟨(Grown.single last).trans explored.grown, fun v member => ?_⟩, ?_⟩
        · obtain ⟨fresh, rfl⟩ := explored.grown.longer
          rw [List.append_assoc, List.drop_left] at member
          cases List.mem_append.mp member with
          | inl here =>
              obtain rfl := List.mem_singleton.mp here
              exact complete
          | inr later => exact explored.done v (by simpa using later)
        · exact keys_mono explored.grown.longer (by simp)

theorem enqueue_longer (ds order : List α) : order <+: enqueue key ds order := by
  induction ds generalizing order with
  | nil => exact List.prefix_rfl
  | cons d ds ih =>
      rw [enqueue]
      split
      · exact ih order
      · exact (List.prefix_append ..).trans (ih _)

theorem enqueue_complete {ds : List α} {d : α} (member : d ∈ ds) (order : List α) :
    key d ∈ (enqueue key ds order).map key := by
  induction ds generalizing order with
  | nil => contradiction
  | cons first ds ih =>
      rw [enqueue]
      cases List.mem_cons.mp member with
      | inr later => exact ih later _
      | inl here =>
          subst here
          split
          · rename_i known
            exact keys_mono (enqueue_longer ds order) known
          · exact keys_mono (enqueue_longer ds _) (by simp)

theorem bfsFrom_longer (rounds next : Nat) (order : List α) :
    order <+: bfsFrom deps key rounds next order := by
  induction rounds generalizing next order with
  | zero => exact List.prefix_rfl
  | succ rounds ih =>
      rw [bfsFrom]
      split
      · exact List.prefix_rfl
      · exact (enqueue_longer ..).trans (ih ..)

theorem bfsFrom_closed {rounds next : Nat}
    (done : ∀ node ∈ order.take next, Complete deps key order node)
    (short : (bfsFrom deps key rounds next order).length ≤ next + rounds) :
    ∀ node ∈ bfsFrom deps key rounds next order,
      Complete deps key (bfsFrom deps key rounds next order) node := by
  induction rounds generalizing next order with
  | zero =>
      intro node member
      simp only [bfsFrom, Nat.add_zero] at short member ⊢
      exact done node (by rwa [List.take_of_length_le short])
  | succ rounds ih =>
      cases here : order[next]? with
      | none =>
          simp only [bfsFrom, here] at short ⊢
          have passed := List.getElem?_eq_none_iff.mp here
          exact fun node member => done node (by rwa [List.take_of_length_le passed])
      | some u =>
          simp only [bfsFrom, here] at short ⊢
          refine ih (fun node member => ?_) (by omega)
          have inside : next < order.length := (List.getElem?_eq_some_iff.mp here).choose
          obtain ⟨fresh, same⟩ := @enqueue_longer _ _ _ key (deps u) order
          rw [← same, List.take_append_of_le_length inside, List.take_add_one, here] at member
          cases List.mem_append.mp member with
          | inl old => exact (done node old).mono (enqueue_longer ..)
          | inr new =>
              obtain rfl : node = u := by simpa using new
              exact fun d asked => enqueue_complete asked order

theorem bfsOrder_head (rounds : Nat) : [root] <+: bfsOrder deps key rounds root :=
  bfsFrom_longer ..

/-- An order that is closed and grown depth-first from `root` is the breadth-first order
exactly when, at each node the breadth-first order adds, the last incomplete node asks for
that node. -/
theorem explored_eq_bfsOrder_iff {rounds : Nat} (explored : Explored deps key [root] order)
    (complete : Complete deps key order root) (short : order.length ≤ rounds) :
    order = bfsOrder deps key rounds root ↔
      ∀ k, 0 < k → k < (bfsOrder deps key rounds root).length →
        lastMissing deps key ((bfsOrder deps key rounds root).take k) =
          (bfsOrder deps key rounds root)[k]? := by
  obtain ⟨fresh, isOrder⟩ := explored.grown.longer
  have closed : ∀ node ∈ order, Complete deps key order node := by
    intro node member
    rw [← isOrder] at member
    cases List.mem_cons.mp member with
    | inl here => exact here ▸ complete
    | inr later => exact explored.done node (by simpa [← isOrder] using later)
  constructor
  · intro same k positive inside
    rw [← same] at inside ⊢
    exact explored.grown.steps k positive inside
  · intro asks
    have agree : ∀ k ≤ order.length, k ≤ (bfsOrder deps key rounds root).length →
        order.take k = (bfsOrder deps key rounds root).take k := by
      intro k
      induction k with
      | zero => simp
      | succ k ih =>
          intro inOrder inBfs
          have before := ih (by omega) (by omega)
          cases k with
          | zero =>
              obtain ⟨rest, isBfs⟩ := @bfsOrder_head _ _ _ deps key root rounds
              rw [← isOrder, ← isBfs]
              rfl
          | succ k =>
              have left := explored.grown.steps (k + 1) (by simp) (by omega)
              rw [before, asks (k + 1) (by omega) (by omega)] at left
              rw [@List.take_add_one _ order, before, ← left, ← List.take_add_one]
    cases Nat.lt_or_ge order.length (bfsOrder deps key rounds root).length with
    | inl shorter =>
        have same := agree order.length (Nat.le_refl _) (Nat.le_of_lt shorter)
        rw [List.take_length] at same
        have nonempty : 0 < order.length := by rw [← isOrder]; simp
        have asked := asks order.length nonempty shorter
        rw [← same, lastMissing_eq_none closed, List.getElem?_eq_getElem shorter] at asked
        contradiction
    | inr longer =>
        have same := agree (bfsOrder deps key rounds root).length longer (Nat.le_refl _)
        rw [List.take_length] at same
        have bfsShort : (bfsOrder deps key rounds root).length ≤ 0 + rounds := by omega
        have bfsClosed : ∀ node ∈ bfsOrder deps key rounds root,
            Complete deps key (bfsOrder deps key rounds root) node :=
          bfsFrom_closed (by simp) bfsShort
        cases Nat.lt_or_ge (bfsOrder deps key rounds root).length order.length with
        | inr notLonger => rw [← same, List.take_of_length_le notLonger]
        | inl extra =>
            obtain ⟨rest, isBfs⟩ := @bfsOrder_head _ _ _ deps key root rounds
            have asked := explored.grown.steps (bfsOrder deps key rounds root).length
              (by rw [← isBfs]; simp) extra
            rw [same, lastMissing_eq_none bfsClosed, List.getElem?_eq_getElem extra] at asked
            contradiction

end Cos.Lib
