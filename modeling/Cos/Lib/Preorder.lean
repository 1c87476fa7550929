import Mathlib.Data.List.Nodup
import Mathlib.Logic.Relation
import Cos.Lib.Traversal

/-! # The depth-first order of an acyclic graph

On the way to a node `u` the traversal registers the nodes on the first way down to `u`, and
everything that the dependencies listed before this way lead to.  Without cycles these are all.
-/

namespace Cos.Lib

open Relation

variable {α : Type u} {κ : Type v} [DecidableEq α] [DecidableEq κ] {deps : α → List α} {key : α → κ}
variable {order after : List α} {x u v d node : α} {levels : Nat}

variable (deps) in
def DependsOn (x y : α) : Prop := y ∈ deps x

variable (deps) in
def Acyclic : Prop := ∀ x, ¬ TransGen (DependsOn deps) x x

variable (deps) in
/-- `d` is the first dependency of `x` that leads to `u`; `earlier` are those listed before it. -/
structure FirstWay (x : α) (earlier : List α) (d u : α) : Prop where
  split : ∃ later, deps x = earlier ++ d :: later
  leads : ReflTransGen (DependsOn deps) d u
  passed : ∀ e ∈ earlier, ¬ ReflTransGen (DependsOn deps) e u

variable (deps) in
/-- `v` lies on the first way from `x` down to `u`, or is reached from a dependency listed before
it. -/
inductive MetBefore : α → α → α → Prop
  | onWay {x u : α} : TransGen (DependsOn deps) x u → MetBefore x x u
  | passed {x u v d e : α} {earlier : List α} : FirstWay deps x earlier d u → e ∈ earlier →
      ReflTransGen (DependsOn deps) e v → MetBefore x v u
  | deeper {x u v d : α} {earlier : List α} :
    FirstWay deps x earlier d u → MetBefore d v u → MetBefore x v u

omit [DecidableEq α] in
theorem FirstWay.reaches {earlier : List α} (way : FirstWay deps x earlier d u) :
    TransGen (DependsOn deps) x u := by
  obtain ⟨later, split⟩ := way.split
  exact TransGen.head' (show d ∈ deps x by rw [split]; simp) way.leads

omit [DecidableEq α] in
theorem MetBefore.reaches (met : MetBefore deps x v u) : TransGen (DependsOn deps) x u := by
  cases met with
  | onWay reached => exact reached
  | passed way _ _ => exact way.reaches
  | deeper way _ => exact way.reaches

omit [DecidableEq α] in
theorem exists_firstWay (reached : TransGen (DependsOn deps) x u) :
    ∃ earlier d, FirstWay deps x earlier d u := by
  classical
  obtain ⟨first, member, leads⟩ := TransGen.head'_iff.mp reached
  have found : ((deps x).find? fun d => decide (ReflTransGen (DependsOn deps) d u)).isSome :=
    List.find?_isSome.mpr ⟨first, member, decide_eq_true leads⟩
  obtain ⟨d, isFirst⟩ := Option.isSome_iff_exists.mp found
  obtain ⟨leads, earlier, later, split, passed⟩ := List.find?_eq_some_iff_append.mp isFirst
  exact ⟨earlier, d, ⟨later, split⟩, of_decide_eq_true leads,
    fun e member => by simpa using passed e member⟩

omit [DecidableEq α] in
theorem FirstWay.unique {earlier earlier' : List α} {d' : α} (way : FirstWay deps x earlier d u)
    (again : FirstWay deps x earlier' d' u) : earlier = earlier' ∧ d = d' := by
  obtain ⟨later, split⟩ := way.split
  obtain ⟨later', split'⟩ := again.split
  have same := split.symm.trans split'
  rcases List.append_eq_append_iff.mp same with ⟨between, isEarlier, rest⟩ |
    ⟨between, isEarlier, rest⟩
  · cases between with
    | nil => exact ⟨by simpa using isEarlier.symm, (List.cons.inj rest).1⟩
    | cons e between =>
        obtain ⟨rfl, -⟩ := List.cons.inj rest
        exact absurd way.leads (again.passed d (by simp [isEarlier]))
  · cases between with
    | nil => exact ⟨by simpa using isEarlier, (List.cons.inj rest).1.symm⟩
    | cons e between =>
        obtain ⟨rfl, -⟩ := List.cons.inj rest
        exact absurd again.leads (way.passed d' (by simp [isEarlier]))

variable (deps) in
/-- What the registered nodes reachable from `x` lead to is registered. -/
def ClosedBelow (order : List α) (x : α) : Prop :=
  ∀ w ∈ order, ReflTransGen (DependsOn deps) x w → ∀ z, ReflTransGen (DependsOn deps) w z →
    z ∈ order

variable (deps) in
structure Walked (order after : List α) (x : α) : Prop where
  longer : order <+: after
  members : ∀ w, w ∈ after ↔ w ∈ order ∨ ReflTransGen (DependsOn deps) x w
  split : ∀ u, ReflTransGen (DependsOn deps) x u → u ∉ order →
    ∃ before rest, after = before ++ u :: rest ∧ ∀ v, v ∈ before ↔ v ∈ order ∨ MetBefore deps x v u

variable (deps) in
/-- `Walked` for a list of dependencies. -/
structure WalkedAll (order after todo : List α) : Prop where
  longer : order <+: after
  members : ∀ w, w ∈ after ↔ w ∈ order ∨ ∃ d ∈ todo, ReflTransGen (DependsOn deps) d w
  split : ∀ u earlier d later, todo = earlier ++ d :: later → ReflTransGen (DependsOn deps) d u →
    (∀ e ∈ earlier, ¬ ReflTransGen (DependsOn deps) e u) → u ∉ order →
    ∃ before rest, after = before ++ u :: rest ∧ ∀ v, v ∈ before ↔
      v ∈ order ∨ (∃ e ∈ earlier, ReflTransGen (DependsOn deps) e v) ∨ MetBefore deps d v u

omit [DecidableEq α] in
theorem Walked.closed (walked : Walked deps order after d) (closed : ClosedBelow deps order x) :
    ClosedBelow deps after x := by
  intro w member reached z onward
  rcases (walked.members w).mp member with old | fresh
  · exact (walked.members z).mpr (Or.inl (closed w old reached z onward))
  · exact (walked.members z).mpr (Or.inr (fresh.trans onward))

omit [DecidableEq α] in
theorem dfsAll_walked {visit : List α → α → Option (List α)} {todo : List α}
    (visited : ∀ order d after, ClosedBelow deps order d → visit order d = some after →
    Walked deps order after d)
    (closed : ∀ d ∈ todo, ClosedBelow deps order d) (ran : dfsAll visit todo order = some after) :
    WalkedAll deps order after todo := by
  induction todo generalizing order with
  | nil =>
      obtain rfl := Option.some.inj ran
      exact ⟨List.prefix_rfl, fun w => by simp, fun u earlier d later split => by simp at split⟩
  | cons first todo ih =>
      rw [dfsAll] at ran
      cases ranFirst : visit order first with
      | none => simp [ranFirst] at ran
      | some middle =>
          rw [ranFirst] at ran
          have walked := visited order first middle (closed first (by simp)) ranFirst
          have rest := ih (fun d member => walked.closed (closed d (by simp [member]))) ran
          refine ⟨walked.longer.trans rest.longer, fun w => ?_, fun u earlier d later split leads passed absent => ?_⟩
          · simp only [rest.members, walked.members, List.mem_cons, exists_eq_or_imp, or_assoc]
          · cases earlier with
            | nil =>
                obtain ⟨rfl, -⟩ := List.cons.inj split
                obtain ⟨before, behind, isMiddle, met⟩ := walked.split u leads absent
                obtain ⟨fresh, rfl⟩ := rest.longer
                exact ⟨before, behind ++ fresh, by rw [isMiddle]; simp, fun v => by simp [met v]⟩
            | cons e earlier =>
                obtain ⟨rfl, splitRest⟩ := List.cons.inj split
                have later : u ∉ middle := fun member =>
                  ((walked.members u).mp member).elim absent (passed first (by simp))
                obtain ⟨before, behind, isAfter, met⟩ :=
                  rest.split u earlier d _ splitRest leads (fun e member => passed e (by simp [member])) later
                refine ⟨before, behind, isAfter, fun v => ?_⟩
                simp only [met v, walked.members, List.mem_cons, exists_eq_or_imp, or_assoc]

/-- The traversal of an acyclic graph, node by node. -/
theorem dfs_walked (acyclic : Acyclic deps) (closed : ClosedBelow deps order x)
    (ran : dfs deps id levels order x = some after) : Walked deps order after x := by
  induction levels generalizing order x after with
  | zero => contradiction
  | succ levels ih =>
      rw [dfs, List.map_id, id_eq] at ran
      split at ran
      · rename_i known
        obtain rfl := Option.some.inj ran
        have here : ∀ w, ReflTransGen (DependsOn deps) x w → w ∈ order := closed x known .refl
        exact ⟨List.prefix_rfl, fun w => ⟨Or.inl, fun either => either.elim id (here w)⟩,
          fun u reached absent => absurd (here u reached) absent⟩
      · rename_i unknown
        -- a child does not lead back to `x`
        have below : ∀ d ∈ deps x, ClosedBelow deps (order ++ [x]) d := by
          intro d member w registered reached z onward
          have fromHere := ReflTransGen.head (show DependsOn deps x d from member) reached
          rcases List.mem_append.mp registered with old | isNew
          · exact List.mem_append_left _ (closed w old fromHere z onward)
          · obtain rfl := List.mem_singleton.mp isNew
            exact absurd (TransGen.head' member reached) (acyclic w)
        have all := dfsAll_walked (fun _ _ _ closed ran => ih closed ran) below ran
        refine ⟨(List.prefix_append ..).trans all.longer, fun w => ?_, fun u reached absent => ?_⟩
        · rw [all.members, List.mem_append, List.mem_singleton, or_assoc,
            ReflTransGen.cases_head_iff (a := x), @eq_comm _ x w]
          rfl
        · rcases ReflTransGen.cases_head_iff.mp reached with rfl | ⟨first, member, onward⟩
          · obtain ⟨fresh, rfl⟩ := all.longer
            refine ⟨order, fresh, by simp, fun v => ⟨Or.inl, fun either => either.elim id fun met => ?_⟩⟩
            exact absurd met.reaches (acyclic x)
          · have below : TransGen (DependsOn deps) x u := TransGen.head' member onward
            obtain ⟨earlier, d, way⟩ := exists_firstWay below
            obtain ⟨later, split⟩ := way.split
            have different : u ≠ x := fun same => acyclic x (same ▸ below)
            obtain ⟨before, rest, isAfter, met⟩ :=
              all.split u earlier d later split way.leads way.passed (by simp [absent, different])
            refine ⟨before, rest, isAfter, fun v => ?_⟩
            rw [met v, List.mem_append, List.mem_singleton, or_assoc]
            refine or_congr_right ⟨?_, fun isMet => ?_⟩
            · rintro (rfl | ⟨e, member, leads⟩ | isMet)
              · exact MetBefore.onWay below
              · exact MetBefore.passed way member leads
              · exact MetBefore.deeper way isMet
            · cases isMet with
              | onWay _ => exact Or.inl rfl
              | passed again member leads =>
                  obtain ⟨rfl, rfl⟩ := way.unique again
                  exact Or.inr (Or.inl ⟨_, member, leads⟩)
              | deeper again isMet =>
                  obtain ⟨rfl, rfl⟩ := way.unique again
                  exact Or.inr (Or.inr isMet)

omit [DecidableEq α] in
theorem dfsAll_holds {holds : List α → List α → Prop} (refl : ∀ order, holds order order)
    (trans : ∀ {order middle after}, holds order middle → holds middle after → holds order after)
    {visit : List α → α → Option (List α)}
    (visited : ∀ order d after, visit order d = some after → holds order after)
    {todo : List α} (ran : dfsAll visit todo order = some after) : holds order after := by
  induction todo generalizing order with
  | nil =>
      obtain rfl := Option.some.inj ran
      exact refl order
  | cons d todo ih =>
      rw [dfsAll] at ran
      cases ranHere : visit order d with
      | none => simp [ranHere] at ran
      | some middle =>
          rw [ranHere] at ran
          exact trans (visited order d middle ranHere) (ih ran)

omit [DecidableEq α] in
/-- What is so of no step and of each registration, and adds up, is so of a traversal. -/
theorem dfs_holds {holds : List α → List α → Prop} (refl : ∀ order, holds order order)
    (trans : ∀ {order middle after}, holds order middle → holds middle after → holds order after)
    (step : ∀ order node, key node ∉ order.map key → holds order (order ++ [node]))
    (ran : dfs deps key levels order node = some after) : holds order after := by
  induction levels generalizing order node after with
  | zero => contradiction
  | succ levels ih =>
      rw [dfs] at ran
      split at ran
      · obtain rfl := Option.some.inj ran
        exact refl order
      · rename_i unknown
        exact trans (step order node unknown) (dfsAll_holds refl trans (fun _ _ _ ran => ih ran) ran)

omit [DecidableEq α] in
theorem dfs_longer (ran : dfs deps key levels order node = some after) : order <+: after :=
  dfs_holds (fun _ => List.prefix_rfl) (fun first second => first.trans second)
    (fun _ _ _ => List.prefix_append ..) ran

omit [DecidableEq α] in
theorem dfsAll_longer {todo : List α} (ran : dfsAll (dfs deps key levels) todo order = some after) :
    order <+: after :=
  dfsAll_holds (fun _ => List.prefix_rfl) (fun first second => first.trans second)
    (fun _ _ _ ran => dfs_longer ran) ran

omit [DecidableEq α] in
theorem dfs_root_mem (ran : dfs deps key levels [] node = some after) : node ∈ after := by
  cases levels with
  | zero => contradiction
  | succ levels =>
      rw [dfs, if_neg (by simp)] at ran
      exact (dfsAll_longer ran).sublist.subset (by simp)

omit [DecidableEq α] in
theorem dfs_distinct (ran : dfs deps key levels order node = some after)
    (distinct : (order.map key).Nodup) : (after.map key).Nodup := by
  let Kept (order after : List α) : Prop := (order.map key).Nodup → (after.map key).Nodup
  have step (order : List α) (node : α) (unknown : key node ∉ order.map key) :
    Kept order (order ++ [node]) := by
    intro distinct
    rw [List.map_append, List.map_singleton]
    refine List.nodup_append.mpr ⟨distinct, List.nodup_singleton _, ?_⟩
    intro one registered other isNew same
    rw [List.mem_singleton.mp isNew] at same
    exact unknown (same ▸ registered)
  have kept : Kept order after :=
    dfs_holds (fun _ => id) (fun first second => second ∘ first) step ran
  exact kept distinct

/-- Nodes of one key may be named by the one of them that is registered. -/
theorem dfs_renamed {chosen : α → α} {final : List α}
    (names : ∀ y ∈ final, ∀ z, key z = key y → chosen z = y)
    (ran : dfs deps key levels order node = some after) (longer : after <+: final) :
    dfs (fun y => (deps y).map chosen) id levels order (chosen node) = some after := by
  induction levels generalizing order node after with
  | zero => contradiction
  | succ levels ih =>
      have all : ∀ {todo order after}, dfsAll (dfs deps key levels) todo order = some after → after <+: final →
          dfsAll (dfs (fun y => (deps y).map chosen) id levels) (todo.map chosen) order = some after := by
        intro todo
        induction todo with
        | nil => exact fun ran _ => ran
        | cons d todo rest =>
            intro order after ran longer
            rw [dfsAll] at ran
            cases ranHere : dfs deps key levels order d with
            | none => simp [ranHere] at ran
            | some middle =>
                rw [ranHere] at ran
                rw [List.map_cons, dfsAll, ih ranHere ((dfsAll_longer ran).trans longer)]
                exact rest ran longer
      rw [dfs] at ran
      rw [dfs, List.map_id, id_eq]
      split at ran
      · rename_i known
        obtain rfl := Option.some.inj ran
        obtain ⟨other, member, sameKey⟩ := List.mem_map.mp known
        have isOther : chosen node = other := names other (longer.sublist.subset member) node sameKey.symm
        rw [if_pos (isOther ▸ member)]
      · rename_i unknown
        have isNode : chosen node = node :=
          names node (((dfsAll_longer ran).trans longer).sublist.subset (by simp)) node rfl
        rw [isNode, if_neg fun member => unknown (List.mem_map_of_mem member)]
        exact all ran longer

omit [DecidableEq α] in
theorem acyclic_of_rank (rank : α → Nat) (falls : ∀ y, ∀ z ∈ deps y, rank z < rank y) :
    Acyclic deps := by
  intro y cycle
  have descends : ∀ z, TransGen (DependsOn deps) y z → rank z < rank y := by
    intro z path
    induction path with
    | single needs => exact falls y _ needs
    | tail _ needs ih => exact Nat.lt_trans (falls _ _ needs) ih
  exact Nat.lt_irrefl _ (descends y cycle)

omit [DecidableEq α] in
theorem rises_path (step : ∀ (a : Nat) u v, order[a]? = some u → v ∈ deps u →
    ∃ b : Nat, order[b]? = some v ∧
    a < b) {a : Nat} (atA : order[a]? = some u) (path : TransGen (DependsOn deps) u v) :
    ∃ b : Nat, order[b]? = some v ∧ a < b := by
  induction path with
  | single needs => exact step a u _ atA needs
  | tail _ needs ih =>
      obtain ⟨b, atB, lower⟩ := ih
      obtain ⟨c, atC, further⟩ := step b _ _ atB needs
      exact ⟨c, atC, Nat.lt_trans lower further⟩

section Positions

variable (acyclic : Acyclic deps) (ran : dfs deps id levels [] x = some order) {a b : Nat}

include ran in
theorem dfs_nodup : order.Nodup := by
  have distinct := dfs_distinct ran (by simp)
  rwa [List.map_id] at distinct

include acyclic ran in
theorem dfs_mem_iff : u ∈ order ↔ ReflTransGen (DependsOn deps) x u := by
  have walked := dfs_walked acyclic (fun w member => absurd member List.not_mem_nil) ran
  rw [walked.members]
  exact or_iff_right List.not_mem_nil

include acyclic ran in
theorem dfs_before_iff (atA : order[a]? = some u) (atB : order[b]? = some v) :
    b < a ↔ MetBefore deps x v u := by
  have walked := dfs_walked acyclic (fun w member => absurd member List.not_mem_nil) ran
  have reached := (dfs_mem_iff acyclic ran).mp (List.mem_of_getElem? atA)
  obtain ⟨before, rest, isOrder, met⟩ := walked.split u reached List.not_mem_nil
  obtain ⟨insideA, isU⟩ := List.getElem?_eq_some_iff.mp atA
  obtain ⟨insideB, isV⟩ := List.getElem?_eq_some_iff.mp atB
  have nodup := dfs_nodup ran
  have hereToo : order[before.length]? = some u := by simp [isOrder]
  obtain ⟨inside, isToo⟩ := List.getElem?_eq_some_iff.mp hereToo
  obtain rfl : a = before.length := nodup.getElem_inj_iff.mp (isU.trans isToo.symm)
  have member := met v
  rw [or_iff_right List.not_mem_nil] at member
  rw [← member]
  constructor
  · intro lower
    rw [isOrder, List.getElem?_append_left lower] at atB
    exact List.mem_of_getElem? atB
  · intro among
    obtain ⟨k, here⟩ := List.mem_iff_getElem?.mp among
    obtain ⟨lower, _⟩ := List.getElem?_eq_some_iff.mp here
    have there : order[k]? = some v := by rw [isOrder, List.getElem?_append_left lower, here]
    obtain ⟨insideK, isK⟩ := List.getElem?_eq_some_iff.mp there
    obtain rfl : b = k := nodup.getElem_inj_iff.mp (isV.trans isK.symm)
    exact lower

include acyclic ran in
/-- Every node comes before all that it depends on if and only if none depends on a node met before
it. -/
theorem dfs_topological_iff :
    (∀ (a : Nat) u v, order[a]? = some u → TransGen (DependsOn deps) u v → ∃ b : Nat, order[b]? = some v ∧ a < b) ↔
      ∀ u v, ReflTransGen (DependsOn deps) x u → v ∈ deps u → ¬ MetBefore deps x v u := by
  constructor
  · intro inOrder u v reached needs met
    obtain ⟨a, atA⟩ := List.mem_iff_getElem?.mp ((dfs_mem_iff acyclic ran).mpr reached)
    obtain ⟨b, atB, lower⟩ := inOrder a u v atA (.single needs)
    exact absurd ((dfs_before_iff acyclic ran atA atB).mpr met) (Nat.lt_asymm lower)
  · intro none_ a u v atA path
    refine rises_path (fun a u v atA needs => ?_) atA path
    have reached := (dfs_mem_iff acyclic ran).mp (List.mem_of_getElem? atA)
    obtain ⟨b, atB⟩ := List.mem_iff_getElem?.mp ((dfs_mem_iff acyclic ran).mpr (reached.tail needs))
    refine ⟨b, atB, Nat.lt_of_le_of_ne (Nat.le_of_not_lt fun lower => ?_) ?_⟩
    · exact none_ u v reached needs ((dfs_before_iff acyclic ran atA atB).mp lower)
    · rintro rfl
      obtain rfl := Option.some.inj (atA.symm.trans atB)
      exact acyclic u (.single needs)

end Positions

end Cos.Lib
