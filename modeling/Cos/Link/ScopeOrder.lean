import Cos.Lib.Traversal
import Cos.Link.LoadSteps
import Cos.Link.Interposition

/-! # The order of the symbol scope

The scope is searched in slot order, and `load_object` takes slots while it recurses through
the dependencies: the order is the depth-first one.  The graph the two orders are about has the
files as its nodes; files that `find_loaded` takes for one library have one key.
-/

namespace Cos.Link

open Cos.Elf Cos.Lib

/-- What `find_loaded` compares. -/
inductive LibKey where
  | main
  | soname (name : CString)
  | path (path : CString)
deriving DecidableEq

section Graph

variable (env : LoadEnv) (program : Program)

def Program.slotPath (program : Program) : CString := program.path.take maxPath

/-- The file behind a node; the program's is the one it was started from. -/
def nodeImage (path : CString) : Option ElfImage :=
  if path = program.slotPath then some program.image else env.files.image path

/-- The `SONAME` a node is registered with; the program has none. -/
def nodeSoname (path : CString) : CString :=
  if path = program.slotPath then [] else (env.files.image path).elim [] ElfImage.soname

def nodeKey (path : CString) : LibKey :=
  if path = program.slotPath then .main
  else if nodeSoname env program path = [] then .path path
  else .soname (nodeSoname env program path)

def nodeRequester (path : CString) (image : ElfImage) : Requester :=
  if image.isDynamic then ⟨path, image.dyn.runpath, image.dyn.rpath⟩ else ⟨path, [], []⟩

def Program.userPath (program : Program) : CString :=
  ((envValue program.envp libraryPathName).map (·.take maxPath)).getD []

/-- The files the `DT_NEEDED` entries of a node lead to. -/
def nodeNeeded (path : CString) : List CString :=
  match nodeImage env program path with
  | none => []
  | some image => image.needed.filterMap
      (resolveNeeded env.files env.searchPath program.userPath (some (nodeRequester path image)))

/-- The dependencies of a node; the program's preloads come before what it needs. -/
def nodeDeps (preloads : List CString) (path : CString) : List CString :=
  if path = program.slotPath then preloads ++ nodeNeeded env program path
  else nodeNeeded env program path

end Graph

/-- The paths of the objects in the order in which `scope_resolve` searches them. -/
def LinkNs.scopePaths (ns : LinkNs) : List CString :=
  ns.globalSlots.filterMap fun i => (ns.objs i).map LinkObj.path

def LinkNs.objectAt (ns : LinkNs) (path : CString) : Option ElfObject :=
  (slots.findSome? fun i => (ns.objs i).filter (·.path = path)).map LinkObj.obj

/-- The first definition along a list of objects: of the version asked for, or else any. -/
def definitionAlong (ns : LinkNs) (order : List CString) (symbol : Symbol) : Option SymVal :=
  let first (version : Option CString) := order.findSome? fun path =>
    (ns.objectAt path).bind fun obj => cosElfLookup obj symbol.name version
  (first symbol.version).or (if symbol.version.isSome then first none else none)

/-- The scope is searched in the given order, and every undefined symbol of every object was
bound to the first definition along it. -/
structure ScopeFollows (ns : LinkNs) (bindings : List Binding) (order : List CString) : Prop where
  searched : ns.scopePaths = order
  bound : ∀ binding ∈ bindings, ∀ slot sym symbol value, ns.objs binding.slot = some slot →
    RefersTo slot.obj binding.reloc sym symbol → binding.reloc.type ≠ .copy → sym.shndx = .undef →
    definitionAlong ns order symbol = some value → binding.value = value

def SkipsClean (env : LoadEnv) : List CString → LinkState → Prop
  | [], _ => True
  | one :: rest, state =>
      if one.head? ≠ some slash then SkipsClean env rest state
      else
        match loadObject env true (maxDepth - 1) (some 0) one state with
        | (none, after) => after.ns.objs = state.ns.objs ∧ SkipsClean env rest after
        | (some _, after) => SkipsClean env rest after

def loadBfs (env : LoadEnv) (program : Program) (preloads : List CString) : List CString :=
  bfsOrder (nodeDeps env program preloads) (nodeKey env program) maxObjects program.slotPath

/-- What the object loaded last among those with a dependency still to load needs next. -/
def lastNeeded (env : LoadEnv) (program : Program) (preloads order : List CString) :
    Option CString :=
  lastMissing (nodeDeps env program preloads) (nodeKey env program) order

section Loading

variable {env : LoadEnv} {program : Program} {ns other : LinkNs} {order after : List CString}

/-- The slots hold the objects of `order`, one after the other. -/
structure Registered (env : LoadEnv) (program : Program) (ns : LinkNs) (order : List CString) :
    Prop where
  paths : ∀ i, (ns.objs i).map LinkObj.path = order[i]?
  short : order.length ≤ maxObjects
  head : order[0]? = some program.slotPath
  nodup : order.Nodup
  global : ns.AllGlobal
  soname : ∀ i slot, ns.objs i = some slot → slot.soname = nodeSoname env program slot.path
  requester : ∀ i slot, ns.objs i = some slot →
    ∃ image, nodeImage env program slot.path = some image ∧
    slot.requester = nodeRequester slot.path image
  userPath : ns.userPath = program.userPath

/-- Same objects under the same names; what needs what may differ. -/
structure SameObjects (ns other : LinkNs) : Prop where
  slots : ∀ i, (other.objs i).map (fun slot => (slot.path, slot.soname, slot.obj, slot.global)) =
    (ns.objs i).map fun slot => (slot.path, slot.soname, slot.obj, slot.global)
  userPath : other.userPath = ns.userPath

theorem SameObjects.slot (same : SameObjects ns other) {i : Nat} {slot : LinkObj}
    (found : other.objs i = some slot) : ∃ original, ns.objs i = some original ∧
      slot.path = original.path ∧ slot.soname = original.soname ∧ slot.obj = original.obj ∧
      slot.global = original.global := by
  have views := same.slots i
  rw [found] at views
  cases here : ns.objs i with
  | none =>
      rw [here] at views
      contradiction
  | some original =>
      rw [here] at views
      simp only [Option.map_some, Option.some.injEq, Prod.mk.injEq] at views
      exact ⟨original, rfl, views.1, views.2.1, views.2.2.1, views.2.2.2⟩

theorem Registered.same (registered : Registered env program ns order)
    (same : SameObjects ns other) : Registered env program other order where
  paths := by
    intro i
    rw [← registered.paths i]
    have views := congrArg (Option.map Prod.fst) (same.slots i)
    rw [Option.map_map, Option.map_map] at views
    exact views
  short := registered.short
  head := registered.head
  nodup := registered.nodup
  global := by
    intro i slot found
    obtain ⟨original, here, _, _, _, global⟩ := same.slot found
    rw [global]
    exact registered.global i original here
  soname := by
    intro i slot found
    obtain ⟨original, here, path, soname, _, _⟩ := same.slot found
    rw [soname, path]
    exact registered.soname i original here
  requester := by
    intro i slot found
    obtain ⟨original, here, path, _, obj, _⟩ := same.slot found
    obtain ⟨image, file, requester⟩ := registered.requester i original here
    refine ⟨image, by rw [path]; exact file, ?_⟩
    rw [path, ← requester, LinkObj.requester, LinkObj.requester, path, obj]
  userPath := same.userPath.trans registered.userPath

theorem addNeed_sameObjects (ns : LinkNs) (i j : Nat) : SameObjects ns (ns.addNeed i j) where
  slots := by
    intro k
    simp only [LinkNs.addNeed]
    split
    · rw [Option.map_map]
      rfl
    · rfl
  userPath := rfl

theorem recordNeed_sameObjects (ns : LinkNs) (requester : Option Nat) (slot : Nat) :
    SameObjects ns (ns.recordNeed requester slot) := by
  cases requester with
  | none => exact ⟨fun _ => rfl, rfl⟩
  | some i =>
      simp only [LinkNs.recordNeed]
      split
      · exact ⟨fun _ => rfl, rfl⟩
      · exact addNeed_sameObjects ..

theorem promote_sameObjects (all : ns.AllGlobal) (i : Nat) :
    SameObjects ns (ns.updateSlot i ({ · with global := true })) where
  slots := by
    intro k
    rw [LinkNs.updateSlot, LinkNs.setSlot_objs]
    split
    · rename_i here
      subst here
      cases found : ns.objs k with
      | none => rfl
      | some slot => simp [all k slot found]
    · rfl
  userPath := rfl

theorem Registered.reuse (registered : Registered env program ns order) (requester : Option Nat)
    (existing : Nat) : Registered env program (ns.reuse true requester existing) order := by
  have recorded := registered.same (recordNeed_sameObjects ns requester existing)
  exact recorded.same (promote_sameObjects recorded.global existing)

theorem Registered.slot (registered : Registered env program ns order) {i : Nat} {path : CString}
    (here : order[i]? = some path) : ∃ slot, ns.objs i = some slot ∧ slot.path = path := by
  have paths := registered.paths i
  rw [here] at paths
  exact Option.map_eq_some_iff.mp paths

theorem Registered.inside (registered : Registered env program ns order) {i : Nat} {slot : LinkObj}
    (found : ns.objs i = some slot) : i < order.length ∧ order[i]? = some slot.path := by
  have paths := registered.paths i
  rw [found] at paths
  exact ⟨(List.getElem?_eq_some_iff.mp paths.symm).choose, paths.symm⟩

theorem Registered.mem_slots (registered : Registered env program ns order) {i : Nat}
    {slot : LinkObj} (found : ns.objs i = some slot) : i ∈ slots :=
  List.mem_range.mpr (Nat.lt_of_lt_of_le (registered.inside found).1 registered.short)

theorem nodeKey_main : nodeKey env program program.slotPath = .main := by simp [nodeKey]

theorem nodeKey_of_ne {path : CString} {image : ElfImage} (library : path ≠ program.slotPath)
    (file : env.files.image path = some image) :
    nodeKey env program path = if image.soname = [] then .path path else .soname image.soname := by
  simp [nodeKey, nodeSoname, library, file]

theorem findLoaded_none_iff (registered : Registered env program ns order) {path : CString}
    {image : ElfImage} (file : env.files.image path = some image) :
    findLoaded ns path image.soname = none ↔
    nodeKey env program path ∉ order.map (nodeKey env program) := by
  rw [findLoaded, List.find?_eq_none, ← not_iff_not]
  push Not
  constructor
  · rintro ⟨i, _, matched⟩
    cases found : ns.objs i with
    | none => simp [found] at matched
    | some slot =>
    rw [found, Option.any_some] at matched
    have member : slot.path ∈ order := List.mem_of_getElem? (registered.inside found).2
    refine List.mem_map.mpr ?_
    rcases of_decide_eq_true matched with samePath | ⟨named, sameName⟩
    · exact ⟨slot.path, member, by rw [samePath]⟩
    · by_cases isMain : path = program.slotPath
      · exact ⟨path, by rw [isMain]; exact List.mem_of_getElem? registered.head, rfl⟩
      · have soname := registered.soname i slot found
        have library : slot.path ≠ program.slotPath := by
          intro main
          rw [main] at soname
          simp only [nodeSoname, if_true] at soname
          exact named (sameName.symm.trans soname)
        refine ⟨slot.path, member, ?_⟩
        rw [nodeKey_of_ne isMain file, if_neg named, nodeKey, if_neg library, ← soname, sameName,
          if_neg named]
  · intro known
    obtain ⟨other, member, sameKey⟩ := List.mem_map.mp known
    obtain ⟨i, here⟩ := List.mem_iff_getElem?.mp member
    obtain ⟨slot, found, isPath⟩ := registered.slot here
    refine ⟨i, registered.mem_slots found, ?_⟩
    rw [found, Option.any_some]
    apply decide_eq_true
    by_cases isMain : path = program.slotPath
    · left
      rw [isPath, isMain]
      unfold nodeKey at sameKey
      split at sameKey
      · assumption
      · split at sameKey <;> contradiction
    · rw [nodeKey_of_ne isMain file] at sameKey
      have library : other ≠ program.slotPath := by
        intro main
        rw [main, nodeKey_main] at sameKey
        split at sameKey <;> contradiction
      have soname := registered.soname i slot found
      rw [nodeKey, if_neg library, ← isPath, ← soname] at sameKey
      by_cases unnamed : image.soname = []
      · left
        split at sameKey
        · exact LibKey.path.inj sameKey
        · contradiction
      · right
        split at sameKey
        · contradiction
        · exact ⟨unnamed, LibKey.soname.inj sameKey⟩

theorem allocSlot_eq (registered : Registered env program ns order) {i : Nat}
    (free : allocSlot ns = some i) : i = order.length ∧ order.length < maxObjects := by
  obtain ⟨empty, inside, earlier⟩ := List.find?_range_eq_some.mp free
  have paths := registered.paths i
  rw [Option.isNone_iff_eq_none.mp empty] at paths
  have beyond : order.length ≤ i := List.getElem?_eq_none_iff.mp paths.symm
  have vacant : (ns.objs order.length).isNone = true := by
    rw [Option.isNone_iff_eq_none, ← Option.map_eq_none_iff, registered.paths]
    exact List.getElem?_eq_none (Nat.le_refl _)
  refine ⟨Nat.le_antisymm (Nat.le_of_not_lt fun later => ?_) beyond,
    Nat.lt_of_le_of_lt beyond (List.mem_range.mp inside)⟩
  have skipped := earlier order.length later
  rw [vacant] at skipped
  contradiction

theorem allocBase_objs (ns : LinkNs) (span : Nat) :
    (allocBase ns span).2.objs = ns.objs ∧ (allocBase ns span).2.userPath = ns.userPath := by
  rw [allocBase]
  split <;> exact ⟨rfl, rfl⟩

theorem getElem?_snoc (order : List CString) (path : CString) (i : Nat) :
    (order ++ [path])[i]? = if i = order.length then some path else order[i]? := by
  rw [List.getElem?_append]
  split
  · rename_i inside
    rw [if_neg (Nat.ne_of_lt inside)]
  · split
    · rename_i here
      simp [here]
    · rw [List.getElem?_eq_none (by simp; omega), List.getElem?_eq_none (by omega)]

theorem Registered.setSlot (registered : Registered env program ns order) {slot : LinkObj}
    {image : ElfImage} (fresh : slot.path ∉ order) (room : order.length < maxObjects)
    (global : slot.global = true) (soname : slot.soname = nodeSoname env program slot.path)
    (file : nodeImage env program slot.path = some image)
    (requester : slot.requester = nodeRequester slot.path image) :
    Registered env program (ns.setSlot order.length (some slot)) (order ++ [slot.path]) := by
  have cases_ : ∀ i other, (ns.setSlot order.length (some slot)).objs i = some other →
      other = slot ∨ ns.objs i = some other := by
    intro i other found
    rw [LinkNs.setSlot_objs] at found
    split at found
    · exact .inl (Option.some.inj found).symm
    · exact .inr found
  constructor
  case paths =>
    intro i
    rw [getElem?_snoc, LinkNs.setSlot_objs]
    split
    · rfl
    · exact registered.paths i
  case short =>
    rw [List.length_append, List.length_singleton]
    exact room
  case head =>
    rw [List.getElem?_append_left]
    · exact registered.head
    · exact (List.getElem?_eq_some_iff.mp registered.head).choose
  case nodup =>
    refine List.nodup_append.mpr ⟨registered.nodup, List.nodup_singleton _, ?_⟩
    intro path member other isNew same
    rw [List.mem_singleton.mp isNew] at same
    exact fresh (same ▸ member)
  case global =>
    intro i other found
    rcases cases_ i other found with rfl | old
    · exact global
    · exact registered.global i other old
  case soname =>
    intro i other found
    rcases cases_ i other found with rfl | old
    · exact soname
    · exact registered.soname i other old
  case requester =>
    intro i other found
    rcases cases_ i other found with rfl | old
    · exact ⟨image, file, requester⟩
    · exact registered.requester i other old
  case userPath => exact registered.userPath

theorem mappedObject_requester {image : ElfImage} {path : CString} {slot : LinkObj}
    {bias minV maxV : Nat} {segs : List Seg} (isPath : slot.path = path)
    (isObj : slot.obj = mappedObject image bias minV maxV segs) :
    slot.requester = nodeRequester path image := by
  rw [LinkObj.requester, isObj, isPath, nodeRequester]
  cases dynamic : image.isDynamic <;> simp [mappedObject, dynamic, DynInfo.empty]

theorem Registered.map (registered : Registered env program ns order) {path : CString}
    {image : ElfImage} {info : ElfInfo} {requester : Option Nat} {state middle : LinkState}
    {i : Nat} (isNs : state.ns = ns) (file : env.files.image path = some image)
    (unknown : nodeKey env program path ∉ order.map (nodeKey env program))
    (ran : mapLibrary env path image info true requester state = (some i, middle)) :
    i = order.length ∧ Registered env program middle.ns (order ++ [path]) := by
  obtain ⟨obj, free, _, mapped, isMiddle, _⟩ := mapLibrary_some ran
  rw [isNs] at free
  obtain ⟨isSlot, room⟩ := allocSlot_eq registered free
  refine ⟨isSlot, ?_⟩
  have library : path ≠ program.slotPath := by
    intro main
    apply unknown
    rw [main]
    exact List.mem_map_of_mem (List.mem_of_getElem? registered.head)
  have moved : Registered env program (allocBase state.ns info.span).2 order := by
    obtain ⟨objs, userPath⟩ := allocBase_objs state.ns info.span
    exact registered.same ⟨fun k => by rw [objs, isNs], by rw [userPath, isNs]⟩
  obtain ⟨minV, maxV, segs, _, _, _, isObj⟩ := cosElfMap_some mapped
  have added := @Registered.setSlot env program _ order moved
    (newSlot (allocBase state.ns info.span).2 path image info true (allocBase state.ns info.span).1 obj) image
    (fun member => unknown (List.mem_map_of_mem member)) room rfl
    (by simp [newSlot, nodeSoname, library, file]) (by simp [newSlot, nodeImage, library, file])
    (mappedObject_requester rfl isObj)
  rw [isMiddle, isSlot]
  exact (added.same (recordNeed_sameObjects _ requester order.length)).same ⟨fun _ => rfl, rfl⟩

theorem Registered.resolve (registered : Registered env program ns order) {i : Nat} {path : CString}
    {image : ElfImage} (here : order[i]? = some path)
    (file : nodeImage env program path = some image) (name : CString) : resolveFrom env ns (some i) name =
      resolveNeeded env.files env.searchPath program.userPath (some (nodeRequester path image)) name := by
  obtain ⟨slot, found, isPath⟩ := registered.slot here
  obtain ⟨image', file', requester⟩ := registered.requester i slot found
  rw [isPath] at file' requester
  obtain rfl := Option.some.inj (file.symm.trans file')
  rw [resolveFrom, registered.userPath, Option.bind_some, found, Option.map_some, requester]

/-- A load that succeeds is a visit of the depth-first traversal. -/
def Traverses (env : LoadEnv) (program : Program)
    (load : CString → LinkState → Option Nat × LinkState)
    (visit : List CString → CString → Option (List CString)) : Prop :=
  ∀ path state i final order, load path state = (some i, final) →
    Registered env program state.ns order → ∃ after, visit order path = some after ∧ order <+:
      after ∧ Registered env program final.ns after

theorem loadNeeded_traverses {load : CString → LinkState → Option Nat × LinkState}
    {visit : List CString → CString → Option (List CString)}
    (loads : Traverses env program load visit) {i : Nat} {path : CString} {image : ElfImage}
    (file : nodeImage env program path = some image) {names : List CString}
    {state final : LinkState} (ran : loadNeeded env load i names state = (true, final))
    (here : order[i]? = some path) (registered : Registered env program state.ns order) :
    ∃ after, dfsAll visit (names.filterMap (resolveNeeded env.files env.searchPath program.userPath
        (some (nodeRequester path image)))) order = some after ∧ order <+: after ∧
      Registered env program final.ns after := by
  induction names generalizing state order with
  | nil =>
      obtain ⟨_, rfl⟩ := Prod.mk.inj ran
      exact ⟨order, rfl, List.prefix_rfl, registered⟩
  | cons name rest ih =>
      rw [loadNeeded, registered.resolve here file] at ran
      rw [List.filterMap_cons]
      cases resolved : resolveNeeded env.files env.searchPath program.userPath
          (some (nodeRequester path image)) name with
      | none =>
          rw [resolved] at ran
          exact absurd (Prod.mk.inj ran).1 (by simp)
      | some dep =>
          rw [resolved] at ran
          dsimp only at ran ⊢
          obtain ⟨result, loaded⟩ : ∃ result, load dep state = result := ⟨_, rfl⟩
          rw [loaded] at ran
          obtain ⟨slot, middle⟩ := result
          cases slot with
          | none => exact absurd (Prod.mk.inj ran).1 (by simp)
          | some j =>
              obtain ⟨between, visited, longer, registeredNow⟩ := loads dep state j middle order loaded registered
              obtain ⟨inside, _⟩ := List.getElem?_eq_some_iff.mp here
              have hereNow : between[i]? = some path := by
                obtain ⟨added, rfl⟩ := longer
                rw [List.getElem?_append_left inside, here]
              obtain ⟨after, visitedRest, longerStill, registeredLast⟩ := ih ran hereNow registeredNow
              exact ⟨after, by rw [dfsAll, visited]; exact visitedRest, longer.trans longerStill,
                registeredLast⟩

theorem loadObject_traverses (preloads : List CString) (levels : Nat) (requester : Option Nat) :
    Traverses env program (loadObject env true levels requester)
      (dfs (nodeDeps env program preloads) (nodeKey env program) levels) := by
  induction levels generalizing requester with
  | zero =>
      intro path state i final order ran
      exact (failed_ne ran).elim
  | succ levels ih =>
      intro path state i final order ran registered
      obtain ⟨image, info, file, _, outcome⟩ := loadObject_some ran
      rw [dfs]
      rcases outcome with ⟨loaded, rfl⟩ | ⟨unloaded, middle, mapped, needed⟩
      · have known : nodeKey env program path ∈ order.map (nodeKey env program) := by
          by_contra unknown
          rw [(findLoaded_none_iff registered file).mpr unknown] at loaded
          contradiction
        exact ⟨order, if_pos known, List.prefix_rfl, registered.reuse requester i⟩
      · have unknown := (findLoaded_none_iff registered file).mp unloaded
        obtain ⟨rfl, registeredNow⟩ := registered.map state.ticked_ns file unknown mapped
        have library : path ≠ program.slotPath := by
          intro main
          apply unknown
          rw [main]
          exact List.mem_map_of_mem (List.mem_of_getElem? registered.head)
        have node : nodeImage env program path = some image := by
          rw [nodeImage, if_neg library, file]
        obtain ⟨after, visited, longer, registeredLast⟩ :=
          loadNeeded_traverses (ih _) node needed (by simp) registeredNow
        refine ⟨after, ?_, (List.prefix_append ..).trans longer, registeredLast⟩
        rw [if_neg unknown, nodeDeps, if_neg library, nodeNeeded, node]
        exact visited

theorem loadObject_userPath (global : Bool) (levels : Nat) (requester : Option Nat) (path : CString)
    (state : LinkState) :
    (loadObject env global levels requester path state).2.ns.userPath = state.ns.userPath := by
  have invariant : LoadInvariant env global (fun _ => True)
      fun now => now.ns.userPath = state.ns.userPath := by
    constructor
    case needed => exact fun _ _ _ _ _ _ _ _ _ _ => trivial
    case tick => exact fun _ before => before
    case reuse =>
      intro now requester i _ before
      have recorded := (recordNeed_sameObjects now.ns requester i).userPath
      rw [← before, ← recorded, LinkNs.reuse]
      split <;> rfl
    case library =>
      intro now path image info requester _ _ _ _ before
      obtain ⟨_, userPath⟩ := allocBase_objs now.ns info.span
      obtain ⟨result, ran⟩ : ∃ result, mapLibrary env path image info global requester now = result :=
        ⟨_, rfl⟩
      rw [ran]
      obtain ⟨slot, after⟩ := result
      cases slot with
      | none =>
          rcases mapLibrary_none ran with rfl | rfl | rfl | ⟨_, _, isNs, _⟩
          · exact before
          · exact userPath.trans before
          · exact userPath.trans before
          · rw [isNs, userPath, before]
      | some i =>
          obtain ⟨obj, _, _, _, isNs, _⟩ := mapLibrary_some ran
          rw [isNs, ← before, ← userPath]
          exact (recordNeed_sameObjects _ requester i).userPath
  exact invariant.loadObject levels requester trivial rfl

theorem loadPreloads_traverses (preloads : List CString) {entries : List CString}
    {state : LinkState} (clean : SkipsClean env entries state)
    (registered : Registered env program state.ns order) : ∃ after, dfsAll (dfs (nodeDeps env program preloads) (nodeKey env program) (maxDepth - 1))
        (loadPreloads env entries state).1 order = some after ∧ order <+: after ∧
      Registered env program (loadPreloads env entries state).2.ns after := by
  induction entries generalizing state order with
  | nil => exact ⟨order, rfl, List.prefix_rfl, registered⟩
  | cons one rest ih =>
      rw [SkipsClean] at clean
      rw [loadPreloads]
      by_cases relative : one.head? ≠ some slash
      · rw [if_pos relative] at clean ⊢
        exact ih clean registered
      · rw [if_neg relative] at clean ⊢
        have userPath := @loadObject_userPath env true (maxDepth - 1) (some 0) one state
        obtain ⟨result, ran⟩ : ∃ result, loadObject env true (maxDepth - 1) (some 0) one state = result :=
          ⟨_, rfl⟩
        rw [ran] at clean userPath ⊢
        obtain ⟨slot, middle⟩ := result
        cases slot with
        | none =>
            obtain ⟨untouched, cleanRest⟩ := clean
            exact ih cleanRest (registered.same ⟨fun i => by rw [untouched], userPath⟩)
        | some i =>
            obtain ⟨between, visited, longer, registeredNow⟩ :=
              loadObject_traverses preloads _ _ one state i middle order ran registered
            obtain ⟨after, visitedRest, longerStill, registeredLast⟩ := ih clean registeredNow
            exact ⟨after, by rw [dfsAll, visited]; exact visitedRest, longer.trans longerStill,
              registeredLast⟩

theorem mapProgram_registered {pages : UserPages} {flag : Bool} {state : LinkState}
    (ran : mapProgram env program ⟨.fresh, pages, flag⟩ = (true, state)) :
    Registered env program state.ns [program.slotPath] := by
  rcases mapProgram_cases ran with ⟨failed, _⟩ | ⟨mapped, isMapped, succeeded, _, isNs⟩
  · contradiction
  · cases mapped with
    | none => contradiction
    | some obj =>
        obtain ⟨minV, maxV, segs, _, _, _, isObj⟩ := cosElfMap_some isMapped
        have objs : ∀ i, state.ns.objs i = if i = 0 then some (mainSlot .fresh program obj) else none := by
          intro i
          rw [isNs]
          exact LinkNs.setSlot_objs ..
        have only : ∀ i slot, state.ns.objs i = some slot → slot = mainSlot .fresh program obj := by
          intro i slot found
          rw [objs] at found
          split at found
          · exact (Option.some.inj found).symm
          · contradiction
        constructor
        case paths =>
          intro i
          rw [objs]
          cases i with
          | zero => rfl
          | succ i => simp
        case short => simp [maxObjects]
        case head => rfl
        case nodup => exact List.nodup_singleton _
        case global =>
          intro i slot found
          rw [only i slot found]
          rfl
        case soname =>
          intro i slot found
          rw [only i slot found]
          simp [mainSlot, LinkNs.fresh, nodeSoname, Program.slotPath]
        case requester =>
          intro i slot found
          rw [only i slot found]
          exact ⟨program.image, by simp [mainSlot, nodeImage, Program.slotPath],
            mappedObject_requester rfl isObj⟩
        case userPath =>
          rw [isNs]
          rfl

/-- What a program and its dependencies add to a fresh namespace is the depth-first order of the
graph. -/
theorem load_traverses {pages : UserPages} {flag : Bool} {state middle : LinkState}
    (mapped : mapProgram env program ⟨.fresh, pages, flag⟩ = (true, state))
    (clean : SkipsClean env program.preloads state)
    (needed : loadNeeded env (loadObject env true (maxDepth - 1) (some 0)) 0 program.image.needed
      (loadPreloads env program.preloads state).2 = (true, middle)) :
    ∃ order, dfsAll (dfs (nodeDeps env program (loadPreloads env program.preloads state).1) (nodeKey env program)
        (maxDepth - 1)) (nodeDeps env program (loadPreloads env program.preloads state).1 program.slotPath)
          [program.slotPath] = some order ∧ Registered env program middle.ns order := by
  obtain ⟨preloads, isPreloads⟩ :
    ∃ preloads, (loadPreloads env program.preloads state).1 = preloads := ⟨_, rfl⟩
  obtain ⟨between, preloaded, longer, registeredNow⟩ :=
    loadPreloads_traverses preloads clean (mapProgram_registered mapped)
  have node : nodeImage env program program.slotPath = some program.image := by simp [nodeImage]
  have headNow : between[0]? = some program.slotPath := registeredNow.head
  obtain ⟨order, visited, longerStill, registeredLast⟩ :=
    loadNeeded_traverses (loadObject_traverses preloads (maxDepth - 1) (some 0)) node needed headNow registeredNow
  rw [isPreloads] at preloaded ⊢
  have deps : nodeDeps env program preloads program.slotPath =
      preloads ++ program.image.needed.filterMap (resolveNeeded env.files env.searchPath
        program.userPath (some (nodeRequester program.slotPath program.image))) := by
    rw [nodeDeps, if_pos rfl, nodeNeeded, node]
  refine ⟨order, ?_, registeredLast⟩
  rw [deps, dfsAll_append, preloaded]
  exact visited

end Loading

section Search

variable {ns other : LinkNs} {order : List CString} {symbol : Symbol}

/-- The objects of `order` fill the slots from the first on, all of them in the scope. -/
structure Ordered (ns : LinkNs) (order : List CString) : Prop where
  paths : ∀ i, (ns.objs i).map LinkObj.path = order[i]?
  short : order.length ≤ maxObjects
  nodup : order.Nodup
  global : ns.AllGlobal

theorem Registered.ordered {env : LoadEnv} {program : Program}
    (registered : Registered env program ns order) : Ordered ns order :=
  ⟨registered.paths, registered.short, registered.nodup, registered.global⟩

theorem Ordered.used_iff (ordered : Ordered ns order) (i : Nat) :
    (ns.objs i).any LinkObj.global = decide (i < order.length) := by
  have paths := ordered.paths i
  cases here : ns.objs i with
  | none =>
      rw [here] at paths
      have outside := List.getElem?_eq_none_iff.mp paths.symm
      simp [Nat.not_lt.mpr outside]
  | some slot =>
      rw [here] at paths
      have inside := (List.getElem?_eq_some_iff.mp paths.symm).choose
      simp [ordered.global i slot here, inside]

theorem Ordered.globalSlots (ordered : Ordered ns order) :
    ns.globalSlots = List.range order.length := by
  rw [LinkNs.globalSlots, slots]
  simp only [ordered.used_iff]
  obtain ⟨extra, isExtra⟩ : ∃ extra, maxObjects = order.length + extra :=
    ⟨maxObjects - order.length, by have := ordered.short; omega⟩
  rw [isExtra, List.range_add, List.filter_append, List.filter_eq_self.mpr (by simp),
    List.filter_eq_nil_iff.mpr (by simp), List.append_nil]

theorem filterMap_range_getElem? (order : List CString) :
    (List.range order.length).filterMap (order[·]?) = order := by
  induction order with
  | nil => rfl
  | cons path rest ih =>
      rw [List.length_cons, List.range_succ_eq_map, List.filterMap_cons]
      simpa [List.filterMap_map, Function.comp_def] using ih

theorem Ordered.scopePaths (ordered : Ordered ns order) : ns.scopePaths = order := by
  rw [LinkNs.scopePaths, ordered.globalSlots]
  simp only [ordered.paths]
  exact filterMap_range_getElem? order

theorem Ordered.objectAt (ordered : Ordered ns order) {i : Nat} {slot : LinkObj}
    (found : ns.objs i = some slot) : ns.objectAt slot.path = some slot.obj := by
  have position := ordered.paths i
  rw [found] at position
  have inside : i < maxObjects :=
    Nat.lt_of_lt_of_le (List.getElem?_eq_some_iff.mp position.symm).choose ordered.short
  have exists_ : (slots.findSome? fun i => (ns.objs i).filter (·.path = slot.path)).isSome = true :=
    List.findSome?_isSome_iff.mpr ⟨i, List.mem_range.mpr inside, by simp [found]⟩
  obtain ⟨answer, isAnswer⟩ := Option.isSome_iff_exists.mp exists_
  obtain ⟨j, _, there⟩ := List.exists_of_findSome?_eq_some isAnswer
  obtain ⟨here, samePath⟩ := Option.filter_eq_some_iff.mp there
  have otherPosition := ordered.paths j
  rw [here, Option.map_some, of_decide_eq_true samePath] at otherPosition
  obtain ⟨insideI, atI⟩ := List.getElem?_eq_some_iff.mp position.symm
  obtain ⟨insideJ, atJ⟩ := List.getElem?_eq_some_iff.mp otherPosition.symm
  have same : i = j := (ordered.nodup.getElem_inj_iff).mp (atI.trans atJ.symm)
  rw [← same, found] at here
  rw [LinkNs.objectAt, isAnswer, ← here]
  rfl

theorem findSome?_filterMap {α : Type u} {β : Type v} {γ : Type w} (f : α → Option β)
    (g : β → Option γ) (xs : List α) :
    (xs.filterMap f).findSome? g = xs.findSome? fun x => (f x).bind g := by
  induction xs with
  | nil => rfl
  | cons x xs ih =>
      rw [List.filterMap_cons, List.findSome?_cons]
      cases f x with
      | none => exact ih
      | some y =>
          rw [List.findSome?_cons, ih]
          rfl

theorem Ordered.definitionAlong (ordered : Ordered ns order) :
    definitionAlong ns order symbol = scopeDefinition ns symbol := by
  have along (version : Option CString) : (order.findSome? fun path =>
      (ns.objectAt path).bind fun obj => cosElfLookup obj symbol.name version) =
        (firstDefinition ns ⟨symbol.name, version⟩).map Prod.snd := by
    rw [firstDefinition, List.map_findSome?]
    nth_rewrite 1 [← ordered.scopePaths]
    rw [LinkNs.scopePaths, findSome?_filterMap]
    congr 1
    funext i
    cases found : ns.objs i with
    | none => simp [found]
    | some slot =>
        simp only [Option.map_some, Option.bind_some, ordered.objectAt found, Function.comp_apply, found]
        rw [Option.map_map]
        exact Option.map_id'.symm
  rw [Link.definitionAlong, scopeDefinition]
  dsimp only
  rw [along, along, Option.map_or]
  split <;> rfl

theorem Ordered.same (ordered : Ordered ns order)
    (same : ∀ i, (other.objs i).map (fun slot => (slot.path, slot.global)) =
      (ns.objs i).map fun slot => (slot.path, slot.global)) : Ordered other order where
  paths := by
    intro i
    have views := congrArg (Option.map Prod.fst) (same i)
    rw [Option.map_map, Option.map_map] at views
    exact Eq.trans views (ordered.paths i)
  short := ordered.short
  nodup := ordered.nodup
  global := by
    intro i slot found
    have views := same i
    rw [found] at views
    cases here : ns.objs i with
    | none =>
        rw [here] at views
        contradiction
    | some original =>
        rw [here] at views
        exact (Prod.mk.inj (Option.some.inj views)).2.trans (ordered.global i original here)

theorem tlsLayout_places {used : List Nat} {offset maxAlign modid : Nat} {sizes : Nat × Nat × Nat}
    (ran : tlsLayout used offset maxAlign modid ns = some (other, sizes)) (i : Nat) :
    (other.objs i).map (fun slot => (slot.path, slot.global)) =
      (ns.objs i).map fun slot => (slot.path, slot.global) := by
  induction used generalizing offset maxAlign modid ns with
  | nil =>
      obtain ⟨rfl, _⟩ := Prod.mk.inj (Option.some.inj ran)
      rfl
  | cons j rest ih =>
      rw [tlsLayout] at ran
      cases found : ns.objs j with
      | none =>
          rw [found] at ran
          exact ih ran
      | some slot =>
          rw [found] at ran
          dsimp only at ran
          have placed (obj : ElfObject) :
              ((ns.setSlot j (some { slot with obj := obj })).objs i).map
                  (fun slot => (slot.path, slot.global)) =
                (ns.objs i).map fun slot => (slot.path, slot.global) := by
            rw [LinkNs.setSlot_objs]
            split
            · rename_i here
              rw [here, found]
              rfl
            · rfl
          split at ran
          · rw [ih ran, placed]
          · split at ran
            · contradiction
            · rw [ih ran, placed]

theorem startProgram_follows {env : LoadEnv} {state after : LinkState} {bindings : List Binding}
    (ordered : Ordered state.ns order) (ran : startProgram env state = (some bindings, after)) :
    ScopeFollows after.ns bindings order := by
  obtain ⟨ns, sizes, final, layout, relocated, isBindings, isObjs⟩ := startProgram_some ran
  have laidOut : Ordered ns order := ordered.same (tlsLayout_places layout)
  have start : GoodRecord ns (⟨state.pages.userMem, ns, [], 0, []⟩ : RelocState LinkNs) :=
    ⟨fun _ => rfl, fun _ member => by contradiction⟩
  have inside : ∀ i ∈ (List.range ns.count).reverse, i < ns.count := fun i member =>
    List.mem_range.mp (List.mem_reverse.mp member)
  obtain ⟨good, _, _⟩ := relocateSlots_record inside start relocated
  have sameTables : SameTables ns after.ns := fun i => by rw [isObjs]; exact good.tables i
  have atEnd : Ordered after.ns order := by
    refine laidOut.same fun i => ?_
    have tables := congrArg (Option.map fun entry => (entry.2.2, entry.2.1)) (sameTables i)
    rw [Option.map_map, Option.map_map] at tables
    exact tables
  refine ⟨atEnd.scopePaths, fun binding member slot sym symbol value found refers plain undefined
    definition => ?_⟩
  rw [atEnd.definitionAlong, sameTables.scopeDefinition] at definition
  rw [← isBindings] at member
  have tables := sameTables binding.slot
  rw [found] at tables
  cases here : ns.objs binding.slot with
  | none =>
      rw [here] at tables
      contradiction
  | some original =>
      rw [here] at tables
      have sameObj : slot.obj = original.obj := (Prod.mk.inj (Option.some.inj tables)).1
      rw [sameObj] at refers
      exact (good.bindings binding member).whole laidOut.global original sym symbol value here
        refers plain undefined definition

end Search

/-- A program whose skipped preloads leave nothing behind has a breadth-first scope exactly
when, at every object the breadth-first order adds, the object loaded last among those with
something left to load needs that object next. -/
theorem scopeBreadthFirst_iff {env : LoadEnv} {program : Program} {pages : UserPages}
    {loaded : Loaded} {after : LinkState}
    (ran : cosLinkLoadExecutable env program ⟨.fresh, pages, false⟩ = (some loaded, after))
    (clean : SkipsClean env program.preloads (mapProgram env program ⟨.fresh, pages, false⟩).2) :
    ScopeFollows after.ns loaded.bindings (loadBfs env program loaded.preloads) ↔
      ∀ k, 0 < k → k < (loadBfs env program loaded.preloads).length →
        lastNeeded env program loaded.preloads ((loadBfs env program loaded.preloads).take k) =
          (loadBfs env program loaded.preloads)[k]? := by
  rw [cosLinkLoadExecutable] at ran
  obtain ⟨result, mapped⟩ : ∃ result, mapProgram env program ⟨.fresh, pages, false⟩ = result :=
    ⟨_, rfl⟩
  rw [mapped] at ran clean
  obtain ⟨ok, state⟩ := result
  cases ok with
  | false => exact (failed_ne ran).elim
  | true =>
      dsimp only at ran
      obtain ⟨result, needed⟩ : ∃ result, loadNeeded env (loadObject env true (maxDepth - 1) (some 0)) 0
        program.image.needed (loadPreloads env program.preloads state).2 = result := ⟨_, rfl⟩
      rw [needed] at ran
      obtain ⟨ok, middle⟩ := result
      cases ok with
      | false => exact (failed_ne ran).elim
      | true =>
          dsimp only at ran
          split at ran
          · exact (failed_ne ran).elim
          · rename_i bindings final started
            obtain ⟨isLoaded, rfl⟩ := Prod.mk.inj ran
            obtain rfl := Option.some.inj isLoaded
            obtain ⟨order, whole, registeredLast⟩ := load_traverses mapped clean needed
            have follows := startProgram_follows registeredLast.ordered started
            obtain ⟨preloads, isPreloads⟩ : ∃ preloads, (loadPreloads env program.preloads state).1 = preloads :=
              ⟨_, rfl⟩
            rw [isPreloads] at whole
            obtain ⟨explored, complete⟩ := @dfsAll_explored _ _ _ (nodeDeps env program preloads)
              (nodeKey env program) order program.slotPath _ (fun _ _ _ ran asked =>
              dfs_explored ran asked) [] [] [] _ (by simp) rfl (by simp) whole
            have iff_ := explored_eq_bfsOrder_iff explored complete registeredLast.short
            rw [isPreloads]
            constructor
            · intro breadthFirst
              exact iff_.mp (follows.searched.symm.trans breadthFirst.searched)
            · intro asks
              rw [loadBfs, ← iff_.mpr asks]
              exact follows

/-- Loads `/p`, a program that needs the given libraries. -/
def plainLoad (needed : List CString) : Option Loaded × LinkState :=
  cosLinkLoadExecutable (plainEnv threeLibraries) (plainProgram needed) ⟨.fresh, noPages, false⟩

theorem plainLoad_some {needed : List CString}
    (ok : (plainLoad needed).1.map Loaded.preloads = some []) :
    ∃ loaded, plainLoad needed = (some loaded, (plainLoad needed).2) ∧ loaded.preloads = [] := by
  cases here : (plainLoad needed).1 with
  | none =>
      rw [here] at ok
      contradiction
  | some loaded =>
      rw [here] at ok
      exact ⟨loaded, Prod.ext here rfl, Option.some.inj ok⟩

/-- A program that needs only `/a`: its scope is `/p`, `/a`, `/c`. -/
theorem scopeBreadthFirst_chain : ∃ loaded after,
    cosLinkLoadExecutable (plainEnv threeLibraries) (plainProgram [[47, 97]])
      ⟨.fresh, noPages, false⟩ = (some loaded, after) ∧
    ScopeFollows after.ns loaded.bindings
      (loadBfs (plainEnv threeLibraries) (plainProgram [[47, 97]]) loaded.preloads) := by
  obtain ⟨loaded, ran, preloads⟩ := @plainLoad_some [[47, 97]] (by decide)
  refine ⟨loaded, _, ran, (scopeBreadthFirst_iff ran ?_).mpr ?_⟩
  · exact trivial
  · have steps : ∀ k < (loadBfs (plainEnv threeLibraries) (plainProgram [[47, 97]]) []).length,
        0 < k → lastNeeded (plainEnv threeLibraries) (plainProgram [[47, 97]]) []
          ((loadBfs (plainEnv threeLibraries) (plainProgram [[47, 97]]) []).take k) =
        (loadBfs (plainEnv threeLibraries) (plainProgram [[47, 97]]) [])[k]? := by
      decide
    rw [preloads]
    exact fun k positive inside => steps k inside positive

/-- A program that needs `/a` and `/b`: `/c`, which `/a` needs, comes before `/b`. -/
theorem scopeBreadthFirst_fails : ∃ loaded after,
    cosLinkLoadExecutable (plainEnv threeLibraries) (plainProgram [[47, 97], [47, 98]])
      ⟨.fresh, noPages, false⟩ = (some loaded, after) ∧
    ¬ ScopeFollows after.ns loaded.bindings
      (loadBfs (plainEnv threeLibraries) (plainProgram [[47, 97], [47, 98]]) loaded.preloads) := by
  obtain ⟨loaded, ran, preloads⟩ := @plainLoad_some [[47, 97], [47, 98]] (by decide)
  refine ⟨loaded, _, ran, fun follows => ?_⟩
  have depthFirst : (plainLoad [[47, 97], [47, 98]]).2.ns.scopePaths =
      [[47, 112], [47, 97], [47, 99], [47, 98]] := by decide
  have breadthFirst : loadBfs (plainEnv threeLibraries) (plainProgram [[47, 97], [47, 98]]) [] =
      [[47, 112], [47, 97], [47, 98], [47, 99]] := by decide
  have same := follows.searched
  rw [preloads, depthFirst, breadthFirst] at same
  contradiction

end Cos.Link
