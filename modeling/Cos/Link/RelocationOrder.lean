import Cos.Lib.Preorder
import Cos.Link.NextOrder
import Cos.Link.ScopeOrder

/-! # The order of relocation

`relocate_all` goes from the last slot to the first.  Objects are registered before what they need,
so this relocates a library before its dependents as long as none of these needs a file that the
depth-first walk through the `DT_NEEDED` entries has met before.
-/

namespace Cos.Link

open Cos.Elf Cos.Lib Relation

/-- The slots in the order in which `relocate_all` goes through them. -/
def relocationOrder (ns : LinkNs) : List Nat := (List.range ns.count).reverse

/-- The object in slot `b` is relocated before the one in slot `a`. -/
def RelocatedBefore (ns : LinkNs) (b a : Nat) : Prop := [b, a].Sublist (relocationOrder ns)

/-- What `cos_link_load_executable` has mapped when it goes on to TLS and relocation. -/
def linkedState (env : LoadEnv) (program : Program) (state : LinkState) : Option LinkState :=
  match mapProgram env program state with
  | (false, _) => none
  | (true, state) =>
      match loadNeeded env (loadObject env true (maxDepth - 1) (some 0)) 0 program.image.needed
          (loadPreloads env program.preloads state).2 with
      | (false, _) => none
      | (true, state) => some state

/-- The namespace in which `cos_link_load_executable` calls `relocate_all`. -/
def relocationStart (env : LoadEnv) (program : Program) (state : LinkState) : Option LinkNs :=
  (linkedState env program state).bind fun linked =>
    (tlsLayout (List.range linked.ns.count) 0 8 0 linked.ns).map (·.1)

/-- What a `COPY` relocation of the object in slot `a` asks for. -/
def copyRequest (a : Nat) (obj : ElfObject) (symIndex : Nat) : Option SymReq :=
  if symIndex = 0 then none
  else (readSym obj symIndex).bind fun sym => sym.name.map fun name =>
    ⟨name, symVersion obj sym, a, true⟩

def copySource (ns : LinkNs) (a : Nat) (obj : ElfObject) (symIndex : Nat) : Option (Nat × SymVal) :=
  (copyRequest a obj symIndex).bind fun req => scopeSearch ns req (some a)

section Graph

variable (env : LoadEnv) (program : Program) (preloads : List CString)

/-- The files that are loaded: the program, its preloads and what they need. -/
def loadDfs : List CString :=
  (dfs (nodeDeps env program preloads) (nodeKey env program) maxDepth [] program.slotPath).getD []

/-- The loaded file that `find_loaded` finds for a path. -/
def loadedFile (path : CString) : CString :=
  ((loadDfs env program preloads).find? fun file => nodeKey env program file =
    nodeKey env program path).getD path

/-- The `DT_NEEDED` graph of the loaded files. -/
def fileDeps (path : CString) : List CString :=
  (nodeDeps env program preloads path).map (loadedFile env program preloads)

/-- Every object is relocated after all it depends on, and what a `COPY` relocation copied was
relocated before. -/
structure RelocatesInOrder (ns : LinkNs) (bindings : List Binding) : Prop where
  dependencies : ∀ a slot file, ns.objs a = some slot →
    TransGen (DependsOn (fileDeps env program preloads)) slot.path file →
    ∃ b other, ns.objs b = some other ∧ other.path = file ∧ RelocatedBefore ns b a
  copies : ∀ binding ∈ bindings, binding.reloc.type = .copy → binding.value.size ≠ 0 →
    ∃ slot k, ns.objs binding.slot = some slot ∧
      copySource ns binding.slot slot.obj binding.reloc.sym = some (k, binding.value) ∧
      RelocatedBefore ns k binding.slot

/-- No loaded file needs one that the walk from the program meets before it. -/
def NeedsMetLater : Prop := ∀ file dep,
  ReflTransGen (DependsOn (fileDeps env program preloads)) program.slotPath file →
    dep ∈ fileDeps env program preloads file →
    ¬ MetBefore (fileDeps env program preloads) program.slotPath dep file

/-- No `COPY` relocation asks for something that a file met before defines first. -/
def CopiesMetLater (ns : LinkNs) : Prop := ∀ a slot rel k other value, ns.objs a = some slot →
  rel ∈ slot.obj.relocs → rel.type = .copy → copySource ns a slot.obj rel.sym = some (k, value) →
  ns.objs k = some other → value.size ≠ 0 →
  ¬ MetBefore (fileDeps env program preloads) program.slotPath other.path slot.path

end Graph

/-- No `COPY` relocation asks for something that an object in a lower slot defines first. -/
def LinkNs.CopiesRise (ns : LinkNs) : Prop :=
  ∀ a slot rel k value, ns.objs a = some slot → rel ∈ slot.obj.relocs → rel.type = .copy →
    copySource ns a slot.obj rel.sym = some (k, value) → value.size ≠ 0 → a < k

section Start

variable {env : LoadEnv} {program : Program} {pages : UserPages}

theorem relocatedBefore_iff {ns : LinkNs} {a b : Nat} :
    RelocatedBefore ns b a ↔ a < b ∧ b < ns.count := by
  have asRange : RelocatedBefore ns b a ↔ [a, b].Sublist (List.range ns.count) := by
    rw [RelocatedBefore, relocationOrder, ← List.reverse_sublist, List.reverse_reverse]
    rfl
  rw [asRange]
  constructor
  · intro inside
    have sorted := List.pairwise_lt_range.sublist inside
    exact ⟨List.rel_of_pairwise_cons sorted (by simp), List.mem_range.mp (inside.subset (by simp))⟩
  · rintro ⟨below, inside⟩
    refine List.sublist_of_subperm_of_pairwise (r := (· < ·)) ?_ (by simpa using below)
      List.pairwise_lt_range
    refine List.subperm_of_subset (by simpa using below.ne) fun i member => List.mem_range.mpr ?_
    rcases List.mem_pair.mp member with rfl | rfl
    · exact below.trans inside
    · exact inside

theorem linkedState_holds {holds : LinkState → Prop}
    (loading : LoadInvariant env true (fun _ => True) holds)
    {state linked : LinkState}
    (mapped : ∀ middle, mapProgram env program state = (true, middle) → holds middle)
    (ran : linkedState env program state = some linked) : holds linked := by
  rw [linkedState] at ran
  split at ran
  · contradiction
  · rename_i middle isMapped
    have preloaded := @LoadInvariant.loadPreloads env _ _ loading program.preloads
      (fun _ _ => trivial) middle (mapped middle isMapped)
    have needed := @loadNeeded_invariant env (fun _ => True) holds
      (loadObject env true (maxDepth - 1) (some 0))
      (fun _ _ isWanted held => loading.loadObject (maxDepth - 1) (some 0) isWanted held) 0
      program.image.needed (fun _ _ _ _ _ _ => trivial) _ preloaded
    split at ran
    · contradiction
    · rename_i last isLast
      rw [isLast] at needed
      obtain rfl := Option.some.inj ran
      exact needed

theorem LinkInvariant.relocationStart {holds : LinkNs → Prop} (invariant : LinkInvariant holds)
    {flag : Bool} {ns : LinkNs}
    (ran : relocationStart env program ⟨.fresh, pages, flag⟩ = some ns) : holds ns := by
  obtain ⟨linked, isLinked, layout⟩ := Option.bind_eq_some_iff.mp ran
  obtain ⟨⟨laidOut, sizes⟩, isLayout, rfl⟩ := Option.map_eq_some_iff.mp layout
  have held := linkedState_holds (invariant.loading env true) (fun middle mapped => by
    have kept := @LinkInvariant.mapProgram holds ⟨.fresh, pages, flag⟩ env invariant program
      invariant.fresh
    rw [mapped] at kept
    exact kept) isLinked
  exact invariant.same linked.ns laidOut (tlsLayout_view (fun _ _ _ => rfl) isLayout)
    (tlsLayout_cursors isLayout).1 (tlsLayout_cursors isLayout).2.1 (tlsLayout_cursors isLayout).2.2
    held

end Start

section Copies

variable {ns other : LinkNs} {req : SymReq}

theorem SameTables.searchSlots (same : SameTables ns other) (version : Option CString)
    (order : List Nat) :
    searchSlots other req version order = searchSlots ns req version order := by
  rw [Link.searchSlots, Link.searchSlots]
  congr 1
  funext i
  split
  · rfl
  · have tables := same i
    cases here : ns.objs i with
    | none =>
        cases there : other.objs i with
        | none => rfl
        | some slot' =>
            rw [here, there] at tables
            contradiction
    | some slot =>
        obtain ⟨slot', there, sameObj⟩ := same.obj here
        rw [there, Option.bind_some, Option.bind_some, sameObj]

theorem SameTables.scopeSearch (same : SameTables ns other) (all : ns.AllGlobal)
    (asker : Option Nat) : scopeSearch other req asker = scopeSearch ns req asker := by
  have passes : ∀ version, (Link.searchSlots other req version other.globalSlots).or
      (Link.searchSlots other req version (other.closureSlots asker)) =
        (Link.searchSlots ns req version ns.globalSlots).or
          (Link.searchSlots ns req version (ns.closureSlots asker)) := by
    intro version
    rw [searchSlots_closure all, searchSlots_closure (same.allGlobal all), same.searchSlots,
      same.globalSlots]
  rw [Link.scopeSearch, Link.scopeSearch]
  simp only [passes]

theorem resolveForReloc_copy {a : Nat} {obj : ElfObject} {symIndex : Nat} {scope after : LinkNs}
    {value : SymVal} {isWeak isIfunc : Bool} (used : (scope.objs a).isSome)
    (resolved : resolveForReloc (scopeResolve none) a obj symIndex .copy scope =
      (some (value, isWeak, isIfunc), after)) :
    (copySource scope a obj symIndex = none ∧ value.size = 0) ∨
      ∃ k, copySource scope a obj symIndex = some (k, value) := by
  rw [resolveForReloc] at resolved
  split at resolved
  · rename_i unnamed
    obtain rfl := (Prod.mk.inj (Option.some.inj (Prod.mk.inj resolved).1)).1
    exact .inl ⟨by rw [copySource, copyRequest, if_pos unnamed, Option.bind_none], rfl⟩
  · rename_i named
    cases entry : readSym obj symIndex with
    | none =>
        rw [entry] at resolved
        exact (failed_ne resolved).elim
    | some sym =>
        rw [entry] at resolved
        dsimp only at resolved
        rw [if_neg fun both => both.2 rfl] at resolved
        cases isName : sym.name with
        | none =>
            rw [isName] at resolved
            exact (failed_ne resolved).elim
        | some name =>
            rw [isName] at resolved
            have request : copyRequest a obj symIndex = some ⟨name, symVersion obj sym, a, true⟩ := by
              rw [copyRequest, if_neg named, entry, Option.bind_some, isName, Option.map_some]
            have source : copySource scope a obj symIndex =
                scopeSearch scope ⟨name, symVersion obj sym, a, true⟩ (some a) := by
              rw [copySource, request, Option.bind_some]
            have answer : (scopeResolve none ⟨name, symVersion obj sym, a, true⟩ scope).1 =
                (scopeSearch scope ⟨name, symVersion obj sym, a, true⟩ (some a)).map (·.2) := by
              rw [scopeResolve]
              simp only [reduceCtorEq, false_and, if_false, used, if_true]
              cases scopeSearch scope ⟨name, symVersion obj sym, a, true⟩ (some a) <;> rfl
            have copies : (RelocType.copy == RelocType.copy) = true := rfl
            have version : (if obj.dyn.hasVersym = true then versionNameForIndex obj sym.versym
              else none) = symVersion obj sym := rfl
            simp only [version, copies] at resolved
            cases result : scopeResolve none ⟨name, symVersion obj sym, a, true⟩ scope with
            | mk found last =>
                rw [result] at resolved answer
                cases found with
                | some answered =>
                    obtain rfl := (Prod.mk.inj (Option.some.inj (Prod.mk.inj resolved).1)).1
                    obtain ⟨⟨k, _⟩, searched, rfl⟩ := Option.map_eq_some_iff.mp answer.symm
                    exact .inr ⟨k, source.trans searched⟩
                | none =>
                    dsimp only at resolved
                    split at resolved
                    · obtain rfl := (Prod.mk.inj (Option.some.inj (Prod.mk.inj resolved).1)).1
                      exact .inl ⟨source.trans (Option.map_eq_none_iff.mp answer.symm), rfl⟩
                    · exact (failed_ne resolved).elim

/-- Every binding on record is of an entry of its object, and a copy has the value of its source. -/
structure CopyRecord (ns : LinkNs) (state : RelocState LinkNs) : Prop where
  tables : SameTables ns state.scope
  copies : ∀ binding ∈ state.bindings, ∃ slot, ns.objs binding.slot = some slot ∧
    Listed slot.obj binding.reloc ∧ (binding.reloc.type = .copy →
      (copySource ns binding.slot slot.obj binding.reloc.sym = none ∧ binding.value.size = 0) ∨
        ∃ k, copySource ns binding.slot slot.obj binding.reloc.sym = some (k, binding.value))

theorem copyRecord_invariant (all : ns.AllGlobal) {i : Nat} {slot : LinkObj}
    (found : ns.objs i = some slot) :
    RecordInvariant (scopeResolve none) i slot.obj (CopyRecord ns) where
  same := by
    intro state after same record
    exact ⟨by rw [same.scope]; exact record.tables, by rw [same.bindings]; exact record.copies⟩
  bind := by
    intro state after rel value isWeak isIfunc scope listed _ resolved newScope newBindings record
    have kept := @resolveForReloc_same i slot.obj rel.sym rel.type state.scope
    rw [resolved] at kept
    refine ⟨by rw [newScope]; exact record.tables.trans kept, fun binding member => ?_⟩
    rw [newBindings] at member
    rcases List.mem_append.mp member with earlier | latest
    · exact record.copies binding earlier
    · obtain rfl := List.mem_singleton.mp latest
      refine ⟨slot, found, listed, fun isCopy => ?_⟩
      obtain ⟨other, there, _⟩ := record.tables.obj found
      rw [isCopy] at resolved
      have source : copySource state.scope i slot.obj rel.sym = copySource ns i slot.obj rel.sym := by
        rw [copySource, copySource]
        congr 1
        funext req
        exact record.tables.scopeSearch all (some i)
      rw [← source]
      exact resolveForReloc_copy (by rw [there]; rfl) resolved

theorem relocateSlots_holds {holds : RelocState LinkNs → Prop} {order : List Nat}
    {state after : RelocState LinkNs} (tables : ∀ state, holds state → SameTables ns state.scope)
    (each : ∀ i slot, ns.objs i = some slot → RecordInvariant (scopeResolve none) i slot.obj holds)
    (before : holds state) (relocated : relocateSlots none order state = .ok after) :
    holds after := by
  induction order generalizing state with
  | nil =>
      obtain rfl := Except.ok.inj relocated
      exact before
  | cons i rest ih =>
      rw [relocateSlots] at relocated
      have same := tables state before
      cases here : ns.objs i with
      | none =>
          have there : state.scope.objs i = none := by
            have views := same i
            rw [here] at views
            exact Option.map_eq_none_iff.mp views
          rw [there] at relocated
          exact ih before relocated
      | some slot =>
          obtain ⟨current, there, sameObj⟩ := same.obj here
          rw [there] at relocated
          dsimp only at relocated
          rw [sameObj] at relocated
          cases one : cosElfRelocate (scopeResolve none) i slot.obj state with
          | error failed =>
              rw [one] at relocated
              contradiction
          | ok middle =>
              rw [one] at relocated
              exact ih ((each i slot here).cosElfRelocate one before) relocated

end Copies

section Order

variable {ns : LinkNs}

theorem copySource_found {a k : Nat} {obj : ElfObject} {symIndex : Nat} {value : SymVal}
    (all : ns.AllGlobal) (source : copySource ns a obj symIndex = some (k, value)) :
    (ns.objs k).isSome ∧ k ≠ a := by
  obtain ⟨req, isRequest, searched⟩ := Option.bind_eq_some_iff.mp source
  obtain ⟨isCopy, isAsker⟩ : req.copy = true ∧ req.requester = a := by
    rw [copyRequest] at isRequest
    split at isRequest
    · contradiction
    · obtain ⟨sym, _, named⟩ := Option.bind_eq_some_iff.mp isRequest
      obtain ⟨name, _, rfl⟩ := Option.map_eq_some_iff.mp named
      exact ⟨rfl, rfl⟩
  have found : ∀ version, Link.searchSlots ns req version ns.globalSlots = some (k, value) →
      (ns.objs k).isSome ∧ k ≠ a := by
    intro version search
    obtain ⟨i, member, here⟩ := List.exists_of_findSome?_eq_some search
    split at here
    · contradiction
    · rename_i other
      obtain ⟨slot, used, lookup⟩ := Option.bind_eq_some_iff.mp here
      obtain ⟨_, _, isPair⟩ := Option.map_eq_some_iff.mp lookup
      obtain rfl := (Prod.mk.inj isPair).1
      exact ⟨by rw [used]; rfl, fun same => other ⟨isCopy, same.trans isAsker.symm⟩⟩
  rw [scopeSearch] at searched
  simp only [searchSlots_closure all, Option.or_none] at searched
  split at searched
  · rcases Option.or_eq_some_iff.mp searched with first | ⟨_, second⟩
    · exact found _ first
    · exact found _ second
  · exact found _ searched

theorem copies_iff (all : ns.AllGlobal) (count : CountSound ns) {mem : UserMem}
    {after : RelocState LinkNs} (relocated : relocateAll ⟨mem, ns, [], 0, []⟩ = .ok after) :
    (∀ binding ∈ after.bindings, binding.reloc.type = .copy → binding.value.size ≠ 0 →
      ∃ slot k, ns.objs binding.slot = some slot ∧
        copySource ns binding.slot slot.obj binding.reloc.sym = some (k, binding.value) ∧
        RelocatedBefore ns k binding.slot) ↔ ns.CopiesRise := by
  have record : CopyRecord ns after := by
    refine relocateSlots_holds (fun _ record => record.tables)
      (fun i slot here => copyRecord_invariant all here) ?_ relocated
    exact ⟨fun _ => rfl, fun _ member => by contradiction⟩
  constructor
  · intro inOrder a slot rel k value here entry isCopy source copied
    have inside : a < ns.count := count.inCount a (by rw [here]; rfl)
    have good : GoodRecord ns (⟨mem, ns, [], 0, []⟩ : RelocState LinkNs) :=
      ⟨fun _ => rfl, fun _ member => by contradiction⟩
    obtain ⟨_, _, recorded⟩ := relocateSlots_record
      (fun i member => List.mem_range.mp (List.mem_reverse.mp member)) good relocated
    have names : rel.type.NamesSymbol := by simp [isCopy, RelocType.NamesSymbol]
    obtain ⟨binding, member, rfl, sameSym, sameType⟩ :=
      recorded a (List.mem_reverse.mpr (List.mem_range.mpr inside)) slot rel here entry names
    rw [isCopy] at sameType
    obtain ⟨original, there, _, known⟩ := record.copies binding member
    obtain rfl := Option.some.inj (here.symm.trans there)
    rw [sameSym] at known
    have isValue : binding.value = value := by
      rcases known sameType with ⟨nothing, _⟩ | ⟨_, again⟩
      · rw [source] at nothing
        contradiction
      · exact (Prod.mk.inj (Option.some.inj (again.symm.trans source))).2
    obtain ⟨second, j, isSecond, sourceToo, before⟩ :=
      inOrder binding member sameType (isValue ▸ copied)
    obtain rfl := Option.some.inj (here.symm.trans isSecond)
    rw [sameSym, source] at sourceToo
    obtain ⟨rfl, _⟩ := Prod.mk.inj (Option.some.inj sourceToo)
    exact (relocatedBefore_iff.mp before).1
  · intro rise binding member isCopy copied
    obtain ⟨slot, here, ⟨entry, inTable, sameSym, sameType⟩, known⟩ := record.copies binding member
    obtain ⟨k, source⟩ := (known isCopy).resolve_left fun nothing => copied nothing.2
    refine ⟨slot, k, here, source,
      relocatedBefore_iff.mpr ⟨?_, count.inCount k (copySource_found all source).1⟩⟩
    rw [← sameSym] at source
    exact rise binding.slot slot entry k binding.value here inTable (sameType.trans isCopy) source
      copied

theorem load_ordered {env : LoadEnv} {program : Program} {pages : UserPages} {loaded : Loaded}
    {after : LinkState}
    (ran : cosLinkLoadExecutable env program ⟨.fresh, pages, false⟩ = (some loaded, after))
    (clean : SkipsClean env program.preloads (mapProgram env program ⟨.fresh, pages, false⟩).2) :
    ∃ ns mem final order, relocationStart env program ⟨.fresh, pages, false⟩ = some ns ∧
      relocateAll ⟨mem, ns, [], 0, []⟩ = .ok final ∧ final.bindings = loaded.bindings ∧
      Ordered ns order ∧
      dfs (nodeDeps env program loaded.preloads) (nodeKey env program) maxDepth []
      program.slotPath = some order := by
  rw [cosLinkLoadExecutable] at ran
  obtain ⟨result, mapped⟩ : ∃ result, mapProgram env program ⟨.fresh, pages, false⟩ = result :=
    ⟨_, rfl⟩
  rw [mapped] at ran clean
  obtain ⟨ok, state⟩ := result
  cases ok with
  | false => exact (failed_ne ran).elim
  | true =>
      dsimp only at ran
      obtain ⟨result, needed⟩ : ∃ result, loadNeeded env (loadObject env true (maxDepth - 1) (some 0)) 0
        program.image.needed (loadPreloads env program.preloads state).2 = result := ⟨_, rfl⟩
      rw [needed] at ran
      obtain ⟨ok, linked⟩ := result
      cases ok with
      | false => exact (failed_ne ran).elim
      | true =>
          dsimp only at ran
          split at ran
          · exact (failed_ne ran).elim
          · rename_i bindings final started
            obtain ⟨isLoaded, rfl⟩ := Prod.mk.inj ran
            obtain rfl := Option.some.inj isLoaded
            obtain ⟨order, whole, registered⟩ := load_traverses mapped clean needed
            obtain ⟨ns, sizes, final, layout, relocated, isBindings, _⟩ := startProgram_some started
            have isLinked : linkedState env program ⟨.fresh, pages, false⟩ = some linked := by
              rw [linkedState, mapped]
              dsimp only
              rw [needed]
            refine ⟨ns, linked.pages.userMem, final, order, ?_, relocated, isBindings, ?_, ?_⟩
            · rw [relocationStart, isLinked, Option.bind_some, layout, Option.map_some]
            · exact registered.ordered.same (tlsLayout_places layout)
            · rw [show maxDepth = maxDepth - 1 + 1 from rfl, dfs]
              exact whole

section Files

variable {env : LoadEnv} {program : Program} {preloads order : List CString}

/-- The loaded files in the order of their slots are the depth-first walk of their graph. -/
theorem fileDeps_walk (ran : dfs (nodeDeps env program preloads) (nodeKey env program) maxDepth []
    program.slotPath = some order) :
    dfs (fileDeps env program preloads) id maxDepth [] program.slotPath = some order := by
  have isOrder : loadDfs env program preloads = order := by rw [loadDfs, ran, Option.getD_some]
  have distinct := dfs_distinct ran (by simp)
  have names : ∀ file ∈ order, ∀ path, nodeKey env program path = nodeKey env program file →
      loadedFile env program preloads path = file := by
    intro file member path sameKey
    have found : (order.find? fun other => nodeKey env program other =
      nodeKey env program path).isSome :=
      List.find?_isSome.mpr ⟨file, member, decide_eq_true sameKey.symm⟩
    obtain ⟨other, isOther⟩ := Option.isSome_iff_exists.mp found
    have matched := List.find?_some isOther
    have otherKey := of_decide_eq_true matched
    rw [loadedFile, isOrder, isOther, Option.getD_some]
    exact List.inj_on_of_nodup_map distinct (List.mem_of_find?_eq_some isOther) member
      (otherKey.trans sameKey)
  have walk := dfs_renamed names ran List.prefix_rfl
  rwa [names program.slotPath (dfs_root_mem ran) program.slotPath rfl] at walk

variable {ns : LinkNs}

theorem Ordered.slot (ordered : Ordered ns order) {i : Nat} {path : CString}
    (here : order[i]? = some path) : ∃ slot, ns.objs i = some slot ∧ slot.path = path := by
  have paths := ordered.paths i
  rw [here] at paths
  exact Option.map_eq_some_iff.mp paths

theorem Ordered.position (ordered : Ordered ns order) {i : Nat} {slot : LinkObj}
    (found : ns.objs i = some slot) : order[i]? = some slot.path := by
  rw [← ordered.paths i, found, Option.map_some]

variable (acyclic : Acyclic (fileDeps env program preloads)) (ordered : Ordered ns order)
variable (walk : dfs (fileDeps env program preloads) id maxDepth [] program.slotPath = some order)

include acyclic ordered walk in
theorem dependencies_iff (count : CountSound ns) :
    (∀ a slot file, ns.objs a = some slot →
      TransGen (DependsOn (fileDeps env program preloads)) slot.path file →
      ∃ b other, ns.objs b = some other ∧ other.path = file ∧
      RelocatedBefore ns b a) ↔ NeedsMetLater env program preloads := by
  rw [NeedsMetLater, ← dfs_topological_iff acyclic walk]
  constructor
  · intro inOrder a one file atA path
    obtain ⟨slot, here, rfl⟩ := ordered.slot atA
    obtain ⟨b, other, there, rfl, before⟩ := inOrder a slot file here path
    exact ⟨b, ordered.position there, (relocatedBefore_iff.mp before).1⟩
  · intro rises a slot file here path
    obtain ⟨b, atB, below⟩ := rises a slot.path file (ordered.position here) path
    obtain ⟨other, there, isFile⟩ := ordered.slot atB
    exact ⟨b, other, there, isFile,
      relocatedBefore_iff.mpr ⟨below, count.inCount b (by rw [there]; rfl)⟩⟩

include acyclic ordered walk in
theorem copiesRise_iff : ns.CopiesRise ↔ CopiesMetLater env program preloads ns := by
  constructor
  · intro rise a slot rel k other value here entry isCopy source there copied met
    have before := (dfs_before_iff acyclic walk (ordered.position here) (ordered.position there)).mpr met
    exact Nat.lt_asymm before (rise a slot rel k value here entry isCopy source copied)
  · intro later a slot rel k value here entry isCopy source copied
    obtain ⟨used, different⟩ := copySource_found ordered.global source
    obtain ⟨other, there⟩ := Option.isSome_iff_exists.mp used
    refine Nat.lt_of_le_of_ne (Nat.le_of_not_lt fun before => ?_) different.symm
    exact later a slot rel k other value here entry isCopy source there copied
      ((dfs_before_iff acyclic walk (ordered.position here) (ordered.position there)).mp before)

end Files

/-- The objects of an acyclic graph are relocated dependencies first, with copies only of what is
relocated already, if and only if no file needs or copies from one that the walk from the program
meets before it. -/
theorem relocation_order_iff {env : LoadEnv} {program : Program} {pages : UserPages}
    {loaded : Loaded} {after : LinkState}
    (ran : cosLinkLoadExecutable env program ⟨.fresh, pages, false⟩ = (some loaded, after))
    (clean : SkipsClean env program.preloads (mapProgram env program ⟨.fresh, pages, false⟩).2)
    (acyclic : Acyclic (fileDeps env program loaded.preloads)) :
    ∃ ns, relocationStart env program ⟨.fresh, pages, false⟩ = some ns ∧
      (RelocatesInOrder env program loaded.preloads ns loaded.bindings ↔
        NeedsMetLater env program loaded.preloads ∧ CopiesMetLater env program loaded.preloads ns) := by
  obtain ⟨ns, mem, final, order, start, relocated, isBindings, ordered, ranFiles⟩ :=
    load_ordered ran clean
  have walk := fileDeps_walk ranFiles
  have count : CountSound ns := countSound_invariant.relocationStart start
  have needs := dependencies_iff acyclic ordered walk count
  have copies := copies_iff ordered.global count relocated
  rw [isBindings, copiesRise_iff acyclic ordered walk] at copies
  refine ⟨ns, start, fun inOrder => ⟨?_, ?_⟩, fun ⟨met, copied⟩ => ⟨?_, ?_⟩⟩
  · exact needs.mp inOrder.dependencies
  · exact copies.mp inOrder.copies
  · exact needs.mpr met
  · exact copies.mpr copied

end Order

theorem plain_acyclic {files : FileSystem} {needed : List CString} (rank : CString → Nat)
    (none_ : ∀ path, path ∉ [[47, 97], [47, 98], [47, 99]] → files.image path = none)
    (falls : ∀ file ∈ [[47, 112], [47, 97], [47, 98], [47, 99]],
      ∀ dep ∈ fileDeps (plainEnv files) (plainProgram needed) [] file, rank dep < rank file) :
    Acyclic (fileDeps (plainEnv files) (plainProgram needed) []) := by
  refine acyclic_of_rank rank fun file dep needs => ?_
  by_cases known : file ∈ [[47, 112], [47, 97], [47, 98], [47, 99]]
  · exact falls file known dep needs
  · obtain ⟨library, missing⟩ := not_or.mp (List.mem_cons.not.mp known)
    have isNone : (plainEnv files).files.image file = none := none_ file missing
    have main : file ≠ (plainProgram needed).slotPath := library
    simp [fileDeps, nodeDeps, nodeNeeded, nodeImage, main, isNone] at needs

/-- A program that needs `/a` and then `/c`, which `/a` needs too: `/c` is relocated before both. -/
theorem relocation_order_shared : ∃ loaded after ns,
    cosLinkLoadExecutable (plainEnv threeLibraries) (plainProgram [[47, 97], [47, 99]])
      ⟨.fresh, noPages, false⟩ = (some loaded, after) ∧
    relocationStart (plainEnv threeLibraries) (plainProgram [[47, 97], [47, 99]])
    ⟨.fresh, noPages, false⟩ = some ns ∧
    RelocatesInOrder (plainEnv threeLibraries) (plainProgram [[47, 97], [47, 99]]) loaded.preloads
    ns loaded.bindings := by
  obtain ⟨loaded, ran, preloads⟩ := @plainLoad_some [[47, 97], [47, 99]] (by decide)
  have acyclic : Acyclic
    (fileDeps (plainEnv threeLibraries) (plainProgram [[47, 97], [47, 99]]) []) := by
    refine plain_acyclic (fun path => if path = [47, 112] then 2 else if path = [47, 97] then 1
      else 0) ?_ (by decide)
    intro path unknown
    simp only [List.mem_cons, List.not_mem_nil, or_false, not_or] at unknown
    simp [threeLibraries, diskOf, unknown]
  obtain ⟨ns, start, inOrder⟩ := relocation_order_iff ran trivial (by rw [preloads]; exact acyclic)
  have walk : dfs (fileDeps (plainEnv threeLibraries) (plainProgram [[47, 97], [47, 99]]) []) id
      maxDepth [] [47, 112] = some [[47, 112], [47, 97], [47, 99]] := by decide
  refine ⟨loaded, _, ns, ran, start, inOrder.mpr ⟨?_, ?_⟩⟩
  · rw [preloads]
    refine (dfs_topological_iff acyclic walk).mp fun a u v atA path =>
      rises_path (fun a u v atA needs => ?_) atA path
    have rises : ∀ a < 3, ∀ v ∈ fileDeps (plainEnv threeLibraries) (plainProgram [[47, 97], [47, 99]]) []
        ([[47, 112], [47, 97], [47, 99]].getD a []), ∃ b < 3, [[47, 112], [47, 97], [47, 99]][b]? = some v ∧ a < b := by
      decide
    have isFile : [[47, 112], [47, 97], [47, 99]].getD a [] = u := by
      rw [List.getD_eq_getElem?_getD, atA, Option.getD_some]
    have inside : a < 3 := (List.getElem?_eq_some_iff.mp atA).choose
    obtain ⟨b, _, there, lower⟩ := rises a inside v (by rw [isFile]; exact needs)
    exact ⟨b, there, lower⟩
  · intro a slot rel k other value here entry
    have bare : (relocationStart (plainEnv threeLibraries) (plainProgram [[47, 97], [47, 99]])
        ⟨.fresh, noPages, false⟩).all (fun ns => decide (∀ a < maxObjects,
          (ns.objs a).all fun slot => slot.obj.relocs = [])) = true := by decide
    rw [start, Option.all_some, decide_eq_true_eq] at bare
    have sound : SlotsSound ns := slotsSound_invariant.relocationStart start
    have empty := bare a (sound.inTable a (by rw [here]; rfl))
    rw [here, Option.all_some, decide_eq_true_eq] at empty
    rw [empty] at entry
    contradiction

/-- A disk with libraries `/a` and `/b` that both need `/c`. -/
def sharedLibrary : FileSystem :=
  diskOf fun path =>
    if path = [47, 97] ∨ path = [47, 98] then some (plainImage 0 0 [[47, 99]])
    else if path = [47, 99] then some (plainImage 0 0 [])
    else none

/-- A program that needs `/a` and `/b`: the graph has no cycle, but `/c`, registered when `/a`
was loaded, is relocated after `/b`, which needs it. -/
theorem relocation_order_fails : ∃ loaded after ns,
    cosLinkLoadExecutable (plainEnv sharedLibrary) (plainProgram [[47, 97], [47, 98]])
      ⟨.fresh, noPages, false⟩ = (some loaded, after) ∧
    relocationStart (plainEnv sharedLibrary) (plainProgram [[47, 97], [47, 98]])
      ⟨.fresh, noPages, false⟩ = some ns ∧
    Acyclic (fileDeps (plainEnv sharedLibrary) (plainProgram [[47, 97], [47, 98]]) loaded.preloads) ∧
    ¬ RelocatesInOrder (plainEnv sharedLibrary) (plainProgram [[47, 97], [47, 98]]) loaded.preloads
      ns loaded.bindings := by
  obtain ⟨result, ran⟩ : ∃ result, cosLinkLoadExecutable (plainEnv sharedLibrary)
    (plainProgram [[47, 97], [47, 98]]) ⟨.fresh, noPages, false⟩ = result := ⟨_, rfl⟩
  have succeeded : (result.1.map Loaded.preloads) = some [] := by
    rw [← ran]
    decide
  obtain ⟨found, after⟩ := result
  obtain ⟨loaded, rfl, preloads⟩ := Option.map_eq_some_iff.mp succeeded
  obtain ⟨ns, _, _, order, start, _, _, ordered, ranFiles⟩ := load_ordered ran trivial
  have acyclic : Acyclic
    (fileDeps (plainEnv sharedLibrary) (plainProgram [[47, 97], [47, 98]]) []) := by
    refine plain_acyclic (fun path => if path = [47, 112] then 2 else if path = [47, 99] then 0
      else 1) ?_ (by decide)
    intro path unknown
    simp only [List.mem_cons, List.not_mem_nil, or_false, not_or] at unknown
    simp [sharedLibrary, diskOf, unknown]
  have walk : dfs (nodeDeps (plainEnv sharedLibrary) (plainProgram [[47, 97], [47, 98]]) [])
      (nodeKey (plainEnv sharedLibrary) (plainProgram [[47, 97], [47, 98]])) maxDepth [] [47, 112] =
        some [[47, 112], [47, 97], [47, 99], [47, 98]] := by decide
  have needs : [47, 99] ∈ fileDeps (plainEnv sharedLibrary) (plainProgram [[47, 97], [47, 98]]) []
    [47, 98] := by
    decide
  rw [preloads] at ranFiles
  obtain rfl := Option.some.inj (walk.symm.trans ranFiles)
  refine ⟨loaded, after, ns, ran, start, by rw [preloads]; exact acyclic, fun inOrder => ?_⟩
  rw [preloads] at inOrder
  obtain ⟨slot, here, isPath⟩ :=
    ordered.slot (show [[47, 112], [47, 97], [47, 99], [47, 98]][3]? = some [47, 98] from rfl)
  obtain ⟨b, other, there, isDep, before⟩ := inOrder.dependencies 3 slot [47, 99] here
    (.single (by rw [isPath]; exact needs))
  have atB := ordered.position there
  have inside : b < 4 := (List.getElem?_eq_some_iff.mp atB).choose
  exact absurd (relocatedBefore_iff.mp before).1 (Nat.not_lt.mpr (Nat.le_of_lt_succ inside))

end Cos.Link
