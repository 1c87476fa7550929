import Cos.Elf.ScopeFrame
import Cos.Link.Load

/-! # What loading does, step by step -/

namespace Cos.Link

open Cos.Elf

theorem failed_ne {α : Type u} {β : Type v} {value : α} {state after : β}
    (ran : ((none : Option α), state) = (some value, after)) : False :=
  nomatch (Prod.mk.inj ran).1

section MapLibrary

variable {env : LoadEnv} {path : CString} {image : ElfImage} {info : ElfInfo} {global : Bool}
  {requester : Option Nat} {state after : LinkState} {i j base : Nat}

theorem placeLibrary_some
    (ran : placeLibrary env path image info global requester i base state = (some j, after)) :
    ∃ obj, i = j ∧ base ≠ 0 ∧
      cosElfMap env.memory (cosElfPieBase env.random) image base state.ticked.pages =
        (some obj, after.pages) ∧
      after.ns = state.ns.register i requester (newSlot state.ns path image info global base obj) ∧
      after.trespassed = (state.trespassed ||
        state.ns.owns (after.pages.copied.drop state.pages.copied.length)) := by
  rw [placeLibrary] at ran
  split at ran
  · exact (failed_ne ran).elim
  · rename_i nonzero
    rw [LinkState.allocate_eq] at ran
    cases granted : env.memory state.pages.tick with
    | false =>
        rw [granted] at ran
        exact (failed_ne ran).elim
    | true =>
        rw [granted] at ran
        obtain ⟨result, isResult⟩ : ∃ result,
          cosElfMap env.memory (cosElfPieBase env.random) image base state.ticked.pages = result := ⟨_, rfl⟩
        simp only [isResult] at ran
        obtain ⟨mapped, pages⟩ := result
        cases mapped with
        | none => exact (failed_ne ran).elim
        | some obj =>
            obtain ⟨isSlot, isAfter⟩ := Prod.mk.inj ran
            subst isAfter
            exact ⟨obj, Option.some.inj isSlot, nonzero, isResult, rfl, rfl⟩

theorem mapLibrary_some
    (ran : mapLibrary env path image info global requester state = (some i, after)) :
    ∃ obj, allocSlot state.ns = some i ∧ (allocBase state.ns info.span).1 ≠ 0 ∧
      cosElfMap env.memory (cosElfPieBase env.random) image (allocBase state.ns info.span).1
        state.ticked.pages = (some obj, after.pages) ∧
      after.ns = (allocBase state.ns info.span).2.register i requester
        (newSlot (allocBase state.ns info.span).2 path image info global
          (allocBase state.ns info.span).1 obj) ∧
      after.trespassed = (state.trespassed ||
        (allocBase state.ns info.span).2.owns (after.pages.copied.drop state.pages.copied.length)) := by
  obtain ⟨room, isRoom⟩ : ∃ room, allocBase state.ns info.span = room := ⟨_, rfl⟩
  rw [mapLibrary, isRoom] at ran
  rw [isRoom]
  cases free : allocSlot state.ns with
  | none =>
      rw [free] at ran
      exact (failed_ne ran).elim
  | some j =>
      rw [free] at ran
      obtain ⟨obj, rfl, facts⟩ := placeLibrary_some ran
      exact ⟨obj, rfl, facts⟩

theorem mapLibrary_none
    (ran : mapLibrary env path image info global requester state = (none, after)) :
    after = state ∨ after = { state with ns := (allocBase state.ns info.span).2 } ∨
      after = ({ state with ns := (allocBase state.ns info.span).2 } : LinkState).ticked ∨
      (cosElfMap env.memory (cosElfPieBase env.random) image (allocBase state.ns info.span).1
          state.ticked.pages = (none, after.pages) ∧
        (allocBase state.ns info.span).1 ≠ 0 ∧ after.ns = (allocBase state.ns info.span).2 ∧
        after.trespassed = (state.trespassed ||
          (allocBase state.ns info.span).2.owns
            (after.pages.copied.drop state.pages.copied.length))) := by
  obtain ⟨room, isRoom⟩ : ∃ room, allocBase state.ns info.span = room := ⟨_, rfl⟩
  rw [mapLibrary, isRoom] at ran
  rw [isRoom]
  cases free : allocSlot state.ns with
  | none =>
      rw [free] at ran
      exact .inl (Prod.mk.inj ran).2.symm
  | some i =>
      rw [free] at ran
      dsimp only at ran
      rw [placeLibrary] at ran
      split at ran
      · exact .inr (.inl (Prod.mk.inj ran).2.symm)
      · rename_i nonzero
        rw [LinkState.allocate_eq] at ran
        cases granted : env.memory state.pages.tick with
        | false =>
            rw [granted] at ran
            exact .inr (.inr (.inl (Prod.mk.inj ran).2.symm))
        | true =>
            rw [granted] at ran
            obtain ⟨result, isResult⟩ : ∃ result, cosElfMap env.memory (cosElfPieBase env.random)
              image room.1 state.ticked.pages = result := ⟨_, rfl⟩
            have here : cosElfMap env.memory (cosElfPieBase env.random) image room.1
              ({ state with ns := room.2 } : LinkState).ticked.pages = result := isResult
            simp only [here] at ran
            obtain ⟨mapped, pages⟩ := result
            cases mapped with
            | some obj => exact absurd (Prod.mk.inj ran).1 (by simp)
            | none =>
                obtain ⟨_, isAfter⟩ := Prod.mk.inj ran
                subst isAfter
                exact .inr (.inr (.inr ⟨isResult, nonzero, rfl, rfl⟩))

end MapLibrary

theorem loadObject_some {env : LoadEnv} {global : Bool} {levels i : Nat} {requester : Option Nat}
    {path : CString} {state after : LinkState}
    (ran : loadObject env global (levels + 1) requester path state = (some i, after)) :
    ∃ image info, env.files.image path = some image ∧ cosElfInspect image = some info ∧
      ((findLoaded state.ns path image.soname = some i ∧
          after = { state.ticked with ns := state.ns.reuse global requester i }) ∨
        (findLoaded state.ns path image.soname = none ∧ ∃ middle,
          mapLibrary env path image info global requester state.ticked = (some i, middle) ∧
          loadNeeded env (loadObject env global levels (some i)) i image.needed middle =
            (true, after))) := by
  rw [loadObject, LinkState.allocate_eq] at ran
  cases granted : env.memory state.pages.tick with
  | false =>
      rw [granted] at ran
      exact (failed_ne ran).elim
  | true =>
      rw [granted] at ran
      dsimp only at ran
      cases file : env.files.image path with
      | none =>
          rw [file] at ran
          exact (failed_ne ran).elim
      | some image =>
          rw [file] at ran
          dsimp only at ran
          cases header : cosElfInspect image with
          | none =>
              rw [header] at ran
              exact (failed_ne ran).elim
          | some info =>
              rw [header] at ran
              dsimp only at ran
              rw [LinkState.ticked_ns] at ran
              refine ⟨image, info, rfl, header, ?_⟩
              cases loaded : findLoaded state.ns path image.soname with
              | some existing =>
                  rw [loaded] at ran
                  obtain ⟨isSlot, isAfter⟩ := Prod.mk.inj ran
                  obtain rfl := Option.some.inj isSlot
                  exact .inl ⟨rfl, isAfter.symm⟩
              | none =>
                  rw [loaded] at ran
                  dsimp only at ran
                  refine .inr ⟨rfl, ?_⟩
                  obtain ⟨placed, isPlaced⟩ : ∃ placed,
                    mapLibrary env path image info global requester state.ticked = placed := ⟨_, rfl⟩
                  rw [isPlaced] at ran
                  obtain ⟨slot, middle⟩ := placed
                  cases slot with
                  | none => exact (failed_ne ran).elim
                  | some j =>
                      dsimp only at ran
                      obtain ⟨rest, isRest⟩ : ∃ rest,
                        loadNeeded env (loadObject env global levels (some j)) j image.needed middle = rest :=
                        ⟨_, rfl⟩
                      rw [isRest] at ran
                      obtain ⟨ok, last⟩ := rest
                      cases ok with
                      | false => exact (failed_ne ran).elim
                      | true =>
                          obtain ⟨isSlot, isAfter⟩ := Prod.mk.inj ran
                          obtain rfl := Option.some.inj isSlot
                          exact ⟨middle, isPlaced, by rw [isRest, isAfter]⟩

/-- What every step of loading keeps, whether it succeeds or not.  `wanted` are the files that
may be asked for. -/
structure LoadInvariant (env : LoadEnv) (global : Bool) (wanted : CString → Prop)
    (holds : LinkState → Prop) : Prop where
  needed : ∀ path image name userPath requester dep, wanted path →
    env.files.image path = some image → name ∈ image.needed →
    resolveNeeded env.files env.searchPath userPath requester name = some dep → wanted dep
  tick : ∀ state, holds state → holds state.ticked
  reuse : ∀ state requester i, (state.ns.objs i).isSome → holds state →
    holds { state with ns := state.ns.reuse global requester i }
  library : ∀ state path image info requester, wanted path → env.files.image path = some image →
    cosElfInspect image = some info → findLoaded state.ns path image.soname = none → holds state →
    holds (mapLibrary env path image info global requester state).2

theorem findLoaded_used {ns : LinkNs} {path soname : CString} {i : Nat}
    (found : findLoaded ns path soname = some i) : (ns.objs i).isSome := by
  have here := List.find?_some found
  cases used : ns.objs i with
  | none => simp [used] at here
  | some slot => rfl

section LoadInvariant

variable {env : LoadEnv} {global : Bool} {wanted : CString → Prop} {holds : LinkState → Prop}

theorem loadNeeded_invariant {load : CString → LinkState → Option Nat × LinkState}
    (loads : ∀ path state, wanted path → holds state → holds (load path state).2) (i : Nat)
    {names : List CString} (resolves : ∀ name ∈ names, ∀ userPath requester dep,
      resolveNeeded env.files env.searchPath userPath requester name = some dep → wanted dep)
    {state : LinkState} (before : holds state) : holds (loadNeeded env load i names state).2 := by
  induction names generalizing state with
  | nil => exact before
  | cons name rest ih =>
      have restResolves := fun other member => resolves other (List.mem_cons_of_mem name member)
      rw [loadNeeded]
      cases resolved : resolveFrom env state.ns (some i) name with
      | none => exact before
      | some dep =>
          dsimp only
          have isWanted := resolves name (List.mem_cons_self ..) _ _ dep resolved
          have loaded := loads dep state isWanted before
          obtain ⟨result, isResult⟩ : ∃ result, load dep state = result := ⟨_, rfl⟩
          rw [isResult] at loaded ⊢
          obtain ⟨slot, middle⟩ := result
          cases slot with
          | none => exact loaded
          | some _ => exact ih restResolves loaded

theorem LoadInvariant.loadObject (invariant : LoadInvariant env global wanted holds) (levels : Nat)
    (requester : Option Nat) {path : CString} (isWanted : wanted path) {state : LinkState}
    (before : holds state) : holds (Link.loadObject env global levels requester path state).2 := by
  induction levels generalizing requester path state with
  | zero => exact before
  | succ levels ih =>
      have ticked := invariant.tick state before
      rw [Link.loadObject, LinkState.allocate_eq]
      cases env.memory state.pages.tick with
      | false => exact ticked
      | true =>
          dsimp only
          cases file : env.files.image path with
          | none => exact ticked
          | some image =>
              dsimp only
              cases header : cosElfInspect image with
              | none => exact ticked
              | some info =>
                  dsimp only
                  cases loaded : findLoaded state.ticked.ns path image.soname with
                  | some i => exact invariant.reuse state.ticked requester i (findLoaded_used loaded) ticked
                  | none =>
                      dsimp only
                      have placed := invariant.library state.ticked path image info requester
                        isWanted file header loaded ticked
                      obtain ⟨result, isResult⟩ : ∃ result,
                        mapLibrary env path image info global requester state.ticked = result := ⟨_, rfl⟩
                      rw [isResult] at placed ⊢
                      obtain ⟨slot, middle⟩ := result
                      cases slot with
                      | none => exact placed
                      | some i =>
                          dsimp only
                          have needed := @loadNeeded_invariant env wanted holds _
                            (fun _ _ isWanted held => ih (some i) isWanted held) i image.needed
                            (fun name member userPath requester dep resolved =>
                              invariant.needed path image name userPath requester dep isWanted file
                                member resolved) middle placed
                          obtain ⟨result, isResult⟩ : ∃ result, loadNeeded env
                            (Link.loadObject env global levels (some i)) i image.needed middle = result :=
                            ⟨_, rfl⟩
                          rw [isResult] at needed ⊢
                          obtain ⟨ok, last⟩ := result
                          cases ok <;> exact needed

theorem LoadInvariant.loadPreloads (invariant : LoadInvariant env true wanted holds)
    {entries : List CString} (isWanted : ∀ one ∈ entries, wanted one) {state : LinkState}
    (before : holds state) : holds (Link.loadPreloads env entries state).2 := by
  induction entries generalizing state with
  | nil => exact before
  | cons one rest ih =>
      have restWanted := fun other member => isWanted other (List.mem_cons_of_mem one member)
      rw [Link.loadPreloads]
      split
      · exact ih restWanted before
      · have loaded := invariant.loadObject (maxDepth - 1) (some 0) (isWanted one (List.mem_cons_self ..)) before
        obtain ⟨result, isResult⟩ : ∃ result,
          Link.loadObject env true (maxDepth - 1) (some 0) one state = result := ⟨_, rfl⟩
        rw [isResult] at loaded ⊢
        obtain ⟨slot, middle⟩ := result
        cases slot <;> exact ih restWanted loaded

end LoadInvariant

theorem mapProgram_cases {env : LoadEnv} {program : Program} {state after : LinkState} {ok : Bool}
    (ran : mapProgram env program state = (ok, after)) :
    (ok = false ∧ (after = state ∨ after = state.ticked)) ∨
      ∃ mapped, cosElfMap env.memory (cosElfPieBase env.random) program.image (programBias env program)
          state.ticked.pages = (mapped, after.pages) ∧ ok = mapped.isSome ∧
        after.trespassed = state.trespassed ∧
        after.ns = mapped.elim state.ns fun obj => registerMain program obj state.ns := by
  rw [mapProgram] at ran
  cases header : cosElfInspect program.image with
  | none =>
      rw [header] at ran
      obtain ⟨rfl, rfl⟩ := Prod.mk.inj ran
      exact .inl ⟨rfl, .inl rfl⟩
  | some info =>
      rw [header] at ran
      dsimp only at ran
      split at ran
      · obtain ⟨rfl, rfl⟩ := Prod.mk.inj ran
        exact .inl ⟨rfl, .inl rfl⟩
      · rw [LinkState.allocate_eq] at ran
        cases granted : env.memory state.pages.tick with
        | false =>
            rw [granted] at ran
            obtain ⟨rfl, rfl⟩ := Prod.mk.inj ran
            exact .inl ⟨rfl, .inr rfl⟩
        | true =>
            rw [granted] at ran
            obtain ⟨result, isResult⟩ : ∃ result, cosElfMap env.memory (cosElfPieBase env.random)
              program.image (programBias env program) state.ticked.pages = result := ⟨_, rfl⟩
            simp only [isResult] at ran
            obtain ⟨mapped, pages⟩ := result
            cases mapped with
            | none =>
                obtain ⟨rfl, rfl⟩ := Prod.mk.inj ran
                exact .inr ⟨none, isResult, rfl, rfl, rfl⟩
            | some obj =>
                obtain ⟨rfl, rfl⟩ := Prod.mk.inj ran
                exact .inr ⟨some obj, isResult, rfl, rfl, rfl⟩

theorem relocate_cases {pass : RelocState LinkNs → Except (RelocState LinkNs) (RelocState LinkNs)}
    {state after : LinkState} {bindings : List Binding}
    (ran : state.relocate pass = (some bindings, after)) :
    ∃ final, pass ⟨state.pages.userMem, state.ns, [], 0, []⟩ = .ok final ∧ final.bindings = bindings ∧
      after = { state with ns := final.scope, pages := state.pages.withMem final.mem } := by
  rw [LinkState.relocate] at ran
  cases passed : pass ⟨state.pages.userMem, state.ns, [], 0, []⟩ with
  | error failed =>
      rw [passed] at ran
      exact (failed_ne ran).elim
  | ok final =>
      rw [passed] at ran
      obtain ⟨isBindings, isAfter⟩ := Prod.mk.inj ran
      exact ⟨final, rfl, Option.some.inj isBindings, isAfter.symm⟩

/-- Nothing about the objects changes, nor where the next library goes. -/
structure SameSlots (before after : LinkState) : Prop where
  objs : after.ns.objs = before.ns.objs
  nextBase : after.ns.nextBase = before.ns.nextBase
  trespassed : after.trespassed = before.trespassed
  nextSerial : after.ns.nextSerial = before.ns.nextSerial
  count : after.ns.count = before.ns.count

theorem SameSlots.refl (state : LinkState) : SameSlots state state := ⟨rfl, rfl, rfl, rfl, rfl⟩

theorem mapZeroed_slots (env : LoadEnv) (at_ count : Nat) (state : LinkState) :
    SameSlots state (mapZeroed env at_ count state).2 := ⟨rfl, rfl, rfl, rfl, rfl⟩

theorem setupTls_slots (env : LoadEnv) (state : LinkState) :
    SameSlots state (setupTls env state).2 := by
  rw [setupTls]
  split
  · exact ⟨rfl, rfl, rfl, rfl, rfl⟩
  · cases tlsLayout (List.range state.ns.count) 0 8 0 state.ns with
    | none => exact .refl state
    | some layout =>
        obtain ⟨_, offset, maxAlign, modules⟩ := layout
        dsimp only
        have zeroed := mapZeroed_slots env tlsBase (tlsRegionPages offset maxAlign modules) state
        split
        · rename_i failed
          rw [failed] at zeroed
          exact zeroed
        · rename_i mapped
          rw [mapped] at zeroed
          split
          · rename_i refused
            rw [← (Prod.mk.inj refused).2]
            exact ⟨zeroed.objs, zeroed.nextBase, zeroed.trespassed, zeroed.nextSerial, zeroed.count⟩
          · rename_i granted
            rw [← (Prod.mk.inj granted).2]
            exact ⟨zeroed.objs, zeroed.nextBase, zeroed.trespassed, zeroed.nextSerial, zeroed.count⟩

theorem publishLinkmap_slots (env : LoadEnv) (state : LinkState) :
    SameSlots state (publishLinkmap env state).2 := by
  rw [publishLinkmap, LinkState.allocate_eq]
  cases env.memory state.pages.tick with
  | false => exact ⟨rfl, rfl, rfl, rfl, rfl⟩
  | true =>
      dsimp only
      have zeroed := mapZeroed_slots env mapBase linkmapSize state.ticked
      split
      · rename_i failed
        rw [failed] at zeroed
        exact ⟨zeroed.objs, zeroed.nextBase, zeroed.trespassed, zeroed.nextSerial, zeroed.count⟩
      · rename_i mapped
        rw [mapped] at zeroed
        exact ⟨zeroed.objs, zeroed.nextBase, zeroed.trespassed, zeroed.nextSerial, zeroed.count⟩

theorem startProgram_some {env : LoadEnv} {state after : LinkState} {bindings : List Binding}
    (ran : startProgram env state = (some bindings, after)) :
    ∃ ns sizes final, tlsLayout (List.range state.ns.count) 0 8 0 state.ns = some (ns, sizes) ∧
      relocateAll ⟨state.pages.userMem, ns, [], 0, []⟩ = .ok final ∧ final.bindings = bindings ∧
      after.ns.objs = final.scope.objs := by
  rw [startProgram] at ran
  cases layout : tlsLayout (List.range state.ns.count) 0 8 0 state.ns with
  | none =>
      rw [layout] at ran
      exact (failed_ne ran).elim
  | some pair =>
      obtain ⟨ns, sizes⟩ := pair
      rw [layout] at ran
      dsimp only at ran
      obtain ⟨result, relocated⟩ : ∃ result,
        ({ state with ns := ns } : LinkState).relocate relocateAll = result := ⟨_, rfl⟩
      rw [relocated] at ran
      obtain ⟨made, middle⟩ := result
      cases made with
      | none => exact (failed_ne ran).elim
      | some made =>
          obtain ⟨final, passed, isMade, isMiddle⟩ := relocate_cases relocated
          dsimp only at ran
          have tls := (setupTls_slots env middle).objs
          split at ran
          · exact (failed_ne ran).elim
          · rename_i withTls isTls
            rw [isTls] at tls
            have linkmap := (publishLinkmap_slots env withTls).objs
            split at ran
            · exact (failed_ne ran).elim
            · rename_i withMap isMap
              rw [isMap] at linkmap
              split at ran
              · exact (failed_ne ran).elim
              · rename_i granted
                obtain ⟨isBindings, rfl⟩ := Prod.mk.inj ran
                refine ⟨ns, sizes, final, rfl, passed, isMade.trans (Option.some.inj isBindings), ?_⟩
                rw [← (Prod.mk.inj granted).2]
                exact linkmap.trans (tls.trans (by rw [isMiddle]))

end Cos.Link
