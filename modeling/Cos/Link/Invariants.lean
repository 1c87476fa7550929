import Cos.Link.Windows

/-! # Invariants of a namespace

The calls change the objects of a namespace in a few ways only.  What each of these keeps holds
in every namespace a run comes to, whatever the files are.
-/

namespace Cos.Link

open Cos.Elf Cos.Lib

/-- The part of a slot that ties it to the rest of the namespace. -/
def LinkObj.links (slot : LinkObj) : Finset Nat × Nat × Nat × Nat :=
  (slot.needsMask, slot.vlo, slot.vhi, slot.serial)

structure LinkInvariant (holds : LinkNs → Prop) : Prop where
  fresh : holds .fresh
  same : ∀ ns other, SameView LinkObj.links ns other → other.nextBase = ns.nextBase →
    other.nextSerial = ns.nextSerial → other.count = ns.count → holds ns → holds other
  need : ∀ ns i j, (ns.objs j).isSome → holds ns → holds (ns.addNeed i j)
  room : ∀ ns span, holds ns → holds (allocBase ns span).2
  library : ∀ ns i slot, allocSlot ns = some i → slot.needsMask = ∅ → slot.vlo % libAlign = 0 →
    slot.vlo ≤ ns.nextBase → slot.serial = ns.nextSerial + 1 → holds ns →
      holds { ns.setSlot i (some slot) with nextSerial := ns.nextSerial + 1, count := max ns.count (i + 1) }
  main : ∀ program obj ns, holds ns → holds (registerMain program obj ns)
  unload : ∀ state j, holds state.ns → holds (unloadSlot state j).ns

theorem scopeResolve_need (deepbind : Option Nat) (req : SymReq) (ns : LinkNs) :
    (scopeResolve deepbind req ns).2 = ns ∨
      ∃ j, (ns.objs j).isSome ∧ (scopeResolve deepbind req ns).2 = ns.addNeed req.requester j := by
  have found : ∀ version order j value, searchSlots ns req version order = some (j, value) →
      (ns.objs j).isSome := by
    intro version order j value search
    obtain ⟨i, _, here⟩ := List.exists_of_findSome?_eq_some search
    split at here
    · contradiction
    · cases used : ns.objs i with
      | none =>
          rw [used] at here
          contradiction
      | some slot =>
          rw [used, Option.bind_some] at here
          obtain ⟨_, _, isPair⟩ := Option.map_eq_some_iff.mp here
          rw [← (Prod.mk.inj isPair).1, used]
          rfl
  have passes : ∀ version asker j value, ((searchSlots ns req version ns.globalSlots).or
      (searchSlots ns req version (ns.closureSlots asker))) = some (j, value) → (ns.objs j).isSome := by
    intro version asker j value search
    rcases Option.or_eq_some_iff.mp search with first | ⟨_, second⟩
    · exact found _ _ _ _ first
    · exact found _ _ _ _ second
  have scope : ∀ asker j value, scopeSearch ns req asker = some (j, value) →
    (ns.objs j).isSome := by
    intro asker j value search
    rw [scopeSearch] at search
    split at search
    · rcases Option.or_eq_some_iff.mp search with first | ⟨_, second⟩
      · exact passes _ _ _ _ first
      · exact passes _ _ _ _ second
    · exact passes _ _ _ _ search
  rw [scopeResolve]
  split
  · exact .inl rfl
  · split
    · exact .inl rfl
    · rename_i j value search
      obtain ⟨asker, isAsker⟩ : ∃ asker, (if (ns.objs req.requester).isSome = true then
        some req.requester else none) = asker := ⟨_, rfl⟩
      rw [isAsker]
      split
      · exact .inr ⟨j, scope _ _ _ search, rfl⟩
      · exact .inl rfl

section LinkInvariant

variable {holds : LinkNs → Prop} {state : LinkState} {env : LoadEnv}

theorem LinkInvariant.sameSlots (invariant : LinkInvariant holds) {after : LinkState}
    (same : SameSlots state after) (held : holds state.ns) : holds after.ns :=
  invariant.same state.ns after.ns (.of_objs same.objs) same.nextBase same.nextSerial same.count
    held

theorem LinkInvariant.recordNeed (invariant : LinkInvariant holds) {ns : LinkNs}
    (requester : Option Nat) {j : Nat} (used : (ns.objs j).isSome) (held : holds ns) :
    holds (ns.recordNeed requester j) := by
  cases requester with
  | none => exact held
  | some i =>
      rw [LinkNs.recordNeed]
      split
      · exact held
      · exact invariant.need ns i j used held

theorem LinkInvariant.reuse (invariant : LinkInvariant holds) {ns : LinkNs} (global : Bool)
    (requester : Option Nat) {j : Nat} (used : (ns.objs j).isSome) (held : holds ns) :
    holds (ns.reuse global requester j) := by
  have recorded := invariant.recordNeed requester used held
  rw [LinkNs.reuse]
  split
  · refine invariant.same _ _ (updateSlot_view ?_ j) rfl rfl rfl recorded
    exact fun _ => rfl
  · exact recorded

theorem allocBase_cases (ns : LinkNs) (span : Nat) :
    allocBase ns span = (0, ns) ∨ (allocBase ns span).1 = libAlignUp ns.nextBase ∧
      libAlignUp ns.nextBase < (allocBase ns span).2.nextBase ∧
      (allocBase ns span).2.nextBase = (libAlignUp ns.nextBase + libAlignUp span) % 2 ^ 64 ∧
      (allocBase ns span).2.nextBase ≤ libLimit ∧ (allocBase ns span).2.objs = ns.objs := by
  rw [allocBase]
  split
  · exact .inl rfl
  · rename_i room
    obtain ⟨more, below⟩ := not_or.mp room
    exact .inr ⟨rfl, Nat.lt_of_not_le more, rfl, Nat.le_of_not_lt below, rfl⟩

theorem allocBase_keepsObjs (ns : LinkNs) (span : Nat) : (allocBase ns span).2.objs = ns.objs := by
  rcases allocBase_cases ns span with full | ⟨_, _, _, _, same⟩
  · rw [full]
  · exact same

theorem allocSlot_congr {ns other : LinkNs} (same : other.objs = ns.objs) :
    allocSlot other = allocSlot ns := by
  rw [allocSlot, allocSlot, same]

theorem LinkInvariant.register (invariant : LinkInvariant holds) {ns : LinkNs} {i : Nat}
    (requester : Option Nat) {slot : LinkObj} (free : allocSlot ns = some i)
    (needs : slot.needsMask = ∅) (aligned : slot.vlo % libAlign = 0)
    (below : slot.vlo ≤ ns.nextBase) (serial : slot.serial = ns.nextSerial + 1) (held : holds ns) :
    holds (ns.register i requester slot) := by
  have placed := invariant.library ns i slot free needs aligned below serial held
  have used : ((ns.setSlot i (some slot)).objs i).isSome := by
    rw [LinkNs.setSlot_objs, if_pos rfl]
    rfl
  let counted : LinkNs := { ns.setSlot i (some slot) with nextSerial := ns.nextSerial + 1, count := max ns.count (i + 1) }
  have recorded := @LinkInvariant.recordNeed _ invariant counted requester i used placed
  have cursors : ∀ (ns : LinkNs), (ns.recordNeed requester i).nextBase = ns.nextBase ∧
      (ns.recordNeed requester i).nextSerial = ns.nextSerial ∧ (ns.recordNeed requester i).count = ns.count := by
    intro ns
    cases requester with
    | none => exact ⟨rfl, rfl, rfl⟩
    | some k =>
        rw [LinkNs.recordNeed]
        split <;> exact ⟨rfl, rfl, rfl⟩
  refine invariant.same (counted.recordNeed requester i) _ (.of_objs ?_) ?_
    (cursors counted).2.1.symm (cursors counted).2.2.symm recorded
  · cases requester with
    | none => rfl
    | some k =>
        simp only [LinkNs.register, LinkNs.recordNeed]
        split <;> rfl
  · exact (cursors (ns.setSlot i (some slot))).1.trans (cursors counted).1.symm

theorem LinkInvariant.mapLibrary (invariant : LinkInvariant holds) (path : CString)
    (image : ElfImage) (info : ElfInfo) (global : Bool) (requester : Option Nat)
    (held : holds state.ns) :
    holds (Link.mapLibrary env path image info global requester state).2.ns := by
  have room := invariant.room state.ns info.span held
  obtain ⟨result, ran⟩ :
    ∃ result, Link.mapLibrary env path image info global requester state = result :=
    ⟨_, rfl⟩
  rw [ran]
  obtain ⟨found, after⟩ := result
  cases found with
  | none =>
      rcases mapLibrary_none ran with rfl | rfl | rfl | ⟨_, _, isNs, _⟩
      · exact held
      · exact room
      · exact room
      · rw [isNs]
        exact room
  | some i =>
      obtain ⟨obj, free, nonzero, _, isNs, _⟩ := mapLibrary_some ran
      rw [isNs]
      rcases allocBase_cases state.ns info.span with full | ⟨isBase, above, _, _, same⟩
      · rw [full] at nonzero
        exact absurd rfl nonzero
      · refine invariant.register requester ((allocSlot_congr same).trans free) rfl ?_ ?_ rfl room
        · rw [newSlot, isBase, libAlignUp]
          exact Nat.mul_mod_right _ _
        · rw [newSlot, isBase]
          exact above.le

theorem LinkInvariant.loading (invariant : LinkInvariant holds) (env : LoadEnv) (global : Bool) :
    LoadInvariant env global (fun _ => True) fun state => holds state.ns where
  needed := fun _ _ _ _ _ _ _ _ _ _ => trivial
  tick := fun _ held => held
  reuse := fun _ requester _ used held => invariant.reuse global requester used held
  library := fun _ path image info requester _ _ _ _ held =>
    invariant.mapLibrary path image info global requester held

theorem LinkInvariant.relocate (invariant : LinkInvariant holds) (deepbind : Option Nat)
    (order : List Nat) (held : holds state.ns) :
    holds (state.relocate (relocateSlots deepbind order)).2.ns := by
  rw [(relocate_ns (relocateSlots deepbind order) state).1]
  refine relocateSlots_keeps (fun req ns before => ?_) order held
  rcases scopeResolve_need deepbind req ns with same | ⟨j, used, isNs⟩
  · rw [same]
    exact before
  · rw [isNs]
    exact invariant.need ns req.requester j used before

theorem LinkInvariant.startProgram (invariant : LinkInvariant holds) (held : holds state.ns) :
    holds (Link.startProgram env state).2.ns := by
  rw [Link.startProgram]
  cases layout : tlsLayout (List.range state.ns.count) 0 8 0 state.ns with
  | none => exact held
  | some pair =>
      obtain ⟨ns, sizes⟩ := pair
      dsimp only
      have laidOut : holds ns := invariant.same state.ns ns (tlsLayout_view (fun _ _ _ => rfl) layout)
        (tlsLayout_cursors layout).1 (tlsLayout_cursors layout).2.1 (tlsLayout_cursors layout).2.2 held
      have relocated := @LinkInvariant.relocate holds { state with ns := ns } invariant none
        (List.range ns.count).reverse laidOut
      obtain ⟨result, isResult⟩ : ∃ result,
        ({ state with ns := ns } : LinkState).relocate relocateAll = result := ⟨_, rfl⟩
      have isRelocated : holds result.2.ns := by
        rw [← isResult]
        exact relocated
      rw [isResult]
      obtain ⟨bindings, middle⟩ := result
      cases bindings with
      | none => exact isRelocated
      | some bindings =>
          dsimp only
          have tls := invariant.sameSlots (setupTls_slots env middle) isRelocated
          split
          · rename_i failed
            rw [failed] at tls
            exact tls
          · rename_i withTls isTls
            rw [isTls] at tls
            have linkmap := invariant.sameSlots (publishLinkmap_slots env withTls) tls
            split
            · rename_i failed
              rw [failed] at linkmap
              exact linkmap
            · rename_i withMap isMap
              rw [isMap] at linkmap
              rw [LinkState.allocate_eq]
              cases env.memory withMap.pages.tick <;> exact linkmap

theorem LinkInvariant.mapProgram (invariant : LinkInvariant holds) {program : Program}
    (held : holds state.ns) : holds (Link.mapProgram env program state).2.ns := by
  obtain ⟨result, ran⟩ : ∃ result, Link.mapProgram env program state = result := ⟨_, rfl⟩
  rw [ran]
  obtain ⟨ok, after⟩ := result
  rcases mapProgram_cases ran with ⟨_, rfl | rfl⟩ | ⟨mapped, _, _, _, isNs⟩
  · exact held
  · exact held
  · rw [isNs]
    cases mapped with
    | none => exact held
    | some obj => exact invariant.main program obj state.ns held

theorem LinkInvariant.load (invariant : LinkInvariant holds) {program : Program}
    (held : holds state.ns) : holds (cosLinkLoadExecutable env program state).2.ns := by
  have mapped := @LinkInvariant.mapProgram holds state env invariant program held
  rw [cosLinkLoadExecutable]
  obtain ⟨result, ran⟩ : ∃ result, Link.mapProgram env program state = result := ⟨_, rfl⟩
  rw [ran] at mapped ⊢
  obtain ⟨ok, middle⟩ := result
  cases ok with
  | false => exact mapped
  | true =>
      dsimp only
      have loading := invariant.loading env true
      have preloaded := @LoadInvariant.loadPreloads env _ _ loading program.preloads
        (fun _ _ => trivial) middle mapped
      have needed := @loadNeeded_invariant env (fun _ => True) (fun state => holds state.ns)
        (loadObject env true (maxDepth - 1) (some 0))
        (fun _ _ isWanted held => loading.loadObject (maxDepth - 1) (some 0) isWanted held) 0
        program.image.needed (fun _ _ _ _ _ _ => trivial) _ preloaded
      split
      · exact invariant.fresh
      · rename_i loaded isLoaded
        rw [isLoaded] at needed
        have started := @LinkInvariant.startProgram holds loaded env invariant needed
        split
        · exact invariant.fresh
        · rename_i final
          rw [final] at started
          exact started

theorem LinkInvariant.unloadAll (invariant : LinkInvariant holds) {order : List Nat}
    (held : holds state.ns) : holds (order.foldl unloadSlot state).ns := by
  induction order generalizing state with
  | nil => exact held
  | cons j rest ih => exact ih (invariant.unload state j held)

theorem LinkInvariant.addHandle (invariant : LinkInvariant holds) {ns : LinkNs} (flags : DlFlags)
    (i : Nat) (held : holds ns) : holds (ns.addHandle flags i) := by
  refine invariant.same ns _ (updateSlot_view ?_ i) rfl rfl rfl held
  exact fun _ => rfl

theorem LinkInvariant.markGlobal (invariant : LinkInvariant holds) {ns : LinkNs} (value : Bool)
    (order : List Nat) (held : holds ns) : holds (ns.markGlobal value order) :=
  invariant.same ns _ (markGlobal_view (fun _ _ => rfl) value order) rfl rfl rfl held

theorem LinkInvariant.finishOpen (invariant : LinkInvariant holds) (flags : DlFlags) (i : Nat)
    (order : List Nat) (held : holds state.ns) :
    holds (Link.finishOpen env flags i order state).2.ns := by
  rw [Link.finishOpen]
  split
  · exact held
  · have relocated := @LinkInvariant.relocate holds { state with ns := state.ns.markGlobal true order }
      invariant (if flags.deepbind = true then some i else none) order
      (invariant.markGlobal true order held)
    split
    · rename_i failed
      rw [failed] at relocated
      exact relocated
    · rename_i now bound
      rw [bound] at relocated
      refine invariant.sameSlots (publishLinkmap_slots env _) (invariant.addHandle flags i ?_)
      split
      · exact relocated
      · exact invariant.markGlobal false order relocated

theorem LinkInvariant.rollBack (invariant : LinkInvariant holds) {order : List Nat}
    (held : holds state.ns) : holds (Link.rollBack env order state).ns :=
  invariant.sameSlots (publishLinkmap_slots env _) (invariant.unloadAll held)

theorem LinkInvariant.openPath (invariant : LinkInvariant holds) (flags : DlFlags) (path : CString)
    (held : holds state.ns) : holds (Link.openPath env flags path state).2.ns := by
  have start : holds { state.ns with newMask := ∅ } :=
    invariant.same state.ns _ (.of_objs rfl) rfl rfl rfl held
  have loaded := @LoadInvariant.loadObject env flags.global _ _ (invariant.loading env flags.global)
    (maxDepth - 1) none path trivial { state with ns := { state.ns with newMask := ∅ } } start
  obtain ⟨result, ran⟩ : ∃ result, loadObject env flags.global (maxDepth - 1) none path
    { state with ns := { state.ns with newMask := ∅ } } = result := ⟨_, rfl⟩
  rw [ran] at loaded
  rw [Link.openPath, ran]
  obtain ⟨found, middle⟩ := result
  have reset : holds { middle.ns with newMask := ∅ } :=
    invariant.same middle.ns _ (.of_objs rfl) rfl rfl rfl loaded
  cases found with
  | none => exact invariant.rollBack reset
  | some i =>
      dsimp only
      have finished := @LinkInvariant.finishOpen holds { middle with ns := { middle.ns with newMask := ∅ } }
        env invariant flags i (slotsBySerial middle.ns middle.ns.newMask) reset
      split
      · rename_i failed
        rw [failed] at finished
        exact invariant.rollBack finished
      · rename_i opened
        rw [opened] at finished
        exact finished

theorem LinkInvariant.dlopen (invariant : LinkInvariant holds) (flags : DlFlags) (name : CString)
    (held : holds state.ns) : holds (cosLinkDlopen env flags name state).2.ns := by
  rw [cosLinkDlopen]
  cases resolveFrom env state.ns (some 0) name with
  | none => exact held
  | some path =>
      dsimp only
      split
      · cases findLoaded state.ns path (baseName path) with
        | none => exact held
        | some i => exact invariant.addHandle flags i held
      · exact invariant.openPath flags path held

theorem LinkInvariant.dlclose (invariant : LinkInvariant holds) (handle : Nat)
    (held : holds state.ns) : holds (cosLinkDlclose env handle state).2.ns := by
  rw [cosLinkDlclose]
  cases handleSlot state.ns handle with
  | none => exact held
  | some i =>
      dsimp only
      split
      · exact held
      · have closed : holds (state.ns.updateSlot i fun slot => { slot with refcount := slot.refcount - 1 }) := by
          refine invariant.same _ _ (updateSlot_view ?_ i) rfl rfl rfl held
          exact fun _ => rfl
        split
        · exact closed
        · refine invariant.sameSlots (publishLinkmap_slots env _) (invariant.unloadAll ?_)
          exact closed

theorem LinkInvariant.reached (invariant : LinkInvariant holds)
    {allowed : LinkState → LinkCall → Prop} {pages : UserPages}
    (reached : Reaches linkStep allowed ⟨.fresh, pages, false⟩ state) : holds state.ns := by
  refine @Reaches.invariant _ _ _ _ _ _ (fun state => holds state.ns) reached invariant.fresh
    fun before call held _ => ?_
  cases call with
  | load env program => exact invariant.load held
  | dlopen env flags name => exact invariant.dlopen flags name held
  | dlclose env handle => exact invariant.dlclose handle held

end LinkInvariant

end Cos.Link
