import Cos.Lib.Reclaim
import Cos.Link.Invariants

/-! # What closing a handle unloads

`unload_set` drops, round after round, the objects that nothing it keeps uses any more.  What is
left afterwards that neither the program, nor a handle, nor a `NODELETE` object leads to are the
libraries that use each other in a circle.
-/

namespace Cos.Link

open Cos.Elf Cos.Lib

structure SlotsSound (ns : LinkNs) : Prop where
  inTable : ∀ i, (ns.objs i).isSome → i < maxObjects
  needsUsed : ∀ i j, j ∈ ns.needs i → (ns.objs j).isSome

section SlotsSound

variable {ns other : LinkNs} {i j k : Nat}

theorem slotsSound_fresh : SlotsSound .fresh where
  inTable := fun i used => by simp [LinkNs.fresh] at used
  needsUsed := fun i j need => by simp [LinkNs.needs, LinkNs.fresh] at need

theorem SameView.needs (same : SameView LinkObj.links ns other) (i : Nat) :
    other.needs i = ns.needs i := by
  have views := same i
  rw [LinkNs.needs, LinkNs.needs]
  cases here : other.objs i with
  | none =>
      rw [here] at views
      rw [Option.map_eq_none_iff.mp views.symm]
  | some slot =>
      obtain ⟨original, there, links⟩ := same.slot here
      rw [there]
      exact (Prod.mk.inj links).1

theorem SlotsSound.same (sound : SlotsSound ns) (same : SameView LinkObj.links ns other) :
    SlotsSound other where
  inTable := fun i used => sound.inTable i (by rwa [same.isSome] at used)
  needsUsed := by
    intro i j need
    rw [same.needs] at need
    rw [same.isSome]
    exact sound.needsUsed i j need

theorem addNeed_isSome (ns : LinkNs) (i j k : Nat) :
    ((ns.addNeed i j).objs k).isSome = (ns.objs k).isSome := by
  simp only [LinkNs.addNeed]
  split
  · exact Option.isSome_map
  · rfl

theorem addNeed_needs (ns : LinkNs) (i j k : Nat) :
    (ns.addNeed i j).needs k ⊆ insert j (ns.needs k) := by
  simp only [LinkNs.needs, LinkNs.addNeed]
  split
  · cases ns.objs k with
    | none => simp
    | some slot => exact Finset.Subset.refl _
  · exact Finset.subset_insert _ _

theorem SlotsSound.addNeed (sound : SlotsSound ns) (i : Nat) (used : (ns.objs j).isSome) :
    SlotsSound (ns.addNeed i j) where
  inTable := fun k here => sound.inTable k (by rwa [addNeed_isSome] at here)
  needsUsed := by
    intro k l need
    rw [addNeed_isSome]
    rcases Finset.mem_insert.mp (addNeed_needs ns i j k need) with rfl | old
    · exact used
    · exact sound.needsUsed k l old

theorem SlotsSound.setSlot (sound : SlotsSound ns) {slot : LinkObj} (inTable : i < maxObjects)
    (needs : slot.needsMask ⊆ ns.needs i) : SlotsSound (ns.setSlot i (some slot)) where
  inTable := by
    intro k used
    rw [LinkNs.setSlot_objs] at used
    split at used
    · rename_i here
      rw [here]
      exact inTable
    · exact sound.inTable k used
  needsUsed := by
    intro k l need
    have old : l ∈ ns.needs k := by
      rw [LinkNs.needs, LinkNs.setSlot_objs] at need
      split at need
      · rename_i here
        rw [here]
        exact needs need
      · exact need
    rw [LinkNs.setSlot_objs]
    split
    · rfl
    · exact sound.needsUsed k l old

theorem unloadSlot_needs (state : LinkState) (j k : Nat) :
    (unloadSlot state j).ns.needs k ⊆ state.ns.needs k := by
  rw [LinkNs.needs, unloadSlot_objs]
  split
  · exact Finset.empty_subset _
  · split
    · exact Finset.Subset.refl _
    · rw [LinkNs.needs]
      cases state.ns.objs k with
      | none => exact Finset.empty_subset _
      | some slot => exact Finset.erase_subset _ _

theorem unloadSlot_isSome (state : LinkState) (j k : Nat) :
    ((unloadSlot state j).ns.objs k).isSome = (decide (k ≠ j) && (state.ns.objs k).isSome) := by
  rw [unloadSlot_objs]
  split
  · rename_i here
    simp [here]
  · rename_i different
    split <;> simp [different]

theorem SlotsSound.unload {state : LinkState} (sound : SlotsSound state.ns) (j : Nat) :
    SlotsSound (unloadSlot state j).ns where
  inTable := by
    intro k used
    rw [unloadSlot_isSome, Bool.and_eq_true] at used
    exact sound.inTable k used.2
  needsUsed := by
    intro k l need
    have old := sound.needsUsed k l (unloadSlot_needs state j k need)
    rw [unloadSlot_isSome, old, Bool.and_true, decide_eq_true_eq]
    -- the bit of the slot that is unloaded is erased everywhere
    rintro rfl
    rw [LinkNs.needs, unloadSlot_objs] at need
    split at need
    · simp at need
    · rw [if_neg (by simpa using Option.isSome_iff_ne_none.mp old)] at need
      cases there : state.ns.objs k with
      | none => simp [there] at need
      | some slot => simp [there] at need

theorem slotsSound_invariant : LinkInvariant SlotsSound where
  fresh := slotsSound_fresh
  same := fun _ _ same _ _ _ sound => sound.same same
  need := fun _ i _ used sound => sound.addNeed i used
  room := fun ns span sound => sound.same (.of_objs (allocBase_keepsObjs ns span))
  library := by
    intro ns i slot free needs _ _ _ sound
    have member := List.mem_of_find?_eq_some free
    have placed : SlotsSound (ns.setSlot i (some slot)) :=
      sound.setSlot (List.mem_range.mp member) (by rw [needs]; exact Finset.empty_subset _)
    exact placed.same (.of_objs rfl)
  main := by
    intro program obj ns sound
    have placed : SlotsSound (ns.setSlot 0 (some (mainSlot ns program obj))) :=
      sound.setSlot (by decide) (Finset.Subset.refl _)
    exact placed.same (.of_objs rfl)
  unload := fun _ j sound => sound.unload j

end SlotsSound

/-- The program, a `NODELETE` object, or one with an open handle. -/
def LinkNs.Held (ns : LinkNs) (i : Nat) : Prop :=
  ∃ slot, ns.objs i = some slot ∧ (slot.isMain ∨ slot.nodelete ∨ slot.refcount ≠ 0)

def LinkNs.Uses (ns : LinkNs) (i j : Nat) : Prop := j ∈ ns.needs i

section Rounds

variable {ns : LinkNs} {gone : Finset Nat} {j k : Nat}

theorem LinkNs.Uses.inTable (sound : SlotsSound ns) (uses : ns.Uses k j) : k < maxObjects := by
  refine sound.inTable k ?_
  rw [LinkNs.Uses, LinkNs.needs] at uses
  cases here : ns.objs k with
  | none => simp [here] at uses
  | some slot => rfl

theorem stillNeeded_iff (sound : SlotsSound ns) :
    ns.stillNeeded gone j = true ↔ ∃ k, k ≠ j ∧ ns.Uses k j ∧ k ∉ gone := by
  rw [LinkNs.stillNeeded, List.any_eq_true]
  constructor
  · rintro ⟨k, _, here⟩
    obtain ⟨other, stays, uses⟩ := of_decide_eq_true here
    exact ⟨k, other, uses, stays⟩
  · rintro ⟨k, other, uses, stays⟩
    exact ⟨k, List.mem_range.mpr (uses.inTable sound), decide_eq_true ⟨other, stays, uses⟩⟩

theorem unloadRound_grows (ns : LinkNs) (used : List Nat) (gone : Finset Nat) :
    gone ⊆ unloadRound ns used gone := by
  induction used generalizing gone with
  | nil => exact Finset.Subset.refl _
  | cons i rest ih =>
      rw [unloadRound]
      cases ns.objs i with
      | none => exact ih gone
      | some slot =>
          dsimp only
          split
          · exact ih gone
          · exact (Finset.subset_insert i gone).trans (ih _)

structure Dropped (ns : LinkNs) (gone : Finset Nat) : Prop where
  used : ∀ j ∈ gone, (ns.objs j).isSome
  released : ∀ j ∈ gone, Released ns.Held ns.Uses j

theorem Dropped.round (sound : SlotsSound ns) (used : List Nat) (dropped : Dropped ns gone) :
    Dropped ns (unloadRound ns used gone) := by
  induction used generalizing gone with
  | nil => exact dropped
  | cons i rest ih =>
      rw [unloadRound]
      cases here : ns.objs i with
      | none => exact ih dropped
      | some slot =>
          dsimp only
          split
          · exact ih dropped
          · rename_i leaves
            simp only [not_or] at leaves
            obtain ⟨notMain, deletable, closed, _, notNeeded⟩ := leaves
            have free : ¬ ns.Held i := by
              rintro ⟨other, there, holds⟩
              rw [here] at there
              rw [← Option.some.inj there] at holds
              rcases holds with main | nodelete | open_
              · exact notMain main
              · exact deletable nodelete
              · exact closed open_
            have users : ∀ k, k ≠ i → ns.Uses k i → Released ns.Held ns.Uses k := by
              intro k other uses
              have isGone : k ∈ gone := by
                by_contra stays
                exact notNeeded ((stillNeeded_iff sound).mpr ⟨k, other, uses, stays⟩)
              exact dropped.released k isGone
            refine ih ⟨fun j member => ?_, fun j member => ?_⟩
            · rcases Finset.mem_insert.mp member with rfl | old
              · rw [here]
                rfl
              · exact dropped.used j old
            · rcases Finset.mem_insert.mp member with rfl | old
              · exact .release free users
              · exact dropped.released j old

theorem Dropped.unloadSet (sound : SlotsSound ns) (rounds : Nat) (dropped : Dropped ns gone) :
    Dropped ns (Link.unloadSet ns rounds gone) := by
  induction rounds generalizing gone with
  | zero => exact dropped
  | succ rounds ih =>
      rw [Link.unloadSet]
      split
      · exact dropped
      · exact ih (dropped.round sound slots)

def Settled (ns : LinkNs) (gone : Finset Nat) : Prop := unloadRound ns slots gone = gone

theorem Settled.blocked {used : List Nat} (settled : unloadRound ns used gone = gone)
    {slot : LinkObj} (listed : j ∈ used) (here : ns.objs j = some slot) (stays : j ∉ gone) :
    slot.isMain ∨ slot.nodelete ∨ slot.refcount ≠ 0 ∨ ns.stillNeeded gone j := by
  induction used with
  | nil => simp at listed
  | cons i rest ih =>
      rw [unloadRound] at settled
      cases there : ns.objs i with
      | none =>
          rw [there] at settled
          rcases List.mem_cons.mp listed with rfl | later
          · rw [there] at here
            contradiction
          · exact ih settled later
      | some other =>
          rw [there] at settled
          dsimp only at settled
          split at settled
          · rename_i blocked
            rcases List.mem_cons.mp listed with rfl | later
            · rw [here] at there
              rw [← Option.some.inj there] at blocked
              simpa [stays] using blocked
            · exact ih settled later
          · rename_i leaves
            simp only [not_or] at leaves
            have grown := unloadRound_grows ns rest (insert i gone) (Finset.mem_insert_self i gone)
            rw [settled] at grown
            exact absurd grown leaves.2.2.2.1

theorem Settled.complete (sound : SlotsSound ns) (settled : Settled ns gone)
    (released : Released ns.Held ns.Uses j) : (ns.objs j).isSome → j ∈ gone := by
  induction released with
  | @release j free _ ih =>
      intro used
      by_contra stays
      obtain ⟨slot, here⟩ := Option.isSome_iff_exists.mp used
      have listed : j ∈ slots := List.mem_range.mpr (sound.inTable j used)
      rcases Settled.blocked settled listed here stays with main | nodelete | open_ | needed
      · exact free ⟨slot, here, .inl main⟩
      · exact free ⟨slot, here, .inr (.inl nodelete)⟩
      · exact free ⟨slot, here, .inr (.inr open_)⟩
      · obtain ⟨k, other, uses, kept⟩ := (stillNeeded_iff sound).mp needed
        refine kept (ih k other uses ?_)
        rw [LinkNs.Uses, LinkNs.needs] at uses
        cases there : ns.objs k with
        | none => simp [there] at uses
        | some _ => rfl

theorem unloadSet_settled (sound : SlotsSound ns) (rounds : Nat) (dropped : Dropped ns gone)
    (enough : maxObjects ≤ rounds + gone.card) : Settled ns (unloadSet ns rounds gone) := by
  have bounded : ∀ gone, Dropped ns gone → gone ⊆ Finset.range maxObjects :=
    fun gone dropped j member => Finset.mem_range.mpr (sound.inTable j (dropped.used j member))
  induction rounds generalizing gone with
  | zero =>
      have all : gone = Finset.range maxObjects := by
        refine Finset.eq_of_subset_of_card_le (bounded gone dropped) ?_
        rw [Finset.card_range]
        omega
      have more := unloadRound_grows ns slots gone
      have within := bounded _ (dropped.round sound slots)
      rw [← all] at within
      exact Finset.Subset.antisymm within more
  | succ rounds ih =>
      rw [unloadSet]
      split
      · rename_i settled
        exact settled
      · rename_i grows
        refine ih (dropped.round sound slots) ?_
        have strict : gone ⊂ unloadRound ns slots gone :=
          (unloadRound_grows ns slots gone).ssubset_of_ne (Ne.symm grows)
        have larger := Finset.card_lt_card strict
        omega

theorem mem_unloadSet_iff (sound : SlotsSound ns) :
    j ∈ unloadSet ns maxObjects ∅ ↔ (ns.objs j).isSome ∧ Released ns.Held ns.Uses j := by
  have nothing : Dropped ns ∅ :=
    ⟨fun j member => by simp at member, fun j member => by simp at member⟩
  have dropped := nothing.unloadSet sound maxObjects
  have settled := unloadSet_settled sound maxObjects nothing (by simp)
  constructor
  · exact fun member => ⟨dropped.used j member, dropped.released j member⟩
  · exact fun ⟨used, released⟩ => settled.complete sound released used

end Rounds

def LinkNs.closeHandle (ns : LinkNs) (handle : Nat) : LinkNs :=
  match handleSlot ns handle with
  | none => ns
  | some i => ns.updateSlot i fun slot => { slot with refcount := slot.refcount - 1 }

/-- The close unloads exactly what neither the program, nor a `NODELETE` object, nor an object with
an open handle leads to, and nothing that stays needs anything that goes. -/
structure CollectsGarbage (env : LoadEnv) (handle : Nat) (state : LinkState) : Prop where
  unloads : ∀ j, (state.ns.objs j).isSome →
    (((cosLinkDlclose env handle state).2.ns.objs j).isNone ↔
    ¬ InUse (state.ns.closeHandle handle).Held (state.ns.closeHandle handle).Uses j)
  noDangling : ∀ i j, ((cosLinkDlclose env handle state).2.ns.objs i).isSome →
    j ∈ state.ns.needs i → ((cosLinkDlclose env handle state).2.ns.objs j).isSome

section Close

variable {env : LoadEnv} {handle : Nat} {state : LinkState}

theorem closeHandle_view (ns : LinkNs) (handle : Nat) :
    SameView LinkObj.links ns (ns.closeHandle handle) := by
  rw [LinkNs.closeHandle]
  cases handleSlot ns handle with
  | none => exact .refl ns
  | some i =>
      refine updateSlot_view ?_ i
      exact fun _ => rfl

theorem unloadAll_isSome {order : List Nat} {state : LinkState} {k : Nat} :
    ((order.foldl unloadSlot state).ns.objs k).isSome ↔ k ∉ order ∧ (state.ns.objs k).isSome := by
  induction order generalizing state with
  | nil => simp
  | cons j rest ih =>
      rw [List.foldl_cons, ih, unloadSlot_isSome, Bool.and_eq_true, decide_eq_true_eq, List.mem_cons, not_or]
      exact and_left_comm.trans (and_assoc.symm)

theorem dlclose_isSome (accepted : (cosLinkDlclose env handle state).1 = true) (j : Nat) :
    ((cosLinkDlclose env handle state).2.ns.objs j).isSome ↔ (state.ns.objs j).isSome ∧
      ¬ (j < maxObjects ∧ j ∈ unloadSet (state.ns.closeHandle handle) maxObjects ∅) := by
  rw [← (closeHandle_view state.ns handle).isSome j]
  cases slot : handleSlot state.ns handle with
  | none =>
      rw [cosLinkDlclose, slot] at accepted
      contradiction
  | some i =>
      obtain ⟨closed, isClosed⟩ : ∃ closed, state.ns.updateSlot i (fun slot =>
        { slot with refcount := slot.refcount - 1 }) = closed := ⟨_, rfl⟩
      have closes : state.ns.closeHandle handle = closed := by
        rw [LinkNs.closeHandle, slot]
        exact isClosed
      rw [closes]
      rw [cosLinkDlclose, slot] at accepted ⊢
      dsimp only at accepted ⊢
      rw [isClosed] at accepted ⊢
      split at accepted
      · contradiction
      · rename_i open_
        rw [if_neg open_]
        split
        · rename_i nothing
          simp [nothing]
        · rw [(publishLinkmap_slots env _).objs, unloadAll_isSome, List.mem_filter,
            decide_eq_true_eq, slots, List.mem_range]
          exact and_comm

theorem dlclose_keeps_iff (sound : SlotsSound state.ns)
    (accepted : (cosLinkDlclose env handle state).1 = true) (j : Nat) : ((cosLinkDlclose env handle state).2.ns.objs j).isSome ↔ (state.ns.objs j).isSome ∧
      ¬ Released (state.ns.closeHandle handle).Held (state.ns.closeHandle handle).Uses j := by
  have view := closeHandle_view state.ns handle
  rw [dlclose_isSome accepted, mem_unloadSet_iff (sound.same view), view.isSome]
  constructor
  · exact fun ⟨used, stays⟩ => ⟨used, fun released => stays ⟨sound.inTable j used, used, released⟩⟩
  · exact fun ⟨used, stays⟩ => ⟨used, fun gone => stays gone.2.2⟩

theorem dlclose_noDangling (sound : SlotsSound state.ns)
    (accepted : (cosLinkDlclose env handle state).1 = true)
    {i j : Nat} (stays : ((cosLinkDlclose env handle state).2.ns.objs i).isSome)
    (need : j ∈ state.ns.needs i) : ((cosLinkDlclose env handle state).2.ns.objs j).isSome := by
  have view := closeHandle_view state.ns handle
  obtain ⟨used, kept⟩ := (dlclose_keeps_iff sound accepted i).mp stays
  refine (dlclose_keeps_iff sound accepted j).mpr ⟨sound.needsUsed i j need, fun released => ?_⟩
  rcases eq_or_ne i j with rfl | other
  · exact kept released
  · cases released with
    | release _ users => exact kept (users i other (by rw [LinkNs.Uses, view.needs]; exact need))

/-- In every namespace a run comes to, a close collects exactly the garbage if and only if no
libraries that nothing else leads to use each other in a circle. -/
theorem dlclose_collects_iff {pages : UserPages}
    (reached : Reaches linkStep (fun _ _ => True) ⟨.fresh, pages, false⟩ state)
    (accepted : (cosLinkDlclose env handle state).1 = true) :
    CollectsGarbage env handle state ↔ ∀ j, ¬ Relation.TransGen
      (OrphanUse (state.ns.closeHandle handle).Held (state.ns.closeHandle handle).Uses) j j := by
  have sound : SlotsSound state.ns := slotsSound_invariant.reached reached
  have view := closeHandle_view state.ns handle
  have closedSound : SlotsSound (state.ns.closeHandle handle) := sound.same view
  have complete := @released_iff_acyclic _ (state.ns.closeHandle handle).Held
    (state.ns.closeHandle handle).Uses (Finset.range maxObjects)
    (fun k j uses => Finset.mem_range.mpr (uses.inTable closedSound))
  rw [← complete]
  constructor
  · intro collects j orphan
    cases used : state.ns.objs j with
    | none =>
        -- nothing needs a free slot
        refine .release (fun held => orphan ⟨j, held, .refl⟩) fun k _ uses => ?_
        have needed := closedSound.needsUsed k j uses
        rw [view.isSome, used] at needed
        contradiction
    | some slot =>
        by_contra stays
        have isUsed : (state.ns.objs j).isSome := by rw [used]; rfl
        have gone := (collects.unloads j isUsed).mpr orphan
        have kept := (dlclose_keeps_iff sound accepted j).mpr ⟨isUsed, stays⟩
        rw [Option.isSome_iff_ne_none] at kept
        exact kept (Option.isNone_iff_eq_none.mp gone)
  · intro released
    refine ⟨fun j used => ?_, fun i j stays need => dlclose_noDangling sound accepted stays need⟩
    rw [← Option.not_isSome, Bool.not_eq_true', ← Bool.not_eq_true, dlclose_keeps_iff sound accepted j]
    constructor
    · intro gone
      have isReleased : Released (state.ns.closeHandle handle).Held (state.ns.closeHandle handle).Uses j := by
        by_contra stays
        exact gone ⟨used, stays⟩
      exact isReleased.not_inUse
    · exact fun orphan kept => kept.2 (released j orphan)

end Close

/-- The process after it has opened one library, on an empty namespace. -/
def opened (files : FileSystem) (name : CString) : LinkState :=
  runSteps linkStep ⟨.fresh, noPages, false⟩ [.dlopen (plainEnv files) localNow name]

theorem opened_reached (files : FileSystem) (name : CString) :
    Reaches linkStep (fun _ _ => True) ⟨.fresh, noPages, false⟩ (opened files name) :=
  Reaches.refl.runSteps ⟨trivial, trivial⟩

/-- `/a` is unloaded together with `/c`, which only it needs. -/
theorem dlclose_collects_chain :
    CollectsGarbage (plainEnv threeLibraries) 257 (opened threeLibraries [47, 97]) := by
  have sound := slotsSound_invariant.reached (opened_reached threeLibraries [47, 97])
  have view := closeHandle_view (opened threeLibraries [47, 97]).ns 257
  refine (dlclose_collects_iff (opened_reached _ _) (by decide)).mpr fun j cycle => ?_
  have upward : ∀ k < maxObjects, ∀ j ∈ (opened threeLibraries [47, 97]).ns.needs k, k < j := by
    decide
  have increases : ∀ k j, Relation.TransGen (OrphanUse
      ((opened threeLibraries [47, 97]).ns.closeHandle 257).Held
      ((opened threeLibraries [47, 97]).ns.closeHandle 257).Uses) k j → k < j := by
    intro k j path
    have step : ∀ k j, OrphanUse ((opened threeLibraries [47, 97]).ns.closeHandle 257).Held
        ((opened threeLibraries [47, 97]).ns.closeHandle 257).Uses k j → k < j := by
      intro k j use
      have uses := use.2.1
      have inside := uses.inTable (sound.same view)
      rw [LinkNs.Uses, view.needs] at uses
      exact upward k inside j uses
    induction path with
    | single use => exact step _ _ use
    | tail _ use ih => exact ih.trans (step _ _ use)
  exact Nat.lt_irrefl j (increases j j cycle)

/-- Libraries `/a` and `/b` that need each other. -/
def circularPair : FileSystem :=
  diskOf fun path =>
    if path = [47, 97] then some (plainImage 0 0 [[47, 98]])
    else if path = [47, 98] then some (plainImage 0 0 [[47, 97]])
    else none

/-- Once the only handle is closed, nothing leads to the two libraries, and both stay. -/
theorem dlclose_keeps_pair :
    ¬ CollectsGarbage (plainEnv circularPair) 257 (opened circularPair [47, 97]) := by
  intro collects
  have sound := slotsSound_invariant.reached (opened_reached circularPair [47, 97])
  have view := closeHandle_view (opened circularPair [47, 97]).ns 257
  have unheld : ∀ i < maxObjects, (((opened circularPair [47, 97]).ns.closeHandle 257).objs i).all
      (fun slot => !slot.isMain && !slot.nodelete && slot.refcount == 0) = true := by decide
  have orphan : ¬ InUse ((opened circularPair [47, 97]).ns.closeHandle 257).Held
      ((opened circularPair [47, 97]).ns.closeHandle 257).Uses 0 := by
    rintro ⟨root, ⟨slot, here, held⟩, _⟩
    have inside := (sound.same view).inTable root (by rw [here]; rfl)
    have free := unheld root inside
    rw [here] at free
    simp only [Option.all_some, Bool.and_eq_true, Bool.not_eq_true', beq_iff_eq] at free
    rcases held with main | nodelete | open_
    · simp [free.1.1] at main
    · simp [free.1.2] at nodelete
    · exact open_ free.2
  have gone := (collects.unloads 0 (by decide)).mpr orphan
  contradiction

end Cos.Link
