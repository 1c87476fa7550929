import Cos.Link.Unload

/-! # The destructor plan of a close

Before a handle is closed the process asks which objects will go, to run their destructors while
they are still mapped.  The plan counts the handle as closed already and lists what `unload_set`
names, the lowest load serial first.
-/

namespace Cos.Link

open Cos.Elf Cos.Lib Relation

/-- `refs` of `unload_set`: the handles that are open, with one of `top` taken as closed. -/
def LinkNs.refsWithout (ns : LinkNs) (top i : Nat) : Nat :=
  let refs := (ns.objs i).elim 0 LinkObj.refcount
  if i = top then refs - 1 else refs

/-- One round of `unload_set` that reads the given counts. -/
def planRound (ns : LinkNs) (refs : Nat → Nat) : List Nat → Finset Nat → Finset Nat
  | [], gone => gone
  | j :: rest, gone =>
      match ns.objs j with
      | none => planRound ns refs rest gone
      | some slot =>
          if slot.isMain ∨ slot.nodelete ∨ refs j ≠ 0 ∨ j ∈ gone ∨ ns.stillNeeded gone j then
            planRound ns refs rest gone
          else planRound ns refs rest (insert j gone)

def planSet (ns : LinkNs) (refs : Nat → Nat) : Nat → Finset Nat → Finset Nat
  | 0, gone => gone
  | rounds + 1, gone =>
      if planRound ns refs slots gone = gone then gone
      else planSet ns refs rounds (planRound ns refs slots gone)

/-- `slots_by_serial`, the lowest serial first. -/
def slotsBySerialUp (ns : LinkNs) (mask : Finset Nat) : List Nat :=
  (slots.filter (· ∈ mask)).insertionSort fun a b => ns.serialAt a ≤ ns.serialAt b

/-- `cos_link_dlclose_plan`: the serials it writes, at most `max` of them. -/
def cosLinkDlclosePlan (max handle : Nat) (ns : LinkNs) : Option (List Nat) :=
  match handleSlot ns handle with
  | none => none
  | some i =>
      if (ns.objs i).any fun slot => slot.isMain ∨ slot.refcount = 0 then none
      else
        let gone := planSet ns (ns.refsWithout i) maxObjects ∅
        some (((slotsBySerialUp ns gone).map ns.serialAt).take max)

def OpenHandle (ns : LinkNs) (handle : Nat) : Prop :=
  ∃ i slot, handleSlot ns handle = some i ∧ ns.objs i = some slot ∧ slot.isMain = false ∧
    slot.refcount ≠ 0

structure SerialsSound (ns : LinkNs) : Prop where
  taken : ∀ i slot, ns.objs i = some slot → slot.serial ≤ ns.nextSerial
  distinct : ∀ i j slot other, ns.objs i = some slot → ns.objs j = some other →
    slot.serial = other.serial → i = j

section SerialsSound

variable {ns other : LinkNs}

theorem SerialsSound.keeps (sound : SerialsSound ns) (next : ns.nextSerial ≤ other.nextSerial)
    (kept : ∀ i slot, other.objs i = some slot → ∃ original, ns.objs i = some original ∧
      slot.serial = original.serial) : SerialsSound other where
  taken := by
    intro i slot here
    obtain ⟨original, before, same⟩ := kept i slot here
    rw [same]
    exact (sound.taken i original before).trans next
  distinct := by
    intro i j slot second here there equal
    obtain ⟨original, before, same⟩ := kept i slot here
    obtain ⟨originalSecond, beforeSecond, sameSecond⟩ := kept j second there
    exact sound.distinct i j original originalSecond before beforeSecond (by rw [← same, equal, sameSecond])

theorem SerialsSound.join (sound : SerialsSound ns) {i : Nat} {slot : LinkObj}
    (serial : slot.serial = ns.nextSerial + 1) (next : other.nextSerial = ns.nextSerial + 1)
    (placed : ∀ j, other.objs j = if j = i then some slot else ns.objs j) : SerialsSound other where
  taken := by
    intro j found here
    rw [placed] at here
    split at here
    · cases here
      rw [serial, next]
    · have old := sound.taken j found here
      omega
  distinct := by
    intro j k found second here there equal
    rw [placed] at here there
    split at here <;> split at there
    · rename_i isHere isThere
      rw [isHere, isThere]
    · cases here
      have old := sound.taken k second there
      omega
    · cases there
      have old := sound.taken j found here
      omega
    · exact sound.distinct j k found second here there equal

theorem serialsSound_invariant : LinkInvariant SerialsSound where
  fresh := ⟨fun _ _ here => (nomatch here), fun _ _ _ _ here => (nomatch here)⟩
  same := by
    intro ns other same _ next _ sound
    refine sound.keeps next.ge fun i slot here => ?_
    obtain ⟨original, before, links⟩ := same.slot here
    exact ⟨original, before, congrArg (·.2.2.2) links⟩
  need := by
    intro ns i j _ sound
    refine sound.keeps le_rfl fun k slot here => ?_
    have views := @addNeed_view _ LinkObj.serial ns (fun _ _ => rfl) i j
    exact views.slot here
  room := by
    intro ns span sound
    have objs := allocBase_keepsObjs ns span
    refine sound.keeps ?_ fun i slot here => ⟨slot, by rw [← objs, here], rfl⟩
    rw [allocBase]
    split <;> exact le_rfl
  library := by
    intro ns i slot _ _ _ _ serial sound
    exact sound.join serial rfl fun j => LinkNs.setSlot_objs ns i (some slot) j
  main := by
    intro program obj ns sound
    refine @SerialsSound.join ns _ sound 0 (mainSlot ns program obj) rfl rfl fun j => ?_
    exact LinkNs.setSlot_objs ns 0 _ j
  unload := by
    intro state j sound
    refine sound.keeps ?_ fun k slot here => ?_
    · rw [unloadSlot]
      cases state.ns.objs j <;> exact le_rfl
    · rw [unloadSlot_objs] at here
      split at here
      · contradiction
      · split at here
        · exact ⟨slot, here, rfl⟩
        · obtain ⟨original, before, rfl⟩ := Option.map_eq_some_iff.mp here
          exact ⟨original, before, rfl⟩

theorem SerialsSound.serialAt_inj (sound : SerialsSound ns) {i j : Nat} (used : (ns.objs i).isSome)
    (usedToo : (ns.objs j).isSome) (equal : ns.serialAt i = ns.serialAt j) : i = j := by
  obtain ⟨slot, here⟩ := Option.isSome_iff_exists.mp used
  obtain ⟨second, there⟩ := Option.isSome_iff_exists.mp usedToo
  rw [LinkNs.serialAt, LinkNs.serialAt, here, there] at equal
  exact sound.distinct i j slot second here there equal

end SerialsSound

section Plan

variable {ns : LinkNs} {handle i : Nat}

theorem planRound_eq (found : handleSlot ns handle = some i) (used : List Nat) (gone : Finset Nat) :
    planRound ns (ns.refsWithout i) used gone = unloadRound (ns.closeHandle handle) used gone := by
  have view := closeHandle_view ns handle
  have needed : ∀ gone j, (ns.closeHandle handle).stillNeeded gone j = ns.stillNeeded gone j := by
    intro gone j
    rw [LinkNs.stillNeeded, LinkNs.stillNeeded]
    congr 1
    funext k
    rw [view.needs]
  induction used generalizing gone with
  | nil => rfl
  | cons j rest ih =>
      have closed : (ns.closeHandle handle).objs j =
          if j = i then (ns.objs i).map fun slot => { slot with refcount := slot.refcount - 1 }
          else ns.objs j := by
        rw [LinkNs.closeHandle, found]
        exact LinkNs.setSlot_objs ns i _ j
      rw [planRound, unloadRound, closed]
      split_ifs with here
      · subst here
        cases there : ns.objs j with
        | none => exact ih gone
        | some slot =>
            simp only [Option.map_some, needed, LinkNs.refsWithout, there, Option.elim_some, ↓reduceIte, ih]
      · cases there : ns.objs j with
        | none => exact ih gone
        | some slot => simp only [needed, LinkNs.refsWithout, there, Option.elim_some, if_neg here, ih]

theorem planSet_eq (found : handleSlot ns handle = some i) (rounds : Nat) (gone : Finset Nat) :
    planSet ns (ns.refsWithout i) rounds gone = unloadSet (ns.closeHandle handle) rounds gone := by
  induction rounds generalizing gone with
  | zero => rfl
  | succ rounds ih => rw [planSet, unloadSet, planRound_eq found, ih]

theorem mem_slotsBySerialUp {mask : Finset Nat} {j : Nat} :
    j ∈ slotsBySerialUp ns mask ↔ j < maxObjects ∧ j ∈ mask := by
  rw [slotsBySerialUp, List.mem_insertionSort, List.mem_filter, slots, List.mem_range,
    decide_eq_true_eq]

theorem slotsBySerialUp_sorted (ns : LinkNs) (mask : Finset Nat) :
    (slotsBySerialUp ns mask).Pairwise fun a b => ns.serialAt a ≤ ns.serialAt b := by
  exact List.pairwise_insertionSort _ _

theorem slotsBySerialUp_nodup (ns : LinkNs) (mask : Finset Nat) : (slotsBySerialUp ns mask).Nodup :=
  (List.perm_insertionSort _ _).nodup_iff.mpr (List.nodup_range.filter _)

theorem slotsBySerialUp_strict (sound : SerialsSound ns) {mask : Finset Nat}
    (used : ∀ j ∈ mask, (ns.objs j).isSome) :
    (slotsBySerialUp ns mask).Pairwise fun a b => ns.serialAt a < ns.serialAt b := by
  have ordered := (slotsBySerialUp_sorted ns mask).and (slotsBySerialUp_nodup ns mask)
  refine ordered.imp_of_mem fun {a b} first second ⟨below, different⟩ => ?_
  have usedFirst := used a (mem_slotsBySerialUp.mp first).2
  have usedSecond := used b (mem_slotsBySerialUp.mp second).2
  exact below.lt_of_ne fun equal => different (sound.serialAt_inj usedFirst usedSecond equal)

theorem length_slotsBySerialUp_le (ns : LinkNs) (mask : Finset Nat) :
    (slotsBySerialUp ns mask).length ≤ maxObjects := by
  rw [slotsBySerialUp, List.length_insertionSort]
  exact (List.length_filter_le _ _).trans List.length_range.le

theorem cosLinkDlclosePlan_eq (isOpen : OpenHandle ns handle) :
    cosLinkDlclosePlan maxObjects handle ns =
    some ((slotsBySerialUp ns (unloadSet (ns.closeHandle handle) maxObjects ∅)).map ns.serialAt) := by
  obtain ⟨i, slot, found, here, notMain, counted⟩ := isOpen
  have accepts : ¬ ((ns.objs i).any fun slot => slot.isMain ∨ slot.refcount = 0) = true := by
    simp [here, notMain, counted]
  rw [cosLinkDlclosePlan, found]
  dsimp only
  rw [if_neg accepts, planSet_eq found, List.take_of_length_le]
  rw [List.length_map]
  exact length_slotsBySerialUp_le ns _

theorem dlclose_accepts {env : LoadEnv} {state : LinkState} (isOpen : OpenHandle state.ns handle) :
    (cosLinkDlclose env handle state).1 = true := by
  obtain ⟨i, slot, found, here, notMain, counted⟩ := isOpen
  have accepts : ¬ ((state.ns.objs i).any fun slot => slot.isMain ∨ slot.refcount = 0) = true := by
    simp [here, notMain, counted]
  rw [cosLinkDlclose, found]
  dsimp only
  rw [if_neg accepts]
  split <;> rfl

end Plan

/-- The plan lists the objects that the close unloads, each once. -/
structure PlanLists (env : LoadEnv) (handle : Nat) (state : LinkState) (plan : List Nat) :
    Prop where
  once : plan.Nodup
  known : ∀ serial ∈ plan, ∃ i slot, state.ns.objs i = some slot ∧ slot.serial = serial
  unloaded : ∀ i slot, state.ns.objs i = some slot →
    (slot.serial ∈ plan ↔ ((cosLinkDlclose env handle state).2.ns.objs i).isNone)

/-- An object stands before what it depends on, unless they depend on each other. -/
def DependentsFirst (ns : LinkNs) (plan : List Nat) : Prop :=
  ∀ a b, ns.serialAt a ∈ plan → ns.serialAt b ∈ plan → TransGen ns.Uses a b →
    ¬ TransGen ns.Uses b a → plan.idxOf (ns.serialAt a) < plan.idxOf (ns.serialAt b)

theorem idxOf_lt_iff {l : List Nat} (sorted : l.Pairwise (· < ·)) {a b : Nat} (first : a ∈ l)
    (second : b ∈ l) : l.idxOf a < l.idxOf b ↔ a < b := by
  have mono := sorted.sortedLT.strictMono_get
  have indices := @StrictMono.lt_iff_lt _ _ _ _ _ mono
    ⟨l.idxOf a, List.idxOf_lt_length_of_mem first⟩ ⟨l.idxOf b, List.idxOf_lt_length_of_mem second⟩
  rw [List.idxOf_get, List.idxOf_get] at indices
  exact indices.symm

section Planned

variable {env : LoadEnv} {handle : Nat} {state : LinkState}

theorem uses_isSome {ns : LinkNs} {a b : Nat} (uses : ns.Uses a b) : (ns.objs a).isSome := by
  rw [LinkNs.Uses, LinkNs.needs] at uses
  cases here : ns.objs a with
  | none => simp [here] at uses
  | some _ => rfl

theorem mem_planned_iff (sound : SlotsSound state.ns) {j : Nat} :
    j ∈ slotsBySerialUp state.ns (unloadSet (state.ns.closeHandle handle) maxObjects ∅) ↔
      (state.ns.objs j).isSome ∧
        Released (state.ns.closeHandle handle).Held (state.ns.closeHandle handle).Uses j := by
  have view := closeHandle_view state.ns handle
  rw [mem_slotsBySerialUp, mem_unloadSet_iff (sound.same view), view.isSome]
  exact ⟨fun ⟨_, gone⟩ => gone, fun gone => ⟨sound.inTable j gone.1, gone⟩⟩

theorem planned_sorted (sound : SlotsSound state.ns) (serials : SerialsSound state.ns) :
    ((slotsBySerialUp state.ns (unloadSet (state.ns.closeHandle handle) maxObjects ∅)).map
      state.ns.serialAt).Pairwise (· < ·) := by
  refine List.pairwise_map.mpr (slotsBySerialUp_strict serials fun j gone => ?_)
  have view := closeHandle_view state.ns handle
  rw [← view.isSome]
  exact ((mem_unloadSet_iff (sound.same view)).mp gone).1

theorem serialAt_planned_iff (sound : SlotsSound state.ns) (serials : SerialsSound state.ns)
    {j : Nat} (used : (state.ns.objs j).isSome) :
    state.ns.serialAt j ∈ (slotsBySerialUp state.ns
        (unloadSet (state.ns.closeHandle handle) maxObjects ∅)).map state.ns.serialAt ↔
      Released (state.ns.closeHandle handle).Held (state.ns.closeHandle handle).Uses j := by
  rw [List.mem_map]
  constructor
  · rintro ⟨k, planned, equal⟩
    obtain ⟨usedToo, released⟩ := (mem_planned_iff sound).mp planned
    rwa [serials.serialAt_inj usedToo used equal] at released
  · exact fun released => ⟨j, (mem_planned_iff sound).mpr ⟨used, released⟩, rfl⟩

theorem planLists (sound : SlotsSound state.ns) (serials : SerialsSound state.ns)
    (isOpen : OpenHandle state.ns handle) :
    PlanLists env handle state ((slotsBySerialUp state.ns
      (unloadSet (state.ns.closeHandle handle) maxObjects ∅)).map state.ns.serialAt) where
  once := (planned_sorted sound serials).imp Nat.ne_of_lt
  known := by
    intro serial planned
    obtain ⟨j, listed, rfl⟩ := List.mem_map.mp planned
    obtain ⟨slot, here⟩ := Option.isSome_iff_exists.mp ((mem_planned_iff sound).mp listed).1
    exact ⟨j, slot, here, by rw [LinkNs.serialAt, here]; rfl⟩
  unloaded := by
    intro i slot here
    have used : (state.ns.objs i).isSome := by rw [here]; rfl
    have serial : state.ns.serialAt i = slot.serial := by rw [LinkNs.serialAt, here]; rfl
    rw [← serial, serialAt_planned_iff sound serials used, ← Option.not_isSome, Bool.not_eq_true',
      ← Bool.not_eq_true, dlclose_keeps_iff sound (dlclose_accepts isOpen)]
    constructor
    · exact fun released kept => kept.2 released
    · intro gone
      by_contra stays
      exact gone ⟨used, stays⟩

theorem dependentsFirst_iff (sound : SlotsSound state.ns) (serials : SerialsSound state.ns) :
    DependentsFirst state.ns ((slotsBySerialUp state.ns
        (unloadSet (state.ns.closeHandle handle) maxObjects ∅)).map state.ns.serialAt) ↔
      ∀ a b, a ≠ b → state.ns.Uses a b →
        Released (state.ns.closeHandle handle).Held (state.ns.closeHandle handle).Uses b →
        state.ns.serialAt a < state.ns.serialAt b := by
  have view := closeHandle_view state.ns handle
  have sameUses : (state.ns.closeHandle handle).Uses = state.ns.Uses := by
    funext a b
    rw [LinkNs.Uses, LinkNs.Uses, view.needs]
  have sorted := @planned_sorted handle state sound serials
  rw [sameUses]
  constructor
  · intro ordered a b other uses released
    have user := released.of_path (.single uses)
    rw [← sameUses] at released user
    have plannedUser := (serialAt_planned_iff sound serials (uses_isSome uses)).mpr user
    have planned := (serialAt_planned_iff sound serials (sound.needsUsed a b uses)).mpr released
    rw [sameUses] at released
    have oneWay : ¬ TransGen state.ns.Uses b a := fun back =>
      released.no_return other (.single uses) back.to_reflTransGen
    exact (idxOf_lt_iff sorted plannedUser planned).mp (ordered a b plannedUser planned (.single uses) oneWay)
  · intro rises a b plannedUser planned path oneWay
    refine (idxOf_lt_iff sorted plannedUser planned).mpr ?_
    obtain ⟨last, _, usesLast⟩ := TransGen.tail'_iff.mp path
    have released := (serialAt_planned_iff sound serials (sound.needsUsed last b usesLast)).mp planned
    rw [sameUses] at released
    rcases released.rank_lt rises path.to_reflTransGen with rfl | below
    · exact absurd path oneWay
    · exact below

/-- In every namespace a run comes to the plan lists what the close unloads; it has the dependents
first if and only if no object that goes was loaded before an object that uses it. -/
theorem dlclose_plan_order {pages : UserPages}
    (reached : Reaches linkStep (fun _ _ => True) ⟨.fresh, pages, false⟩ state)
    (isOpen : OpenHandle state.ns handle) :
    ∃ plan, cosLinkDlclosePlan maxObjects handle state.ns = some plan ∧ PlanLists env handle state
      plan ∧ (DependentsFirst state.ns plan ↔ ∀ a b, a ≠ b → state.ns.Uses a b →
        Released (state.ns.closeHandle handle).Held (state.ns.closeHandle handle).Uses b →
        state.ns.serialAt a < state.ns.serialAt b) := by
  have sound : SlotsSound state.ns := slotsSound_invariant.reached reached
  have serials : SerialsSound state.ns := serialsSound_invariant.reached reached
  exact ⟨_, cosLinkDlclosePlan_eq isOpen, planLists sound serials isOpen,
    dependentsFirst_iff sound serials⟩

end Planned

theorem openHandle_iff {ns : LinkNs} {handle : Nat} : OpenHandle ns handle ↔
    ((handleSlot ns handle).bind ns.objs).any (fun slot => !slot.isMain && slot.refcount != 0) =
    true := by
  constructor
  · rintro ⟨i, slot, found, here, notMain, counted⟩
    simp [found, here, notMain, counted]
  · intro isOpen
    cases found : handleSlot ns handle with
    | none => simp [found] at isOpen
    | some i =>
        cases here : ns.objs i with
        | none => simp [found, here] at isOpen
        | some slot =>
            simp only [found, here, Option.bind_some, Option.any_some, Bool.and_eq_true,
              Bool.not_eq_true', bne_iff_ne] at isOpen
            exact ⟨i, slot, found, here, isOpen.1, isOpen.2⟩

/-- A library and the one it pulled in are planned in that order. -/
theorem dlclose_plan_order_chain : ∃ plan,
    cosLinkDlclosePlan maxObjects 257 (opened threeLibraries [47, 97]).ns = some plan ∧
      PlanLists (plainEnv threeLibraries) 257 (opened threeLibraries [47, 97]) plan ∧
      DependentsFirst (opened threeLibraries [47, 97]).ns plan := by
  have isOpen : OpenHandle (opened threeLibraries [47, 97]).ns 257 := openHandle_iff.mpr (by decide)
  obtain ⟨plan, planned, lists, ordered⟩ := @dlclose_plan_order (plainEnv threeLibraries) 257 _ _
    (opened_reached threeLibraries [47, 97]) isOpen
  refine ⟨plan, planned, lists, ordered.mpr fun a b other uses _ => ?_⟩
  have rises : ∀ a < maxObjects, ∀ b ∈ (opened threeLibraries [47, 97]).ns.needs a,
      (opened threeLibraries [47, 97]).ns.serialAt a < (opened threeLibraries [47, 97]).ns.serialAt b := by
    decide
  have sound := slotsSound_invariant.reached (opened_reached threeLibraries [47, 97])
  exact rises a (uses.inTable sound) b uses

/-- A program that opens `/c`, then `/a`, which needs it, and closes `/c` again. -/
def openedBefore : LinkState :=
  runSteps linkStep ⟨.fresh, noPages, false⟩ [.load (plainEnv threeLibraries) (plainProgram []),
    .dlopen (plainEnv threeLibraries) localNow [47, 99],
    .dlopen (plainEnv threeLibraries) localNow [47, 97], .dlclose (plainEnv threeLibraries) 514]

theorem openedBefore_reached :
    Reaches linkStep (fun _ _ => True) ⟨.fresh, noPages, false⟩ openedBefore :=
  Reaches.refl.runSteps ⟨trivial, trivial, trivial, trivial, trivial⟩

/-- `/c` was loaded first, so its destructors run before those of `/a`, which uses it. -/
theorem dlclose_plan_library_first :
    Reaches linkStep (fun _ _ => True) ⟨.fresh, noPages, false⟩ openedBefore ∧
    OpenHandle openedBefore.ns 771 ∧ cosLinkDlclosePlan maxObjects 771 openedBefore.ns =
    some [2, 3] ∧ ¬ DependentsFirst openedBefore.ns [2, 3] := by
  refine ⟨openedBefore_reached, openHandle_iff.mpr (by decide), by decide, fun ordered => ?_⟩
  have serials : openedBefore.ns.serialAt 1 = 2 ∧ openedBefore.ns.serialAt 2 = 3 := by decide
  have uses : openedBefore.ns.Uses 2 1 := by
    rw [LinkNs.Uses]
    decide
  have unused : openedBefore.ns.needs 1 = ∅ := by decide
  have oneWay : ¬ TransGen openedBefore.ns.Uses 1 2 := by
    intro path
    obtain ⟨middle, first, _⟩ := TransGen.head'_iff.mp path
    rw [LinkNs.Uses, unused] at first
    simp at first
  have before := ordered 2 1 (by simp [serials]) (by simp [serials]) (.single uses) oneWay
  exact absurd before (by decide)

end Cos.Link
