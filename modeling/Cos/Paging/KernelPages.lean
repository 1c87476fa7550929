import Mathlib.Logic.Function.Basic
import Cos.Lib.Run
import Cos.Paging.VirtRanges

/-! # Kernel page allocations

`paging_alloc_pages` serves kernel virtual memory from `virt_free_list` and, when
no freed range is large enough, from a cursor (`kernel_valloc_next`) that only
moves up.  `paging_free_pages` gives ranges back to the list.
-/

namespace Cos.Paging

open Cos.Lib

def kernelLowIdentityDynamicSlack : Nat := 64 * 1024 * 1024

/-- `paging_initial_identity_limit`, from the end of the kernel image and the
size of the physical memory. -/
def pagingInitialIdentityLimit (kernelEnd total : Nat) : Nat :=
  let limit := alignUpPage kernelEnd
  let slackEnd := (limit + kernelLowIdentityDynamicSlack) % 2 ^ 64
  let slackEnd := if slackEnd < limit then limit else slackEnd
  let slackEnd := if total ≠ 0 ∧ slackEnd > total then total else slackEnd
  alignUpPage slackEnd

/-- The kernel's virtual allocator, with the pages that have a leaf in the page
table and, as ghost state, the allocations that have not been freed. -/
structure VirtState where
  virtFreeList : List VirtRange
  kernelVallocNext : Nat
  /-- By bits 12..47 of the address, which are all the walk looks at. -/
  present : Nat → Bool
  live : List VirtRange

def pageIndex (virt : Nat) : Nat := virt / 4096 % 2 ^ 36

/-- The mapping loop of `paging_alloc_pages`, from page `mapped` on.  The loop stops
when there is no frame (`noFrame`), when the address does not fit, and when
`paging_map_page` fails: for want of a table (`noTable`) or because the leaf is
already present. -/
def mapPages (noFrame noTable : Nat → Bool) (base : Nat) :
    Nat → Nat → (Nat → Bool) → Nat × (Nat → Bool)
  | 0, mapped, present => (mapped, present)
  | todo + 1, mapped, present =>
      if noFrame mapped then (mapped, present)
      else match addOverflowU64 base (mapped * 4096 % 2 ^ 64) with
      | none => (mapped, present)
      | some virt =>
          if noTable mapped || present (pageIndex virt) then (mapped, present)
          else mapPages noFrame noTable base todo (mapped + 1)
            (Function.update present (pageIndex virt) true)

/-- The undo loop of `paging_alloc_pages`: the first `mapped` pages are unmapped. -/
def unmapPages (base : Nat) : Nat → (Nat → Bool) → Nat → Bool
  | 0, present => present
  | mapped + 1, present =>
      let present := unmapPages base mapped present
      match addOverflowU64 base (mapped * 4096 % 2 ^ 64) with
      | none => present
      | some virt => Function.update present (pageIndex virt) false

/-- `paging_alloc_pages`: the base returned (0 on failure) and the new state.
`identityLimit` is what `paging_initial_identity_limit` computes. -/
def pagingAllocPages (identityLimit : Nat) (noFrame noTable : Nat → Bool) (count : Nat)
    (state : VirtState) : Nat × VirtState :=
  if count = 0 then (0, state)
  else
    let next := if state.kernelVallocNext = 0 then identityLimit else state.kernelVallocNext
    let (fromFreeList, base, ranges) :=
      match virtFreeRangeTake state.virtFreeList count with
      | some (base, ranges) => (true, base, ranges)
      | none => (false, next, state.virtFreeList)
    let (mapped, present) := mapPages noFrame noTable base count 0 state.present
    if mapped ≠ count then
      (0, { state with
        kernelVallocNext := next
        present := unmapPages base mapped present
        virtFreeList := virtFreeRangeAdd ranges base count })
    else
      (base, { state with
        kernelVallocNext := if fromFreeList then next else (base + count * 4096) % 2 ^ 64
        present := present
        virtFreeList := ranges })

/-- The loop of `paging_free_pages`: how many pages were freed, and the page table. -/
def freePages (base : Nat) : Nat → Nat → (Nat → Bool) → Nat × (Nat → Bool)
  | 0, freed, present => (freed, present)
  | todo + 1, freed, present =>
      match addOverflowU64 base (freed * 4096 % 2 ^ 64) with
      | none => (freed, present)
      | some virt => freePages base todo (freed + 1) (Function.update present (pageIndex virt) false)

def pagingFreePages (virt count : Nat) (state : VirtState) : VirtState :=
  if virt = 0 ∨ count = 0 then state
  else
    let (freed, present) := freePages virt count 0 state.present
    { state with present := present, virtFreeList := virtFreeRangeAdd state.virtFreeList virt freed }

/-- A call, with the outcomes of the frame and table allocations inside it. -/
inductive VirtCall where
  | alloc (count : Nat) (noFrame noTable : Nat → Bool)
  | free (range : VirtRange)

def virtStep (identityLimit : Nat) (state : VirtState) : VirtCall → VirtState
  | .alloc count noFrame noTable =>
      let (base, after) := pagingAllocPages identityLimit noFrame noTable count state
      if base = 0 then after else { after with live := ⟨base, count⟩ :: after.live }
  | .free range =>
      let after := pagingFreePages range.base range.count state
      { after with live := after.live.erase range }


variable {noFrame noTable : Nat → Bool} {present : Nat → Bool} {base count limit : Nat}

/-- The address the loops compute for page `i`. -/
def pageAddr (base i : Nat) : Option Nat := addOverflowU64 base (i * 4096 % 2 ^ 64)

theorem pageAddr_of_lt {i : Nat} (fits : base + i * 4096 < 2 ^ 64) :
    pageAddr base i = some (base + i * 4096) := by
  have noWrap : i * 4096 % 2 ^ 64 = i * 4096 := Nat.mod_eq_of_lt (by omega)
  rw [pageAddr, noWrap, addOverflowU64_of_lt fits]

theorem mapPages_spec {todo mapped done : Nat} {after : Nat → Bool}
    (mapping : mapPages noFrame noTable base todo mapped present = (done, after)) :
    mapped ≤ done ∧ done ≤ mapped + todo ∧
      (∀ i, mapped ≤ i → i < done →
        ∃ virt, pageAddr base i = some virt ∧ present (pageIndex virt) = false) ∧
      ∀ page, present page = true → after page = true := by
  induction todo generalizing mapped present with
  | zero =>
      obtain ⟨rfl, rfl⟩ := Prod.mk.inj mapping
      exact ⟨Nat.le_refl _, Nat.le_refl _, fun i low high => by omega, fun _ there => there⟩
  | succ todo ih =>
      have stopped (same : (mapped, present) = (done, after)) :
          mapped ≤ done ∧ done ≤ mapped + (todo + 1) ∧
            (∀ i, mapped ≤ i → i < done →
              ∃ virt, pageAddr base i = some virt ∧ present (pageIndex virt) = false) ∧
            ∀ page, present page = true → after page = true := by
        obtain ⟨rfl, rfl⟩ := Prod.mk.inj same
        exact ⟨Nat.le_refl _, by omega, fun i low high => by omega, fun _ there => there⟩
      rw [mapPages] at mapping
      split at mapping
      · exact stopped mapping
      cases address : addOverflowU64 base (mapped * 4096 % 2 ^ 64) with
      | none =>
          rw [address] at mapping
          exact stopped mapping
      | some virt =>
          simp only [address] at mapping
          split at mapping
          · exact stopped mapping
          rename_i free
          simp only [Bool.or_eq_true, not_or, Bool.not_eq_true] at free
          obtain ⟨low, high, fresh, kept⟩ := ih mapping
          refine ⟨by omega, by omega, ?_, ?_⟩
          · intro i lower upper
            by_cases first : i = mapped
            · subst first
              exact ⟨virt, address, free.2⟩
            · obtain ⟨other, otherAddress, otherFree⟩ := fresh i (by omega) upper
              refine ⟨other, otherAddress, ?_⟩
              by_cases same : pageIndex other = pageIndex virt
              · rw [same]
                exact free.2
              · rwa [Function.update_of_ne same] at otherFree
          · intro page there
            apply kept
            by_cases same : page = pageIndex virt
            · rw [same, Function.update_self]
            · rwa [Function.update_of_ne same]

theorem unmapPages_frame {mapped page : Nat}
    (missed : ∀ i, i < mapped → ∀ virt, pageAddr base i = some virt → pageIndex virt ≠ page) :
    unmapPages base mapped present page = present page := by
  induction mapped with
  | zero => rfl
  | succ mapped ih =>
      have earlier := ih fun i before => missed i (by omega)
      rw [unmapPages]
      cases address : addOverflowU64 base (mapped * 4096 % 2 ^ 64) with
      | none => exact earlier
      | some virt =>
          have other := missed mapped (by omega) virt address
          simp only
          rw [Function.update_of_ne (Ne.symm other)]
          exact earlier

theorem mapPages_undone {done : Nat} {after : Nat → Bool}
    (mapping : mapPages noFrame noTable base count 0 present = (done, after)) {page : Nat}
    (there : present page = true) : unmapPages base done after page = true := by
  obtain ⟨_, _, fresh, kept⟩ := mapPages_spec mapping
  rw [unmapPages_frame]
  · exact kept page there
  · intro i before virt address same
    obtain ⟨other, otherAddress, free⟩ := fresh i (Nat.zero_le _) before
    obtain rfl := Option.some.inj (address.symm.trans otherAddress)
    rw [same, there] at free
    contradiction

theorem mapPages_succeeds {todo mapped : Nat} (fits : base + (mapped + todo) * 4096 ≤ 2 ^ 47)
    (frames : ∀ i, mapped ≤ i → i < mapped + todo → noFrame i = false ∧ noTable i = false)
    (free : ∀ i, mapped ≤ i → i < mapped + todo → present (pageIndex (base + i * 4096)) = false) :
    (mapPages noFrame noTable base todo mapped present).1 = mapped + todo := by
  induction todo generalizing mapped present with
  | zero => rfl
  | succ todo ih =>
      have address : addOverflowU64 base (mapped * 4096 % 2 ^ 64) = some (base + mapped * 4096) :=
        pageAddr_of_lt (by omega)
      obtain ⟨frame, table⟩ := frames mapped (Nat.le_refl _) (by omega)
      have here := free mapped (Nat.le_refl _) (by omega)
      have sum : mapped + (todo + 1) = mapped + 1 + todo := by omega
      rw [sum] at fits
      rw [mapPages, frame, address]
      simp only [table, here, Bool.false_eq_true, Bool.or_self, if_false]
      rw [sum]
      apply ih fits (fun i low high => frames i (by omega) (by omega))
      intro i low high
      have distinct : pageIndex (base + i * 4096) ≠ pageIndex (base + mapped * 4096) := by
        unfold pageIndex
        omega
      rw [Function.update_of_ne distinct]
      exact free i (by omega) (by omega)

theorem freePages_spec {todo freed : Nat} (fits : base + (freed + todo) * 4096 ≤ 2 ^ 47) :
    (freePages base todo freed present).1 = freed + todo ∧
      ∀ page, 2 ^ 35 ≤ page → (freePages base todo freed present).2 page = present page := by
  induction todo generalizing freed present with
  | zero => exact ⟨rfl, fun _ _ => rfl⟩
  | succ todo ih =>
      have address : addOverflowU64 base (freed * 4096 % 2 ^ 64) = some (base + freed * 4096) :=
        pageAddr_of_lt (by omega)
      have sum : freed + (todo + 1) = freed + 1 + todo := by omega
      rw [sum] at fits
      rw [freePages, address, sum]
      obtain ⟨total, kept⟩ := @ih (Function.update present (pageIndex (base + freed * 4096)) false)
        (freed + 1) fits
      refine ⟨total, fun page high => ?_⟩
      have other : page ≠ pageIndex (base + freed * 4096) := by
        unfold pageIndex
        omega
      exact (kept page high).trans (Function.update_of_ne other _ _)

variable {identityLimit : Nat} {state : VirtState}

/-- The state `paging_init` leaves: nothing allocated, the cursor after the
identity-mapped runway. -/
def virtBoot (kernelEnd total : Nat) (present : Nat → Bool) : VirtState where
  virtFreeList := []
  kernelVallocNext := pagingInitialIdentityLimit kernelEnd total
  present := present
  live := []

/-- What the callers keep to: counts are 64-bit words and only a live allocation is freed. -/
def VirtCall.WellFormed (state : VirtState) : VirtCall → Prop
  | .alloc count _ _ => count < 2 ^ 64
  | .free range => range ∈ state.live

/-- Every page of a call that the cursor serves gets a frame, a table and a free leaf. -/
def CursorMaps (state : VirtState) (count : Nat) (noFrame noTable : Nat → Bool) : Prop :=
  ∀ i, i < count → noFrame i = false ∧ noTable i = false ∧
    state.kernelVallocNext + i * 4096 < 2 ^ 64 ∧
    state.present (pageIndex (state.kernelVallocNext + i * 4096)) = false

/-- A call that no freed range can serve either maps all its pages or asks for a range
that the failure path cannot store. -/
def VirtCall.SparesCursor (state : VirtState) : VirtCall → Prop
  | .alloc count noFrame noTable =>
      (∀ range ∈ state.virtFreeList, range.count < count) →
        CursorMaps state count noFrame noTable ∨
          RangeDropped state.virtFreeList state.kernelVallocNext count
  | .free _ => True

def VirtCall.Allowed (state : VirtState) (call : VirtCall) : Prop :=
  call.WellFormed state ∧ call.SparesCursor state

/-- The freed ranges, the live ranges and everything from the cursor up are disjoint. -/
structure VirtDisjoint (state : VirtState) : Prop where
  apart : RangesApart (state.virtFreeList ++ state.live)
  below : ∀ range ∈ state.virtFreeList ++ state.live,
    range.base + range.count * 4096 ≤ state.kernelVallocNext

/-- Where `pageIndex` puts the first page of the direct map, the address `2 ^ 47` of the
lower half: the cursor can never get past it. -/
def directMapPage : Nat := pageIndex 0xFFFF800000000000

structure VirtInvariant (state : VirtState) : Prop where
  aligned : state.kernelVallocNext % 4096 = 0
  positive : 0 < state.kernelVallocNext
  bounded : state.kernelVallocNext ≤ 2 ^ 47
  directMap : state.present directMapPage = true
  sound : ∀ range ∈ state.virtFreeList ++ state.live, range.Sound state.kernelVallocNext
  apart : RangesApart (state.virtFreeList ++ state.live)

theorem directMapPage_eq : directMapPage = 2 ^ 35 := by decide

theorem VirtInvariant.fits (invariant : VirtInvariant state)
    (free : ∀ i, i < count → state.kernelVallocNext + i * 4096 < 2 ^ 64 →
      state.present (pageIndex (state.kernelVallocNext + i * 4096)) = false) :
    state.kernelVallocNext + count * 4096 ≤ 2 ^ 47 := by
  obtain ⟨aligned, positive, bounded, directMap, _, _⟩ := invariant
  by_contra beyond
  have top : state.kernelVallocNext + (2 ^ 47 - state.kernelVallocNext) / 4096 * 4096 = 2 ^ 47 := by
    omega
  have clash := free ((2 ^ 47 - state.kernelVallocNext) / 4096) (by omega) (by omega)
  have aliased : pageIndex (2 ^ 47) = directMapPage := by decide
  rw [top, aliased, directMap] at clash
  contradiction

theorem CursorMaps.mapped (invariant : VirtInvariant state)
    (maps : CursorMaps state count noFrame noTable) :
    (mapPages noFrame noTable state.kernelVallocNext count 0 state.present).1 = count := by
  have fits := invariant.fits fun i inside _ => (maps i inside).2.2.2
  rw [mapPages_succeeds (by rwa [Nat.zero_add]), Nat.zero_add]
  · intro i _ high
    exact ⟨(maps i (by omega)).1, (maps i (by omega)).2.1⟩
  · intro i _ high
    exact (maps i (by omega)).2.2.2

theorem virtFreeRangeTake_none {ranges : List VirtRange} (some : count ≠ 0)
    (taken : virtFreeRangeTake ranges count = none) : ∀ range ∈ ranges, range.count < count := by
  rw [virtFreeRangeTake, if_neg some] at taken
  cases found : ranges.findIdx? (fun range => range.count ≥ count) with
  | none =>
      intro range member
      simpa using List.findIdx?_eq_none_iff.mp found range member
  | some index =>
      simp only [found] at taken
      split at taken <;> contradiction

theorem allocFromList_invariant {ranges : List VirtRange} (invariant : VirtInvariant state)
    (counted : count ≠ 0)
    (taken : virtFreeRangeTake state.virtFreeList count = some (base, ranges)) :
    VirtInvariant (virtStep identityLimit state (.alloc count noFrame noTable)) := by
  obtain ⟨aligned, positive, bounded, directMap, sound, apart⟩ := invariant
  obtain ⟨cutApart, cutSound⟩ := virtFreeRangeTake_apart bounded
    (fun range member => sound range (by simp [member])) apart taken
  have liveSound : ∀ range ∈ state.live, range.Sound state.kernelVallocNext :=
    fun range member => sound range (by simp [member])
  have baseNonzero : base ≠ 0 := Nat.ne_of_gt (cutSound ⟨base, count⟩ (by simp)).nonzero
  rw [virtStep, pagingAllocPages, if_neg counted]
  simp only [taken, if_neg (Nat.ne_of_gt positive)]
  cases mapping : mapPages noFrame noTable base count 0 state.present with
  | mk done after =>
      by_cases failed : done ≠ count
      · obtain ⟨backApart, backSound⟩ := virtFreeRangeAdd_apart bounded cutSound
          (fun range member => (liveSound range member).nonempty) cutApart
        simp only [if_pos failed, if_true]
        refine ⟨aligned, positive, bounded, mapPages_undone mapping directMap, ?_, backApart⟩
        intro range member
        rcases List.mem_append.mp member with member | member
        · exact backSound range member
        · exact liveSound range member
      · simp only [if_neg failed, if_neg baseNonzero, if_true]
        have kept := (mapPages_spec mapping).2.2.2 directMapPage directMap
        refine ⟨aligned, positive, bounded, kept, ?_, cutApart.perm List.perm_middle.symm⟩
        intro range member
        rcases List.mem_append.mp member with member | member
        · exact cutSound range (by simp [member])
        · rcases List.mem_cons.mp member with rfl | member
          · exact cutSound _ (by simp)
          · exact liveSound range member

theorem VirtInvariant.advance {after : Nat → Bool} (invariant : VirtInvariant state)
    (counted : count ≠ 0)
    (mapping : mapPages noFrame noTable state.kernelVallocNext count 0 state.present =
      (count, after)) :
    VirtInvariant { state with
      kernelVallocNext := (state.kernelVallocNext + count * 4096) % 2 ^ 64
      present := after
      live := ⟨state.kernelVallocNext, count⟩ :: state.live } := by
  obtain ⟨_, _, fresh, kept⟩ := mapPages_spec mapping
  have fits : state.kernelVallocNext + count * 4096 ≤ 2 ^ 47 := by
    apply invariant.fits
    intro i inside small
    obtain ⟨virt, address, free⟩ := fresh i (Nat.zero_le _) inside
    rw [pageAddr_of_lt small] at address
    rw [Option.some.inj address]
    exact free
  obtain ⟨aligned, positive, bounded, directMap, sound, apart⟩ := invariant
  obtain ⟨next, advanced⟩ : ∃ next, state.kernelVallocNext + count * 4096 = next := ⟨_, rfl⟩
  have noWrap : next % 2 ^ 64 = next := Nat.mod_eq_of_lt (by omega)
  have nextAligned : next % 4096 = 0 := by omega
  have nextPositive : 0 < next := by omega
  have nextBounded : next ≤ 2 ^ 47 := by omega
  rw [advanced, noWrap]
  have added : (⟨state.kernelVallocNext, count⟩ : VirtRange).Sound next :=
    ⟨Nat.pos_of_ne_zero counted, aligned, positive, Nat.le_of_eq advanced⟩
  have raised : ∀ range ∈ state.virtFreeList ++ state.live, range.Sound next :=
    fun range member => (sound range member).mono (by omega)
  have opened : RangesApart (⟨state.kernelVallocNext, count⟩ ::
      (state.virtFreeList ++ state.live)) :=
    List.pairwise_cons.mpr ⟨fun range member => Or.inr (sound range member).below, apart⟩
  refine ⟨nextAligned, nextPositive, nextBounded, kept directMapPage directMap, ?_,
    opened.perm List.perm_middle.symm⟩
  intro range member
  rcases List.mem_cons.mp (List.perm_middle.subset member) with rfl | member
  · exact added
  · exact raised range member

theorem allocFromCursor_invariant (invariant : VirtInvariant state) (counted : count ≠ 0)
    (taken : virtFreeRangeTake state.virtFreeList count = none)
    (spared : CursorMaps state count noFrame noTable ∨
      RangeDropped state.virtFreeList state.kernelVallocNext count) :
    VirtInvariant (virtStep identityLimit state (.alloc count noFrame noTable)) := by
  rw [virtStep, pagingAllocPages, if_neg counted]
  simp only [taken, if_neg (Nat.ne_of_gt invariant.positive)]
  cases mapping : mapPages noFrame noTable state.kernelVallocNext count 0 state.present with
  | mk done after =>
      by_cases failed : done ≠ count
      · simp only [if_pos failed, if_true]
        rcases spared with maps | dropped
        · have mapped := maps.mapped invariant
          rw [mapping] at mapped
          exact absurd mapped failed
        · rw [virtFreeRangeAdd_dropped invariant.bounded invariant.aligned
            (fun range member => invariant.sound range (by simp [member])) dropped]
          exact { invariant with directMap := mapPages_undone mapping invariant.directMap }
      · obtain rfl := not_not.mp failed
        simp only [if_neg failed, if_neg (Nat.ne_of_gt invariant.positive), Bool.false_eq_true,
          if_false]
        exact invariant.advance counted mapping

theorem free_invariant {range : VirtRange} (invariant : VirtInvariant state)
    (live : range ∈ state.live) :
    VirtInvariant (virtStep identityLimit state (.free range)) := by
  obtain ⟨aligned, positive, bounded, directMap, sound, apart⟩ := invariant
  have freedSound := sound range (by simp [live])
  have split : (range :: state.live.erase range).Perm state.live :=
    (List.perm_cons_erase live).symm
  have opened : RangesApart (range :: (state.virtFreeList ++ state.live.erase range)) :=
    apart.perm (((split.symm.append_left _).trans List.perm_middle))
  have restSound : ∀ other ∈ state.live.erase range, other.Sound state.kernelVallocNext :=
    fun other member => sound other (by simp [List.mem_of_mem_erase member])
  obtain ⟨freed, kept⟩ := @freePages_spec state.present range.base range.count 0
    (by rw [Nat.zero_add]; exact Nat.le_trans freedSound.below bounded)
  rw [Nat.zero_add] at freed
  rw [virtStep, pagingFreePages, if_neg (by
    have := freedSound.nonzero
    have := freedSound.nonempty
    omega)]
  cases freeing : freePages range.base range.count 0 state.present with
  | mk done after =>
      rw [freeing] at freed kept
      obtain rfl : done = range.count := freed
      obtain ⟨backApart, backSound⟩ := virtFreeRangeAdd_apart bounded
        (fun other member => by
          rcases List.mem_cons.mp member with rfl | member
          · exact freedSound
          · exact sound other (by simp [member]))
        (fun other member => (restSound other member).nonempty) opened
      have direct := (kept directMapPage (Nat.le_of_eq directMapPage_eq.symm)).trans directMap
      refine ⟨aligned, positive, bounded, direct, ?_, backApart⟩
      intro other member
      rcases List.mem_append.mp member with member | member
      · exact backSound other member
      · exact restSound other member

theorem virtStep_invariant (state : VirtState) (call : VirtCall) (invariant : VirtInvariant state)
    (allowed : call.Allowed state) : VirtInvariant (virtStep identityLimit state call) := by
  cases call with
  | free range => exact free_invariant invariant allowed.1
  | alloc count noFrame noTable =>
      by_cases counted : count = 0
      · rw [virtStep, pagingAllocPages, if_pos counted]
        exact invariant
      cases taken : virtFreeRangeTake state.virtFreeList count with
      | some served => exact allocFromList_invariant invariant counted taken
      | none =>
          exact allocFromCursor_invariant invariant counted taken
            (allowed.2 (virtFreeRangeTake_none counted taken))

theorem alignUpPage_spec {v : Nat} (small : v < 2 ^ 63) :
    v ≤ alignUpPage v ∧ alignUpPage v < v + 4096 ∧ alignUpPage v % 4096 = 0 := by
  unfold alignUpPage
  omega

theorem pagingInitialIdentityLimit_spec {kernelEnd total : Nat} (loaded : 0 < kernelEnd)
    (low : kernelEnd + kernelLowIdentityDynamicSlack + 8192 ≤ 2 ^ 47) :
    pagingInitialIdentityLimit kernelEnd total % 4096 = 0 ∧
      0 < pagingInitialIdentityLimit kernelEnd total ∧
      pagingInitialIdentityLimit kernelEnd total ≤ 2 ^ 47 := by
  obtain ⟨limit, limitIs⟩ : ∃ limit, alignUpPage kernelEnd = limit := ⟨_, rfl⟩
  obtain ⟨above, below, _⟩ := @alignUpPage_spec kernelEnd (by omega)
  obtain ⟨slackEnd, slackIs⟩ : ∃ slackEnd, (limit + kernelLowIdentityDynamicSlack) % 2 ^ 64 =
    slackEnd := ⟨_, rfl⟩
  have slackSum : slackEnd = limit + 64 * 1024 * 1024 := by
    unfold kernelLowIdentityDynamicSlack at slackIs
    omega
  simp only [pagingInitialIdentityLimit, limitIs, slackIs,
    if_neg (show ¬ slackEnd < limit by omega)]
  split
  · obtain ⟨totalAbove, totalBelow, totalAligned⟩ := @alignUpPage_spec total (by omega)
    exact ⟨totalAligned, by omega, by omega⟩
  · obtain ⟨endAbove, endBelow, endAligned⟩ := @alignUpPage_spec slackEnd (by omega)
    exact ⟨endAligned, by omega, by omega⟩

theorem virtBoot_invariant {kernelEnd total : Nat} (loaded : 0 < kernelEnd)
    (low : kernelEnd + kernelLowIdentityDynamicSlack + 8192 ≤ 2 ^ 47)
    (directMap : present directMapPage = true) :
    VirtInvariant (virtBoot kernelEnd total present) := by
  obtain ⟨aligned, positive, bounded⟩ := @pagingInitialIdentityLimit_spec _ total loaded low
  exact ⟨aligned, positive, bounded, directMap, by simp [virtBoot],
    by simp [virtBoot, RangesApart]⟩

/-- In every run whose calls all spare the cursor, the freed ranges, the live
allocations and the addresses from the cursor up stay disjoint. -/
theorem kernelRanges_disjoint {kernelEnd total : Nat} (loaded : 0 < kernelEnd)
    (low : kernelEnd + kernelLowIdentityDynamicSlack + 8192 ≤ 2 ^ 47)
    (directMap : present directMapPage = true)
    (reached : Reaches (virtStep (pagingInitialIdentityLimit kernelEnd total)) VirtCall.Allowed
      (virtBoot kernelEnd total present) state) : VirtDisjoint state := by
  have invariant := reached.invariant (virtBoot_invariant loaded low directMap) virtStep_invariant
  exact ⟨invariant.apart, fun range member => (invariant.sound range member).below⟩

/-- A kernel that ends at 4 MiB on a machine with 1 GiB, where only the direct map has leaves. -/
def smallBoot : VirtState := virtBoot 0x400000 0x40000000 fun page => page == directMapPage

def smallStep : VirtState → VirtCall → VirtState :=
  virtStep (pagingInitialIdentityLimit 0x400000 0x40000000)

/-- Two pages from the cursor, given back, and one of them handed out again. -/
def smallCalls : List VirtCall :=
  [.alloc 2 (fun _ => false) (fun _ => false), .free ⟨0x4400000, 2⟩,
    .alloc 1 (fun _ => false) (fun _ => false)]

theorem kernelRanges_disjoint_small :
    (runSteps smallStep smallBoot smallCalls).live = [⟨0x4400000, 1⟩] ∧
      VirtDisjoint (runSteps smallStep smallBoot smallCalls) := by
  have two : 2 < 2 ^ 64 := by decide
  have one : 1 < 2 ^ 64 := by decide
  refine ⟨by decide, kernelRanges_disjoint (by decide) (by decide) (by decide)
    (Reaches.refl.runSteps ⟨⟨two, fun _ => .inl ?_⟩, ⟨?_, trivial⟩, ⟨one, ?_⟩, trivial⟩)⟩
  · unfold CursorMaps
    decide
  · change (⟨0x4400000, 2⟩ : VirtRange) ∈ (runSteps smallStep smallBoot (smallCalls.take 1)).live
    decide
  · intro none
    have listed : (⟨0x4400000, 2⟩ : VirtRange) ∈
        (runSteps smallStep smallBoot (smallCalls.take 2)).virtFreeList := by decide
    exact absurd (none _ listed) (by decide)

/-- A one-page allocation for which there is no frame puts the range on the list that
the cursor still stands at. -/
theorem kernelRanges_overlap :
    ¬ ∀ state, Reaches smallStep VirtCall.WellFormed smallBoot state → VirtDisjoint state := by
  intro disjoint
  have reached : Reaches smallStep VirtCall.WellFormed smallBoot
      (smallStep smallBoot (.alloc 1 (fun _ => true) (fun _ => false))) :=
    Reaches.refl.next (show 1 < 2 ^ 64 by decide)
  have listed : (⟨0x4400000, 1⟩ : VirtRange) ∈
      (smallStep smallBoot (.alloc 1 (fun _ => true) (fun _ => false))).virtFreeList := by
    decide
  have below := (disjoint _ reached).below ⟨0x4400000, 1⟩ (by simp [listed])
  exact absurd below (by decide)

end Cos.Paging
