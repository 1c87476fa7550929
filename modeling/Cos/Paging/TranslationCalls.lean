import Cos.Paging.Translation

/-! # What a call maps

`paging_map_page` changes the leaf of the page it maps and no other, and none when it fails;
`paging_unmap_page` clears the leaf of its page.
-/

namespace Cos.Paging

open SpaceState

variable {offer : Nat → U64} {state later : SpaceState} {root virt phys flags entry table : U64}
  {depth : Nat}
variable {roots : List U64}

theorem TreesSound.one (trees : TreesSound state roots) (live : root ∈ roots) :
    TreesSound state [root] := by
  have within : ∀ other ∈ [root], other ∈ roots :=
    fun other isRoot => List.mem_singleton.mp isRoot ▸ live
  exact ⟨fun root' live' => trees.inUse root' (within root' live'),
    fun root' live' other liveOther =>
    trees.unique root' (within root' live') other (within other liveOther)⟩

theorem MapsOn.one (maps : MapsOn offer roots state later) (live : root ∈ roots) :
    MapsOn offer [root] state later :=
  ⟨maps.trees.one live, fun root' live' => maps.leaves root' (List.mem_singleton.mp live' ▸ live),
    maps.only⟩

theorem TreesSound.rooted (trees : TreesSound state roots) (live : root ∈ roots) : root ≠ 0#64 :=
  (trees.inUse root live 0#64 0 root (by omega) rfl).2.1

theorem undoCreated_maps (trees : TreesSound state [root])
    (found : state.walk root virt depth = some table) (inner : depth ≤ 2)
    (small : depth = 2 → ¬ Huge (state.mem table (slotAt virt depth))) (created : Bool) :
    MapsOn offer [root] state (state.undoCreated created table (slotAt virt depth)) ∧
      ∀ upper ≤ depth, (state.undoCreated created table (slotAt virt depth)).walk root virt upper =
      state.walk root virt upper := by
  have live := List.mem_singleton_self root
  have stays : MapsOn offer [root] state state ∧
    ∀ upper ≤ depth, state.walk root virt upper = state.walk root virt upper :=
    ⟨⟨trees, fun _ _ _ => rfl, TablesOnly.refl offer state⟩, fun _ _ => rfl⟩
  rw [undoCreated, freeIfEmptyChild]
  split
  · split
    · exact stays
    · next child leads =>
      split
      · next isEmpty =>
        have inUse := (trees.inUse root live virt depth table (by omega) found).1
        have isChild : descend depth (state.mem table (slotAt virt depth)) = some child := by
          rw [descend, if_neg fun both => small both.1 both.2]
          exact leads
        have change : EntryChange state ((state.store table (slotAt virt depth) 0#64).kfree child) [root] virt depth table 0#64 :=
          ⟨by omega, ⟨root, live, found⟩, fun _ _ _ => rfl⟩
        refine ⟨⟨change.cleared trees inner fun page notChild _ => ?_, change.freed trees inner isChild isEmpty,
          (TablesOnly.store offer inUse _ _).trans (TablesOnly.kfree offer _ child)⟩,
          fun upper le => change.above trees live virt le⟩
        rw [kfree_level_of_ne (notChild child isChild), store_level]
      · exact stays
  · exact stays

theorem undoTwo_maps (trees : TreesSound state [root]) {pdpt : U64}
    (isPdpt : state.walk root virt 1 = some pdpt) (createdPd createdPdpt : Bool) :
      MapsOn offer [root] state
      ((state.undoCreated createdPd pdpt (idx3 virt)).undoCreated createdPdpt root (idx4 virt)) := by
  obtain ⟨maps, -⟩ := @undoCreated_maps offer state root virt pdpt 1 trees isPdpt (by omega) nofun
    createdPd
  exact maps.trans (@undoCreated_maps offer _ root virt root 0 maps.trees rfl (by omega) nofun createdPdpt).1

theorem undoThree_maps (trees : TreesSound state [root]) {pdpt pd : U64}
    (isPdpt : state.walk root virt 1 = some pdpt)
    (isPd : state.walk root virt 2 = some pd) (small : ¬ Huge (state.mem pd (idx2 virt)))
    (createdPt createdPd createdPdpt : Bool) :
    MapsOn offer [root] state
      (((state.undoCreated createdPt pd (idx2 virt)).undoCreated createdPd pdpt (idx3 virt)).undoCreated
      createdPdpt root (idx4 virt)) := by
  obtain ⟨maps, walks⟩ :=
    @undoCreated_maps offer state root virt pd 2 trees isPd (by omega) (fun _ => small) createdPt
  exact maps.trans (undoTwo_maps maps.trees ((walks 1 (by omega)).trans isPdpt) createdPd createdPdpt)

/-- What a call that maps the addresses of a page, or of a 2 MiB page, does. -/
structure Mapped (offer : Nat → U64) (roots : List U64) (root virt : U64) (depth : Nat)
    (leaf : Bool × U64) (state later : SpaceState) : Prop where
  trees : TreesSound later roots
  only : TablesOnly offer state later
  before : ∀ address, SamePath depth virt address → state.leafAt root address = none
  others : ∀ root' ∈ roots, ∀ address, ¬ SamePath depth virt address →
    later.leafAt root' address = state.leafAt root' address
  leaf : ∀ address, SamePath depth virt address → later.leafAt root address = some leaf
  stays : ∀ root' ∈ roots, ∀ address, state.leafAt root' address ≠ none →
    later.leafAt root' address = state.leafAt root' address

/-- The entry that `paging_map_page` writes. -/
def pageEntry (phys flags : U64) : U64 := (pageDown phys &&& fAddrMask) ||| (flags ||| fPresent)

theorem present_or (low flags : U64) : Present (low ||| (flags ||| fPresent)) := by
  intro absent
  have present : fPresent &&& fPresent = fPresent := by decide
  simp only [BitVec.and_or_distrib_right, present, BitVec.or_eq_zero_iff] at absent
  exact absurd absent.2.2 (by decide)

theorem pagingMapPage_spec (trees : TreesSound state roots) (live : state.pagingRoot ∈ roots)
    (plain : PageFlags flags) : ((state.pagingMapPage offer virt phys flags).2 = true →
      Mapped offer roots state.pagingRoot virt 4 (false, pageEntry phys flags) state
        (state.pagingMapPage offer virt phys flags).1) ∧
    ((state.pagingMapPage offer virt phys flags).2 = false →
      MapsOn offer [state.pagingRoot] state (state.pagingMapPage offer virt phys flags).1) := by
  have rooted := trees.rooted live
  obtain ⟨same4, same3, same2, same1⟩ := idx_pageDown virt
  unfold pagingMapPage
  simp only [if_neg rooted, same4, same3, same2, same1]
  obtain ⟨root, isRoot⟩ : ∃ root, state.pagingRoot = root := ⟨_, rfl⟩
  rw [isRoot] at live rooted ⊢
  rcases run₁ : state.walkGetOrAlloc offer root (idx4 virt) flags 3 with
    ⟨first, _ | pdpt, createdPdpt⟩
  · obtain ⟨maps, -⟩ :=
      @walkGetOrAlloc_maps offer state first root virt flags root 0 roots trees live plain rfl (by omega) (by rintro ⟨⟩)
      3 (by omega) _ _ run₁
    exact ⟨(by rintro ⟨⟩), fun _ => maps.one live⟩
  obtain ⟨maps₁, -, leads₁⟩ :=
    @walkGetOrAlloc_maps offer state first root virt flags root 0 roots trees live plain rfl
      (by omega)
    (by rintro ⟨⟩) 3 (by omega) _ _ run₁
  have isPdpt := leads₁ pdpt rfl
  simp only
  rcases run₂ : first.walkGetOrAlloc offer pdpt (idx3 virt) flags 2 with
    ⟨second, answer₂, createdPd⟩
  obtain ⟨step₂, above₂, leads₂⟩ :=
    @walkGetOrAlloc_maps offer first second root virt flags pdpt 1 roots maps₁.trees live plain
    isPdpt (by omega) (by rintro ⟨⟩) 2 (by omega) _ _ run₂
  have maps₂ := maps₁.trans step₂
  cases answer₂ with
  | none =>
      refine ⟨(by rintro ⟨⟩), fun _ => (maps₂.one live).trans ?_⟩
      exact (@undoCreated_maps offer second root virt root 0 (maps₂.trees.one live) rfl (by omega) (by rintro ⟨⟩) createdPdpt).1
  | some pd =>
      have isPd := leads₂ pd rfl
      simp only
      by_cases huge : Huge (second.mem pd (idx2 virt))
      · rw [if_pos huge]
        exact ⟨(by rintro ⟨⟩), fun _ => maps₂.one live⟩
      rw [if_neg huge]
      rcases run₃ : second.walkGetOrAlloc offer pd (idx2 virt) flags 1 with ⟨third, answer₃, createdPt⟩
      obtain ⟨step₃, above₃, leads₃⟩ := @walkGetOrAlloc_maps offer second third root virt flags pd 2
        roots maps₂.trees live plain isPd (by omega) (fun _ => huge) 1 (by omega) _ _ run₃
      have maps₃ := maps₂.trans step₃
      have isPdpt₃ : third.walk root virt 1 = some pdpt := (above₃ 1 (by omega)).trans ((above₂ 1 (by omega)).trans isPdpt)
      have isPd₃ : third.walk root virt 2 = some pd := (above₃ 2 (by omega)).trans isPd
      cases answer₃ with
      | none => exact ⟨(by rintro ⟨⟩), fun _ => (maps₃.one live).trans (undoTwo_maps (maps₃.trees.one live) isPdpt₃ createdPd createdPdpt)⟩
      | some pt =>
          have isPt := leads₃ pt rfl
          simp only
          by_cases present : Present (third.mem pt (idx1 virt))
          · rw [if_pos present]
            have small : ¬ Huge (third.mem pd (idx2 virt)) := by
              have leads : descend 2 (third.mem pd (idx2 virt)) = some pt := by
                rw [walk, isPd₃, Option.bind_some] at isPt
                exact isPt
              exact fun isHuge => (descend_some leads).2 ⟨rfl, isHuge⟩
            exact ⟨(by rintro ⟨⟩), fun _ => (maps₃.one live).trans
              (undoThree_maps (maps₃.trees.one live) isPdpt₃ isPd₃ small createdPt createdPd createdPdpt)⟩
          · rw [if_neg present]
            refine ⟨fun _ => ?_, (by rintro ⟨⟩)⟩
            have change : EntryChange third (third.store pt (idx1 virt) (pageEntry phys flags))
                roots virt 3 pt (pageEntry phys flags) := EntryChange.ofStore live isPt (by omega) _
            obtain ⟨trees', others, leaf⟩ := change.leafWritten maps₃.trees rfl
            have inUse := (maps₃.trees.inUse root live virt 3 pt (by omega) isPt).1
            refine ⟨trees', maps₃.only.trans (TablesOnly.store offer inUse _ _), fun address path => ?_,
              fun root' live' address other => (others root' live' address other).trans (maps₃.leaves root' live' address),
              fun address path => (leaf root live address isPt path).trans (if_pos (present_or _ _)), fun root' live' address mapped => ?_⟩
            · rw [← maps₃.leaves root live address]
              have isPt' : third.walk root address 3 = some pt := (walk_samePath (path.mono (by omega))).symm.trans isPt
              refine leafAt_absent isPt' (by omega) ?_
              rw [← path 3 (by omega)]
              exact present
            · rw [← maps₃.leaves root' live' address] at mapped ⊢
              refine (change.away maps₃.trees live' fun found isSlot => mapped (leafAt_absent found (by omega) ?_)).2
              rw [isSlot]
              exact present

/-- The upper part of `prune_empty_page_tables`: an empty PD is freed, then an empty PDPT. -/
def pruneUpper (state : SpaceState) (root virt pdpt pd : U64) : SpaceState :=
  if ¬state.levelIsEmpty pd then state
  else
    let state := (state.store pdpt (idx3 virt) 0#64).kfree pd
    if ¬state.levelIsEmpty pdpt then state else (state.store root (idx4 virt) 0#64).kfree pdpt

theorem pruneUpper_maps (trees : TreesSound state [root]) {pdpt pd : U64}
    (isPdpt : state.walk root virt 1 = some pdpt)
    (isPd : state.walk root virt 2 = some pd) :
    MapsOn offer [root] state (pruneUpper state root virt pdpt pd) := by
  have live := List.mem_singleton_self root
  have leads₂ : descend 1 (state.mem pdpt (slotAt virt 1)) = some pd := by
    rw [walk, isPdpt, Option.bind_some] at isPd
    exact isPd
  rw [pruneUpper]
  split
  · exact ⟨trees, fun _ _ _ => rfl, TablesOnly.refl offer state⟩
  · next emptyPd =>
    have change : EntryChange state ((state.store pdpt (idx3 virt) 0#64).kfree pd) [root] virt 1
      pdpt 0#64 :=
      ⟨by omega, ⟨root, live, isPdpt⟩, fun _ _ _ => rfl⟩
    have maps : MapsOn offer [root] state ((state.store pdpt (idx3 virt) 0#64).kfree pd) :=
      ⟨change.cleared trees (by omega) fun page notPd _ => by rw [kfree_level_of_ne (notPd pd leads₂), store_level],
        change.freed trees (by omega) leads₂ (not_not.mp emptyPd),
        (TablesOnly.store offer (trees.inUse root live virt 1 pdpt (by omega) isPdpt).1 _ _).trans (TablesOnly.kfree offer _ pd)⟩
    have isPdpt' := (change.above trees live virt (Nat.le_refl 1)).trans isPdpt
    obtain ⟨second, isSecond⟩ : ∃ second, (state.store pdpt (idx3 virt) 0#64).kfree pd = second :=
      ⟨_, rfl⟩
    rw [isSecond] at maps isPdpt' ⊢
    dsimp only
    split
    · exact maps
    · next emptyPdpt =>
      have leads' : descend 0 (second.mem root (slotAt virt 0)) = some pdpt := isPdpt'
      have change' : EntryChange second ((second.store root (idx4 virt) 0#64).kfree pdpt) [root] virt 0 root 0#64 :=
        ⟨by omega, ⟨root, live, rfl⟩, fun _ _ _ => rfl⟩
      exact maps.trans
        ⟨change'.cleared maps.trees (by omega) fun page notPdpt _ => by rw [kfree_level_of_ne (notPdpt pdpt leads'), store_level],
          change'.freed maps.trees (by omega) leads' (not_not.mp emptyPdpt),
          (TablesOnly.store offer (maps.trees.inUse root live virt 0 root (by omega) rfl).1 _ _).trans
            (TablesOnly.kfree offer _ pdpt)⟩

theorem prune_eq {pdpt pd pt : U64} (found : state.leafTable root virt = some (pdpt, pd, pt)) :
    state.pruneEmptyPageTables root virt = if ¬state.levelIsEmpty pt then state
      else pruneUpper ((state.store pd (idx2 virt) 0#64).kfree pt) root virt pdpt pd := by
  rw [pruneEmptyPageTables, found]
  rfl

theorem leafTable_walk {pdpt pd pt : U64}
    (found : state.leafTable root virt = some (pdpt, pd, pt)) :
    state.walk root virt 1 = some pdpt ∧ state.walk root virt 2 = some pd ∧
    follow (state.mem pd (idx2 virt)) = some pt := by
  obtain ⟨first, second, third⟩ := leafTable_eq_some.1 found
  have isPdpt : state.walk root virt 1 = some pdpt := first
  refine ⟨isPdpt, ?_, third⟩
  rw [walk, isPdpt, Option.bind_some]
  exact second

theorem leafTable_none (found : state.leafTable root virt = none) :
    state.walk root virt 3 = none := by
  cases isPd : state.walk root virt 2 with
  | none => exact walk_none_mono isPd (by omega)
  | some pd =>
      cases isPt : state.walk root virt 3 with
      | none => rfl
      | some pt =>
          have isPdpt : ∃ pdpt, follow (state.mem root (idx4 virt)) = some pdpt ∧ follow (state.mem pdpt (idx3 virt)) = some pd := by
            simp only [walk, Option.bind_some, slotAt, descend_pml4, descend_pdpt, Option.bind_eq_some_iff] at isPd
            exact isPd
          obtain ⟨pdpt, first, second⟩ := isPdpt
          have leads : descend 2 (state.mem pd (idx2 virt)) = some pt := by
            rw [walk, isPd, Option.bind_some] at isPt
            exact isPt
          have path := leafTable_eq_some.2 ⟨first, second, (descend_some leads).1⟩
          rw [found] at path
          cases path

structure Unmapped (offer : Nat → U64) (root virt : U64) (depth : Nat) (state later : SpaceState) :
    Prop where
  trees : TreesSound later [root]
  only : TablesOnly offer state later
  others : ∀ address, ¬ SamePath depth virt address →
    later.leafAt root address = state.leafAt root address
  leaf : ∀ address, SamePath depth virt address → later.leafAt root address = none

theorem leafAt_samePath {address : U64} (same : SamePath 4 virt address) :
    state.leafAt root address = state.leafAt root virt := by
  have slot2 : idx2 address = idx2 virt := (same 2 (by omega)).symm
  have slot1 : idx1 address = idx1 virt := (same 3 (by omega)).symm
  rw [leafAt, leafAt, walk_samePath (same.mono (by omega)).symm,
    walk_samePath (same.mono (by omega)).symm, slot2, slot1]

theorem pageDown_samePath (virt : U64) : SamePath 4 virt (pageDown virt) := by
  obtain ⟨same4, same3, same2, same1⟩ := idx_pageDown virt
  intro above within
  obtain rfl | rfl | rfl | rfl : above = 0 ∨ above = 1 ∨ above = 2 ∨ above = 3 := by omega
  · exact same4.symm
  · exact same3.symm
  · exact same2.symm
  · exact same1.symm

theorem clearLeaf_spec (trees : TreesSound state [root]) {pdpt pd pt : U64}
    (found : state.leafTable root virt = some (pdpt, pd, pt))
    (small : ¬ Huge (state.mem pd (idx2 virt))) :
    Unmapped offer root virt 4 state
    ((state.store pt (idx1 virt) 0#64).pruneEmptyPageTables root virt) := by
  have live := List.mem_singleton_self root
  obtain ⟨isPdpt, isPd, isPt⟩ := leafTable_walk found
  have isPt' : state.walk root virt 3 = some pt := by
    rw [walk, isPd, Option.bind_some]
    change descend 2 (state.mem pd (idx2 virt)) = some pt
    rw [descend_pd, if_neg small]
    exact isPt
  have change : EntryChange state (state.store pt (idx1 virt) 0#64) [root] virt 3 pt 0#64 :=
    EntryChange.ofStore live isPt' (by omega) _
  obtain ⟨trees', others, leaf⟩ := change.leafWritten trees rfl
  have only : TablesOnly offer state (state.store pt (idx1 virt) 0#64) :=
    TablesOnly.store offer (trees.inUse root live virt 3 pt (by omega) isPt').1 _ _
  have above := fun upper (le : upper ≤ 3) => change.above trees live virt le
  obtain ⟨cleared, isCleared⟩ : ∃ cleared, state.store pt (idx1 virt) 0#64 = cleared := ⟨_, rfl⟩
  rw [isCleared] at trees' others leaf only above ⊢
  -- what is left to do frees empty tables
  have rest : MapsOn offer [root] cleared (cleared.pruneEmptyPageTables root virt) := by
    have isPdpt₁ := (above 1 (by omega)).trans isPdpt
    have isPd₁ := (above 2 (by omega)).trans isPd
    have isPt₁ := (above 3 (by omega)).trans isPt'
    have leads : descend 2 (cleared.mem pd (slotAt virt 2)) = some pt := by
      rw [walk, isPd₁, Option.bind_some] at isPt₁
      exact isPt₁
    have found₁ : cleared.leafTable root virt = some (pdpt, pd, pt) := by
      refine leafTable_eq_some.2 ⟨isPdpt₁, ?_, (descend_some leads).1⟩
      rw [walk, isPdpt₁, Option.bind_some] at isPd₁
      exact isPd₁
    rw [prune_eq found₁]
    split
    · exact ⟨trees', fun _ _ _ => rfl, TablesOnly.refl offer cleared⟩
    · next isEmpty =>
      have change₂ : EntryChange cleared ((cleared.store pd (idx2 virt) 0#64).kfree pt) [root] virt 2 pd 0#64 :=
        ⟨by omega, ⟨root, live, isPd₁⟩, fun _ _ _ => rfl⟩
      have maps : MapsOn offer [root] cleared ((cleared.store pd (idx2 virt) 0#64).kfree pt) :=
        ⟨change₂.cleared trees' (by omega) fun page notPt _ => by rw [kfree_level_of_ne (notPt pt leads), store_level],
          change₂.freed trees' (by omega) leads (not_not.mp isEmpty),
          (TablesOnly.store offer (trees'.inUse root live virt 2 pd (by omega) isPd₁).1 _ _).trans (TablesOnly.kfree offer _ pt)⟩
      exact maps.trans (pruneUpper_maps maps.trees ((change₂.above trees' live virt (by omega)).trans isPdpt₁)
        ((change₂.above trees' live virt (Nat.le_refl 2)).trans isPd₁))
  refine ⟨rest.trees, only.trans rest.only, fun address other => ?_, fun address path => ?_⟩
  · exact (rest.leaves root live address).trans (others root live address other)
  · exact (rest.leaves root live address).trans
      ((leaf root live address isPt' path).trans (if_neg absent_zero))

theorem pagingUnmapPage_spec (trees : TreesSound state [state.pagingRoot])
    (small : ∀ entry, state.leafAt state.pagingRoot virt ≠ some (true, entry)) :
    Unmapped offer state.pagingRoot virt 4 state (state.pagingUnmapPage virt) := by
  have live := List.mem_singleton_self state.pagingRoot
  have path := pageDown_samePath virt
  rw [pagingUnmapPage, if_neg (trees.rooted live)]
  obtain ⟨root, isRoot⟩ : ∃ root, state.pagingRoot = root := ⟨_, rfl⟩
  rw [isRoot] at trees live small ⊢
  rw [← leafAt_samePath path] at small
  have same : ∀ address, SamePath 4 virt address ↔
    SamePath 4 (pageDown virt) address := fun address =>
    ⟨fun along above within => (path above within).symm.trans (along above within),
      fun along above within => (path above within).trans (along above within)⟩
  have aligned {after} (spec : Unmapped offer root (pageDown virt) 4 state after) :
    Unmapped offer root virt 4 state after :=
    ⟨spec.trees, spec.only,
      fun address other => spec.others address fun along => other ((same address).mpr along),
      fun address along => spec.leaf address ((same address).mp along)⟩
  refine aligned ?_
  dsimp only
  obtain ⟨page, isPage⟩ : ∃ page, pageDown virt = page := ⟨_, rfl⟩
  rw [isPage] at small ⊢
  cases found : state.leafTable root page with
  | none =>
      refine ⟨trees, TablesOnly.refl offer state, fun _ _ => rfl, fun address same => ?_⟩
      rw [leafAt_samePath same]
      refine leafAt_none (leafTable_none found) fun pd isPd both => small (state.mem pd (idx2 page)) ?_
      rw [leafAt, isPd]
      exact if_pos both
  | some tables =>
      obtain ⟨pdpt, pd, pt⟩ := tables
      refine clearLeaf_spec trees found fun huge => ?_
      obtain ⟨-, isPd, isPt⟩ := leafTable_walk found
      refine small (state.mem pd (idx2 page)) ?_
      rw [leafAt, isPd]
      exact if_pos ⟨(follow_some isPt).1, huge⟩

theorem frameWritten (trees : TreesSound state roots) (levels : later.level = state.level)
    (mem : ∀ page, state.level page ≠ 0 → later.mem page = state.mem page) :
    TreesSound later roots ∧
      (∀ root ∈ roots, ∀ address depth, depth ≤ 3 →
      later.walk root address depth =
      state.walk root address depth) ∧ SameLeaves roots state later := by
  have walks : ∀ root ∈ roots, ∀ address depth, depth ≤ 3 →
    later.walk root address depth = state.walk root address depth :=
    fun root live address depth le => walk_congr fun above within table isTable => by
      rw [mem table (trees.inUse root live address above table (by omega) isTable).1]
  refine ⟨trees.fewer fun root live address depth table le isTable =>
    ⟨by rw [← walks root live address depth le]; exact isTable, by rw [levels]⟩,
    walks, fun root live address => leafAt_congr fun above within table isTable => ?_⟩
  rw [mem table (trees.inUse root live address above table (by omega) isTable).1]

end Cos.Paging
