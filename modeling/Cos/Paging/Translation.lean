import Cos.Paging.DirectorySound

/-! # What an address is mapped to

The leaf that each address has below a root, and what the tables of a walk must be
like for a change of one entry to change the leaves of one page, or of none.
-/

namespace Cos.Paging

open SpaceState

def slotAt (virt : U64) : Nat → Fin 512
  | 0 => idx4 virt
  | 1 => idx3 virt
  | 2 => idx2 virt
  | _ => idx1 virt

def SamePath (depth : Nat) (virt other : U64) : Prop :=
  ∀ above < depth, slotAt virt above = slotAt other above

theorem SamePath.refl (depth : Nat) (virt : U64) : SamePath depth virt virt := fun _ _ => rfl

theorem SamePath.symm {depth : Nat} {virt other : U64} (same : SamePath depth virt other) :
    SamePath depth other virt :=
  fun above within => (same above within).symm

theorem SamePath.mono {low high : Nat} {virt other : U64} (same : SamePath high virt other)
    (le : low ≤ high) : SamePath low virt other :=
  fun above within => same above (Nat.lt_of_lt_of_le within le)

theorem SamePath.succ {depth : Nat} {virt other : U64} (same : SamePath depth virt other)
    (next : slotAt virt depth = slotAt other depth) : SamePath (depth + 1) virt other := by
  intro above within
  obtain before | rfl := Nat.lt_succ_iff_lt_or_eq.mp within
  · exact same above before
  · exact next

/-- The table an entry at this depth leads to; that of a 2 MiB page leads to none. -/
def descend (depth : Nat) (entry : U64) : Option U64 :=
  if depth = 2 ∧ Huge entry then none else follow entry

@[simp] theorem descend_pml4 (entry : U64) : descend 0 entry = follow entry :=
  if_neg fun both => nomatch both.1

@[simp] theorem descend_pdpt (entry : U64) : descend 1 entry = follow entry :=
  if_neg fun both => nomatch both.1

@[simp] theorem descend_pd (entry : U64) :
    descend 2 entry = if Huge entry then none else follow entry := by
  simp only [descend, true_and]

theorem descend_zero (depth : Nat) : descend depth 0#64 = none := by
  rw [descend]
  split
  · rfl
  · rfl

theorem descend_some {depth : Nat} {entry table : U64} (leads : descend depth entry = some table) :
    follow entry = some table ∧ ¬ (depth = 2 ∧ Huge entry) := by
  rw [descend] at leads
  split at leads
  · cases leads
  · next small => exact ⟨leads, small⟩

namespace SpaceState

def walk (state : SpaceState) (root virt : U64) : Nat → Option U64
  | 0 => some root
  | depth + 1 => (walk state root virt depth).bind fun table => descend depth (state.mem table (slotAt virt depth))

/-- The leaf of an address: whether it is that of a 2 MiB page, and its entry. -/
def leafAt (state : SpaceState) (root virt : U64) : Option (Bool × U64) :=
  match state.walk root virt 2 with
  | none => none
  | some pd =>
      if Present (state.mem pd (idx2 virt)) ∧ Huge (state.mem pd (idx2 virt)) then some (true, state.mem pd (idx2 virt))
      else match state.walk root virt 3 with
      | none => none
      | some pt => if Present (state.mem pt (idx1 virt)) then some (false, state.mem pt (idx1 virt)) else none

def pagingVirtToPhysInRoot (state : SpaceState) (root virt : U64) : U64 :=
  if root = 0#64 then 0#64
  else match follow (state.mem root (idx4 virt)) with
  | none => 0#64
  | some pdpt =>
  match follow (state.mem pdpt (idx3 virt)) with
  | none => 0#64
  | some pd =>
      let e2 := state.mem pd (idx2 virt)
      if ¬Present e2 then 0#64
      else if Huge e2 then (e2 &&& fHugeAddrMask) ||| (virt &&& (hugeSize - 1#64))
      else match physToTablePtr e2 with
      | none => 0#64
      | some pt =>
          let e1 := state.mem pt (idx1 virt)
          if ¬Present e1 then 0#64 else (e1 &&& fAddrMask) ||| (virt &&& pageOffsetMask)

/-- `paging_virt_to_phys`, which makes the same walk from the active directory. -/
def pagingVirtToPhys (state : SpaceState) (virt : U64) : U64 :=
  state.pagingVirtToPhysInRoot state.pagingRoot virt

end SpaceState

def leafPhys (virt : U64) : Option (Bool × U64) → U64
  | none => 0#64
  | some (true, entry) => (entry &&& fHugeAddrMask) ||| (virt &&& (hugeSize - 1#64))
  | some (false, entry) => (entry &&& fAddrMask) ||| (virt &&& pageOffsetMask)

variable {offer : Nat → U64} {state later third : SpaceState}
  {root other virt phys flags entry table child : U64} {depth : Nat}
variable {roots : List U64}

theorem virtToPhys_leaf (rooted : root ≠ 0#64) :
    state.pagingVirtToPhysInRoot root virt = leafPhys virt (state.leafAt root virt) := by
  rw [pagingVirtToPhysInRoot, if_neg rooted, leafAt]
  simp only [walk, Option.bind_some, slotAt, descend_pml4, descend_pdpt, descend_pd]
  cases follow (state.mem root (idx4 virt)) with
  | none => rfl
  | some pdpt =>
      simp only [Option.bind_some]
      cases follow (state.mem pdpt (idx3 virt)) with
      | none => rfl
      | some pd =>
          simp only [Option.bind_some]
          by_cases present : Present (state.mem pd (idx2 virt))
          · by_cases huge : Huge (state.mem pd (idx2 virt))
            · simp [present, huge, leafPhys]
            · simp only [present, huge, follow, not_true_eq_false, and_false, if_false, if_true]
              cases physToTablePtr (state.mem pd (idx2 virt)) with
              | none => rfl
              | some pt =>
                  by_cases mapped : Present (state.mem pt (idx1 virt)) <;> simp [mapped, leafPhys]
          · simp only [present, follow, not_false_eq_true, false_and, if_false, if_true, ite_self]
            rfl

theorem walk_congr (same : ∀ above < depth, ∀ table, state.walk root virt above = some table →
    descend above (later.mem table (slotAt virt above)) =
    descend above (state.mem table (slotAt virt above))) :
    later.walk root virt depth = state.walk root virt depth := by
  induction depth with
  | zero => rfl
  | succ depth ih =>
      have before := ih fun above within => same above (Nat.lt_succ_of_lt within)
      rw [walk, walk, before]
      cases found : state.walk root virt depth with
      | none => rfl
      | some table => rw [Option.bind_some, Option.bind_some, same depth (Nat.lt_succ_self _) table found]

theorem leafAt_congr (same : ∀ above < 4, ∀ table, state.walk root virt above = some table →
    later.mem table (slotAt virt above) = state.mem table (slotAt virt above)) :
    later.leafAt root virt = state.leafAt root virt := by
  have walks : ∀ depth ≤ 3, later.walk root virt depth =
    state.walk root virt depth := fun depth within =>
    walk_congr fun above lower table found =>
      congrArg (descend above) (same above (by omega) table found)
  rw [leafAt, leafAt, walks 2 (by omega), walks 3 (by omega)]
  cases isPd : state.walk root virt 2 with
  | none => rfl
  | some pd =>
      have pdSame : later.mem pd (idx2 virt) = state.mem pd (idx2 virt) := same 2 (by omega) pd isPd
      simp only [pdSame]
      cases isPt : state.walk root virt 3 with
      | none => rfl
      | some pt =>
          have ptSame : later.mem pt (idx1 virt) = state.mem pt (idx1 virt) := same 3 (by omega) pt isPt
          simp only [ptSame]

/-- The tables below some roots: they are in use, and a table is reached in one way only. -/
structure TreesSound (state : SpaceState) (roots : List U64) : Prop where
  inUse : ∀ root ∈ roots, ∀ virt depth table, depth ≤ 3 → state.walk root virt depth = some table →
    state.level table ≠ 0 ∧ PageAddress table
  unique : ∀ root ∈ roots, ∀ root' ∈ roots, ∀ virt virt' depth depth' table, depth ≤ 3 →
    depth' ≤ 3 → state.walk root virt depth = some table →
    state.walk root' virt' depth' = some table → depth = depth' ∧ SamePath depth virt virt'

/-- One entry of a table on the way to an address is another, in what is in use. -/
structure EntryChange (state later : SpaceState) (roots : List U64) (virt : U64) (depth : Nat)
    (table entry : U64) : Prop where
  shallow : depth ≤ 3
  reached : ∃ root ∈ roots, state.walk root virt depth = some table
  mem : ∀ page slot, state.level page ≠ 0 →
    later.mem page slot = if page = table ∧ slot = slotAt virt depth then entry
    else state.mem page slot

namespace EntryChange

theorem above (change : EntryChange state later roots virt depth table entry)
    (trees : TreesSound state roots) (live : root ∈ roots) (address : U64) {upper : Nat}
    (le : upper ≤ depth) : later.walk root address upper = state.walk root address upper := by
  obtain ⟨first, isFirst, reached⟩ := change.reached
  have shallow := change.shallow
  refine walk_congr fun above within page found => ?_
  have inUse := (trees.inUse root live address above page (by omega) found).1
  rw [change.mem page _ inUse, if_neg]
  rintro ⟨rfl, -⟩
  have same := (trees.unique root live first isFirst address virt above depth page (by omega) shallow found reached).1
  omega

theorem away (change : EntryChange state later roots virt depth table entry)
    (trees : TreesSound state roots) (live : root ∈ roots) {address : U64}
    (avoids : state.walk root address depth = some table →
    slotAt address depth ≠ slotAt virt depth) :
    (∀ lower ≤ 3, later.walk root address lower = state.walk root address lower) ∧
      later.leafAt root address = state.leafAt root address := by
  obtain ⟨first, isFirst, reached⟩ := change.reached
  have shallow := change.shallow
  have same : ∀ above < 4, ∀ page, state.walk root address above = some page →
      later.mem page (slotAt address above) = state.mem page (slotAt address above) := by
    intro above within page found
    have inUse := (trees.inUse root live address above page (by omega) found).1
    rw [change.mem page _ inUse, if_neg]
    rintro ⟨rfl, isSlot⟩
    obtain ⟨rfl, -⟩ := trees.unique root live first isFirst address virt above depth page (by omega)
      shallow found reached
    exact avoids found isSlot
  exact ⟨fun lower le => walk_congr fun above within page found =>
    congrArg (descend above) (same above (by omega) page found), leafAt_congr same⟩

theorem next (change : EntryChange state later roots virt depth table entry)
    (trees : TreesSound state roots) (live : root ∈ roots) {address : U64}
    (found : state.walk root address depth = some table)
    (isSlot : slotAt address depth = slotAt virt depth) :
    later.walk root address (depth + 1) = descend depth entry := by
  have inUse := (trees.inUse root live address depth table change.shallow found).1
  rw [walk, change.above trees live address (Nat.le_refl _), found, Option.bind_some,
    change.mem table _ inUse, if_pos ⟨rfl, isSlot⟩]

theorem samePath (change : EntryChange state later roots virt depth table entry)
    (trees : TreesSound state roots) (live : root ∈ roots) {address : U64}
    (found : state.walk root address depth = some table) : SamePath depth address virt := by
  obtain ⟨first, isFirst, reached⟩ := change.reached
  exact (trees.unique root live first isFirst address virt depth depth table change.shallow change.shallow found reached).2

theorem redirect (change : EntryChange state later roots virt depth table entry)
    (trees : TreesSound state roots)
    (live : root ∈ roots)
    (same : descend depth entry = descend depth (state.mem table (slotAt virt depth)))
    (address : U64) : ∀ lower ≤ 3, later.walk root address lower =
    state.walk root address lower := by
  intro lower le
  refine walk_congr fun above within page found => ?_
  obtain ⟨first, isFirst, reached⟩ := change.reached
  have inUse := (trees.inUse root live address above page (by omega) found).1
  rw [change.mem page _ inUse]
  split
  · next isEntry =>
    obtain ⟨rfl, isSlot⟩ := isEntry
    obtain ⟨rfl, -⟩ := trees.unique root live first isFirst address virt above depth page (by omega)
      change.shallow found reached
    rw [isSlot]
    exact same
  · rfl

end EntryChange

theorem TreesSound.fewer (trees : TreesSound state roots)
    (fewer : ∀ root ∈ roots, ∀ virt depth table, depth ≤ 3 →
    later.walk root virt depth = some table →
    state.walk root virt depth = some table ∧
    later.level table = state.level table) : TreesSound later roots := by
  refine ⟨fun root live virt depth table le found => ?_,
    fun root live root' live' virt virt' depth depth' table le le' one two => ?_⟩
  · obtain ⟨before, same⟩ := fewer root live virt depth table le found
    rw [same]
    exact trees.inUse root live virt depth table le before
  · exact trees.unique root live root' live' virt virt' depth depth' table le le'
      (fewer root live virt depth table le one).1 (fewer root' live' virt' depth' table le' two).1

theorem walk_samePath (same : SamePath depth virt other) :
    state.walk root virt depth = state.walk root other depth := by
  induction depth with
  | zero => rfl
  | succ depth ih =>
      rw [walk, walk, ih (same.mono (Nat.le_succ _)), same depth (Nat.lt_succ_self _)]

theorem walk_none_mono (ended : state.walk root virt depth = none) {lower : Nat}
    (le : depth ≤ lower) : state.walk root virt lower = none := by
  induction lower with
  | zero =>
      obtain rfl := Nat.le_zero.mp le
      exact ended
  | succ lower ih =>
      obtain before | rfl := Nat.le_succ_iff.mp le
      · rw [walk, ih before]
        rfl
      · exact ended

theorem leafAt_none (ended : state.walk root virt 3 = none)
    (notHuge : ∀ pd, state.walk root virt 2 = some pd →
    ¬ (Present (state.mem pd (idx2 virt)) ∧ Huge (state.mem pd (idx2 virt)))) :
    state.leafAt root virt = none := by
  rw [leafAt]
  cases isPd : state.walk root virt 2 with
  | none => rfl
  | some pd =>
      simp only [if_neg (notHuge pd isPd), ended]

theorem leafAt_small {pt : U64} (isPt : state.walk root virt 3 = some pt) : state.leafAt root virt =
    if Present (state.mem pt (idx1 virt)) then some (false, state.mem pt (idx1 virt))
    else none := by
  rw [leafAt]
  cases isPd : state.walk root virt 2 with
  | none => exact absurd (isPt.symm.trans (walk_none_mono isPd (by omega))) nofun
  | some pd =>
      have leads : descend 2 (state.mem pd (idx2 virt)) = some pt := by
        rw [walk, isPd, Option.bind_some] at isPt
        exact isPt
      have notHuge := (descend_some leads).2
      simp only [isPt]
      rw [if_neg fun both => notHuge ⟨rfl, both.2⟩]

theorem leafAt_absent (found : state.walk root virt depth = some table) (le : depth ≤ 3)
    (absent : ¬ Present (state.mem table (slotAt virt depth))) : state.leafAt root virt = none := by
  have isLast : depth = 3 ∨ depth ≤ 2 := by omega
  obtain rfl | inner := isLast
  · rw [leafAt_small found]
    exact if_neg absent
  · have ended : state.walk root virt (depth + 1) = none := by
      rw [walk, found, Option.bind_some, descend, follow, if_neg absent, ite_self]
    refine leafAt_none (walk_none_mono ended (by omega)) fun pd isPd both => ?_
    have isDepth : depth = 2 := by
      by_contra other
      rw [walk_none_mono ended (by omega)] at isPd
      cases isPd
    subst isDepth
    obtain rfl := Option.some.inj (found.symm.trans isPd)
    exact absent both.1

def SameLeaves (roots : List U64) (state later : SpaceState) : Prop :=
  ∀ root ∈ roots, ∀ virt, later.leafAt root virt = state.leafAt root virt

theorem SameLeaves.trans (one : SameLeaves roots state later) (two : SameLeaves roots later third) :
    SameLeaves roots state third :=
  fun root live virt => (two root live virt).trans (one root live virt)

namespace EntryChange

theorem widened (change : EntryChange state later roots virt depth table entry)
    (trees : TreesSound state roots) (levels : later.level = state.level) (inner : depth ≤ 2)
    (same : descend depth entry = descend depth (state.mem table (slotAt virt depth)))
    (small : depth = 2 → ¬ Huge entry ∧ ¬ Huge (state.mem table (slotAt virt depth))) :
    TreesSound later roots ∧ SameLeaves roots state later := by
  have walks := fun root (live : root ∈ roots) address => change.redirect trees live same address
  refine ⟨trees.fewer fun root live address lower page le found => ⟨?_, by rw [levels]⟩,
    fun root live address => ?_⟩
  · rw [← walks root live address lower le]
    exact found
  · obtain ⟨first, isFirst, reached⟩ := change.reached
    rw [leafAt, leafAt, walks root live address 2 (by omega), walks root live address 3 (by omega)]
    cases isPd : state.walk root address 2 with
    | none => rfl
    | some pd =>
        have pdUse := (trees.inUse root live address 2 pd (by omega) isPd).1
        have ptSame : ∀ pt, state.walk root address 3 = some pt → later.mem pt (idx1 address) = state.mem pt (idx1 address) := by
          intro pt isPt
          rw [change.mem pt _ (trees.inUse root live address 3 pt (by omega) isPt).1, if_neg]
          rintro ⟨rfl, -⟩
          have := (trees.unique root live first isFirst address virt 3 depth pt (by omega) change.shallow isPt reached).1
          omega
        have rest : (match state.walk root address 3 with
            | none => none
            | some pt => if Present (later.mem pt (idx1 address)) then some (false, later.mem pt (idx1 address)) else none) =
            match state.walk root address 3 with
            | none => none
            | some pt => if Present (state.mem pt (idx1 address)) then some (false, state.mem pt (idx1 address)) else none := by
          cases isPt : state.walk root address 3 with
          | none => rfl
          | some pt => simp only [ptSame pt isPt]
        simp only [rest]
        by_cases isEntry : pd = table ∧ idx2 address = slotAt virt depth
        · obtain ⟨rfl, isSlot⟩ := isEntry
          obtain ⟨rfl, -⟩ := trees.unique root live first isFirst address virt 2 depth pd (by omega) change.shallow isPd reached
          obtain ⟨notHuge, wasNotHuge⟩ := small rfl
          have isNew : later.mem pd (idx2 address) = entry := (change.mem pd _ pdUse).trans (if_pos ⟨rfl, isSlot⟩)
          rw [isNew, isSlot, if_neg fun both => notHuge both.2, if_neg fun both => wasNotHuge both.2]
        · rw [change.mem pd _ pdUse, if_neg isEntry]

theorem attached (change : EntryChange state later roots virt depth table entry)
    (trees : TreesSound state roots) (inner : depth ≤ 2) (fresh : state.level child = 0)
    (isPage : PageAddress child) {level : Nat} (positive : level ≠ 0)
    (levels : later.level = Function.update state.level child level)
    (empty : ∀ slot, later.mem child slot = 0#64) (leads : descend depth entry = some child)
    (absent : ¬ Present (state.mem table (slotAt virt depth))) :
    TreesSound later roots ∧ SameLeaves roots state later := by
  -- a way in the new tables is an old one, or ends at the child
  have cases' : ∀ root ∈ roots, ∀ address lower page, lower ≤ 3 →
      later.walk root address lower = some page → state.walk root address lower = some page ∨
        lower = depth + 1 ∧ page = child ∧ SamePath (depth + 1) address virt := by
    intro root live address lower page le found
    by_cases through : state.walk root address depth = some table ∧
      slotAt address depth = slotAt virt depth
    · have atChild := (change.next trees live through.1 through.2).trans leads
      obtain before | same | after := Nat.lt_trichotomy lower (depth + 1)
      · rw [change.above trees live address (by omega)] at found
        exact .inl found
      · subst same
        refine .inr ⟨rfl, ?_, (change.samePath trees live through.1).succ through.2⟩
        exact Option.some.inj (found.symm.trans atChild)
      · have ended : later.walk root address (depth + 2) = none := by
          rw [walk, atChild, Option.bind_some, empty]
          exact descend_zero _
        rw [walk_none_mono ended (by omega)] at found
        cases found
    · rw [(change.away trees live fun found same => through ⟨found, same⟩).1 lower le] at found
      exact .inl found
  have kept : ∀ page, state.level page ≠ 0 → later.level page = state.level page := by
    intro page inUse
    rw [levels, Function.update_of_ne]
    rintro rfl
    exact inUse fresh
  refine ⟨⟨?_, ?_⟩, fun root live address => ?_⟩
  · intro root live address lower page le found
    obtain before | ⟨-, rfl, -⟩ := cases' root live address lower page le found
    · obtain ⟨inUse, pageOk⟩ := trees.inUse root live address lower page le before
      exact ⟨by rw [kept page inUse]; exact inUse, pageOk⟩
    · exact ⟨by rw [levels, Function.update_self]; exact positive, isPage⟩
  · intro root live root' live' address address' lower lower' page le le' one two
    obtain before | ⟨rfl, rfl, path⟩ := cases' root live address lower page le one
    · obtain before' | ⟨-, rfl, -⟩ := cases' root' live' address' lower' page le' two
      · exact trees.unique root live root' live' address address' lower lower' page le le' before before'
      · exact absurd fresh (trees.inUse root live address lower page le before).1
    · obtain before' | ⟨rfl, -, path'⟩ := cases' root' live' address' lower' page le' two
      · exact absurd fresh (trees.inUse root' live' address' lower' page le' before').1
      · exact ⟨rfl, fun above within => (path above within).trans (path' above within).symm⟩
  · by_cases through :
      state.walk root address depth = some table ∧ slotAt address depth = slotAt virt depth
    · have atChild := (change.next trees live through.1 through.2).trans leads
      have was : state.leafAt root address = none := by
        refine leafAt_absent through.1 (by omega) ?_
        rw [through.2]
        exact absent
      rw [was]
      refine leafAt_absent atChild (by omega) ?_
      rw [empty]
      exact absent_zero
    · exact (change.away trees live fun found same => through ⟨found, same⟩).2

theorem cleared (change : EntryChange state later [root] virt depth table 0#64)
    (trees : TreesSound state [root])
    (inner : depth ≤ 2) (levels :
      ∀ page, (∀ child, descend depth (state.mem table (slotAt virt depth)) = some child →
      page ≠ child) → state.level page ≠ 0 → later.level page = state.level page) :
    TreesSound later [root] := by
  have live := List.mem_singleton_self root
  obtain ⟨first, isFirst, reached⟩ := change.reached
  obtain rfl := List.mem_singleton.mp isFirst
  refine trees.fewer fun root' live' address lower page le found => ?_
  obtain rfl := List.mem_singleton.mp live'
  have before : state.walk root' address lower = some page := by
    by_cases through : state.walk root' address depth = some table ∧
      slotAt address depth = slotAt virt depth
    · have ended := (change.next trees live through.1 through.2).trans (descend_zero depth)
      by_cases le' : lower ≤ depth
      · rw [change.above trees live address le'] at found
        exact found
      · rw [walk_none_mono ended (by omega)] at found
        cases found
    · rw [(change.away trees live fun found same => through ⟨found, same⟩).1 lower le] at found
      exact found
  refine ⟨before, levels page ?_ (trees.inUse root' live address lower page le before).1⟩
  rintro child leads rfl
  have atChild : state.walk root' virt (depth + 1) = some page := by
    rw [walk, reached, Option.bind_some]
    exact leads
  obtain ⟨rfl, path⟩ :=
    trees.unique root' live root' live address virt lower (depth + 1) page le (by omega) before
      atChild
  have found' : state.walk root' address depth = some table :=
    (walk_samePath (path.mono (Nat.le_succ depth))).trans reached
  rw [(change.next trees live found' (path depth (Nat.lt_succ_self _))).trans (descend_zero depth)] at found
  cases found

theorem freed (change : EntryChange state later [root] virt depth table 0#64)
    (trees : TreesSound state [root]) (inner : depth ≤ 2)
    (leads : descend depth (state.mem table (slotAt virt depth)) = some child)
    (empty : ∀ slot, state.mem child slot = 0#64) : SameLeaves [root] state later := by
  intro root' live address
  by_cases through : state.walk root' address depth = some table ∧
    slotAt address depth = slotAt virt depth
  · have inUse := (trees.inUse root' live address depth table change.shallow through.1).1
    have still : later.walk root' address depth = some table :=
      (change.above trees live address (Nat.le_refl _)).trans through.1
    have isZero : later.mem table (slotAt address depth) = 0#64 :=
      (change.mem table _ inUse).trans (if_pos ⟨rfl, through.2⟩)
    have atChild : state.walk root' address (depth + 1) = some child := by
      rw [walk, through.1, Option.bind_some, through.2]
      exact leads
    rw [leafAt_absent still change.shallow (by rw [isZero]; exact absent_zero),
      leafAt_absent atChild (by omega) (by rw [empty]; exact absent_zero)]
  · exact (change.away trees live fun found same => through ⟨found, same⟩).2

theorem leafWritten (change : EntryChange state later roots virt 3 table entry)
    (trees : TreesSound state roots) (levels : later.level = state.level) : TreesSound later roots ∧
      (∀ root ∈ roots, ∀ address, ¬ SamePath 4 virt address →
      later.leafAt root address = state.leafAt root address) ∧
      ∀ root ∈ roots, ∀ address, state.walk root virt 3 = some table → SamePath 4 virt address →
        later.leafAt root address = if Present entry then some (false, entry) else none := by
  have same : ∀ root ∈ roots, ∀ address, ∀ lower ≤ 3, later.walk root address lower =
    state.walk root address lower :=
    fun root live address lower le => change.above trees live address le
  refine ⟨trees.fewer fun root live address lower page le found => ⟨?_, by rw [levels]⟩,
    fun root live address other => ?_, fun root live address found path => ?_⟩
  · rw [← same root live address lower le]
    exact found
  · refine (change.away trees live fun found isSlot => other ?_).2
    exact ((change.samePath trees live found).succ isSlot).symm
  · have found' : state.walk root address 3 = some table :=
      (walk_samePath (path.mono (by omega))).symm.trans found
    have inUse := (trees.inUse root live address 3 table (by omega) found').1
    have isEntry : later.mem table (idx1 address) = entry :=
      (change.mem table _ inUse).trans (if_pos ⟨rfl, (path 3 (by omega)).symm⟩)
    rw [leafAt_small ((same root live address 3 (by omega)).trans found'), isEntry]

end EntryChange

/-- Only tables, and pages that the heap gave, are written; the active directory stays. -/
structure TablesOnly (offer : Nat → U64) (state later : SpaceState) : Prop where
  tick : state.tick ≤ later.tick
  mem : ∀ page, state.level page = 0 →
    (∀ time, state.tick ≤ time → time < later.tick → offer time ≠ page) →
    later.mem page = state.mem page ∧ later.level page = 0
  kernelPml4 : later.kernelPml4 = state.kernelPml4
  currentDirectory : later.currentDirectory = state.currentDirectory

theorem TablesOnly.refl (offer : Nat → U64) (state : SpaceState) : TablesOnly offer state state :=
  ⟨Nat.le_refl _, fun _ free _ => ⟨rfl, free⟩, rfl, rfl⟩

theorem TablesOnly.trans (one : TablesOnly offer state later) (two : TablesOnly offer later third) :
    TablesOnly offer state third := by
  refine ⟨Nat.le_trans one.tick two.tick, fun page free unoffered => ?_,
    two.kernelPml4.trans one.kernelPml4, two.currentDirectory.trans one.currentDirectory⟩
  obtain ⟨sameMem, stillFree⟩ := one.mem page free fun time after before =>
    unoffered time after (Nat.lt_of_lt_of_le before two.tick)
  obtain ⟨sameMem', stillFree'⟩ := two.mem page stillFree fun time after before =>
    unoffered time (Nat.le_trans one.tick after) before
  exact ⟨sameMem'.trans sameMem, stillFree'⟩

theorem TablesOnly.sameRoot (only : TablesOnly offer state later) :
    later.pagingRoot = state.pagingRoot := by
  rw [pagingRoot, pagingRoot, only.kernelPml4, only.currentDirectory]

theorem TablesOnly.store (offer : Nat → U64) (inUse : state.level table ≠ 0) (index : Fin 512)
    (entry : U64) : TablesOnly offer state (state.store table index entry) := by
  refine ⟨Nat.le_refl _, fun page free _ => ⟨store_mem_of_ne ?_, free⟩, rfl, rfl⟩
  rintro rfl
  exact inUse free

theorem TablesOnly.kfree (offer : Nat → U64) (state : SpaceState) (table : U64) :
    TablesOnly offer state (state.kfree table) := by
  refine ⟨Nat.le_refl _, fun page free _ => ⟨rfl, ?_⟩, rfl, rfl⟩
  by_cases isTable : page = table
  · subst isTable
    exact kfree_level_self
  · rw [kfree_level_of_ne isTable]
    exact free

theorem TablesOnly.takePage (level : Nat) :
    TablesOnly offer state (state.takePage (offer state.tick) level) := by
  refine ⟨Nat.le_succ _, fun page free unoffered => ?_, rfl, rfl⟩
  have notPage : page ≠ offer state.tick :=
    (unoffered state.tick (Nat.le_refl _) (Nat.lt_succ_self _)).symm
  refine ⟨funext fun slot => ?_, ?_⟩
  · rw [takePage_mem, if_neg notPage]
  · rw [takePage_level, Function.update_of_ne notPage]
    exact free

structure MapsOn (offer : Nat → U64) (roots : List U64) (state later : SpaceState) : Prop where
  trees : TreesSound later roots
  leaves : SameLeaves roots state later
  only : TablesOnly offer state later

theorem MapsOn.trans (one : MapsOn offer roots state later) (two : MapsOn offer roots later third) :
    MapsOn offer roots state third :=
  ⟨two.trees, one.leaves.trans two.leaves, one.only.trans two.only⟩

theorem EntryChange.ofStore (live : root ∈ roots) (found : state.walk root virt depth = some table)
    (le : depth ≤ 3) (entry : U64) :
    EntryChange state (state.store table (slotAt virt depth) entry) roots virt depth table entry :=
  ⟨le, ⟨root, live, found⟩, fun _ _ _ => rfl⟩

theorem walkGetOrAlloc_maps (trees : TreesSound state roots) (live : root ∈ roots)
    (plain : PageFlags flags) (found : state.walk root virt depth = some table) (inner : depth ≤ 2)
    (small : depth = 2 → ¬ Huge (state.mem table (slotAt virt depth))) {level : Nat}
    (positive : level ≠ 0) {answer : Option U64} {created : Bool}
    (run : state.walkGetOrAlloc offer table (slotAt virt depth) flags level =
    (later, answer, created)) :
    MapsOn offer roots state later ∧
      (∀ upper ≤ depth, later.walk root virt upper = state.walk root virt upper) ∧
      ∀ child, answer = some child → later.walk root virt (depth + 1) = some child := by
  have inUse := (trees.inUse root live virt depth table (by omega) found).1
  by_cases present : Present (state.mem table (slotAt virt depth))
  · -- the table is there: the permissions of its entry are widened
    simp only [walkGetOrAlloc, present, not_true_eq_false, if_false, Prod.mk.injEq] at run
    obtain ⟨rfl, rfl, rfl⟩ := run
    have address := @and_or_masked (state.mem table (slotAt virt depth)) flags _ _
      (show (fUser ||| fRw) &&& fAddrMask = 0#64 by decide)
    have size := @and_or_masked (state.mem table (slotAt virt depth)) flags _ _
      (show (fUser ||| fRw) &&& fPs = 0#64 by decide)
    have still := @and_or_masked (state.mem table (slotAt virt depth)) flags _ _
      (show (fUser ||| fRw) &&& fPresent = 0#64 by decide)
    obtain ⟨entry, isEntry⟩ :
      ∃ entry, state.mem table (slotAt virt depth) ||| (flags &&& (fUser ||| fRw)) = entry :=
      ⟨_, rfl⟩
    rw [isEntry] at address size still ⊢
    have same : descend depth entry = descend depth (state.mem table (slotAt virt depth)) := by
      have isHuge : Huge entry ↔ Huge (state.mem table (slotAt virt depth)) := by rw [Huge, size, Huge]
      have isPresent : Present entry ↔ Present (state.mem table (slotAt virt depth)) := by rw [Present, still, Present]
      have isTable : physToTablePtr entry = physToTablePtr (state.mem table (slotAt virt depth)) := by
        rw [physToTablePtr, address, physToTablePtr]
      simp only [descend, follow, isHuge, isPresent, isTable]
    have change := EntryChange.ofStore live found (by omega) entry
    obtain ⟨trees', leaves⟩ := change.widened trees rfl inner same fun isPd =>
      ⟨by rw [Huge, size]; exact small isPd, small isPd⟩
    refine ⟨⟨trees', leaves, TablesOnly.store offer inUse _ _⟩,
      fun upper le => change.above trees live virt le, fun child leads => ?_⟩
    rw [change.next trees live found rfl, descend, if_neg, follow, if_pos]
    · exact leads
    · rw [Present, still]
      exact present
    · rintro ⟨isPd, huge⟩
      rw [Huge, size] at huge
      exact small isPd huge
  · by_cases usable : PageAddress (offer state.tick) ∧ state.level (offer state.tick) = 0
    · simp only [walkGetOrAlloc, present, not_false_eq_true, if_true, allocLevel, if_pos usable, Prod.mk.injEq] at run
      obtain ⟨rfl, rfl, rfl⟩ := run
      obtain ⟨isPage, fresh⟩ := usable
      obtain ⟨page, isOffer⟩ : ∃ page, offer state.tick = page := ⟨_, rfl⟩
      rw [isOffer] at isPage fresh ⊢
      have address := tableEntry_address isPage plain
      have notTable : table ≠ page := by
        rintro rfl
        exact inUse fresh
      have leads : descend depth (tableEntry page flags) = some page := by
        rw [descend, if_neg fun both => tableEntry_small plain both.2, follow, if_pos (tableEntry_present page flags)]
        exact isPage.table address
      have change : EntryChange state ((state.takePage page level).store table (slotAt virt depth) (tableEntry page flags)) roots
          virt depth table (tableEntry page flags) := by
        refine ⟨by omega, ⟨root, live, found⟩, fun other slot otherUse => ?_⟩
        have notPage : other ≠ page := by
          rintro rfl
          exact otherUse fresh
        rw [store_mem, takePage_mem, if_neg notPage]
      obtain ⟨trees', leaves⟩ := change.attached trees inner fresh isPage positive
        (by rw [store_level, takePage_level])
        (fun slot => by
          rw [store_mem, if_neg fun both => notTable both.1.symm, takePage_mem, if_pos rfl])
        leads present
      refine ⟨⟨trees', leaves, ?_⟩, fun upper le => change.above trees live virt le, fun child isChild => ?_⟩
      · have taken : TablesOnly offer state (state.takePage page level) := isOffer ▸ TablesOnly.takePage level
        refine taken.trans (TablesOnly.store offer ?_ _ _)
        rw [takePage_level, Function.update_of_ne notTable]
        exact inUse
      · rw [change.next trees live found rfl, leads, ← isChild]
        exact (isPage.table address).symm
    · simp only [walkGetOrAlloc, present, not_false_eq_true, if_true, allocLevel, if_neg usable, Prod.mk.injEq] at run
      obtain ⟨rfl, rfl, rfl⟩ := run
      have walks : ∀ root virt depth, walk { state with tick := state.tick + 1 } root virt depth = state.walk root virt depth :=
        fun root virt depth => walk_congr fun _ _ _ _ => rfl
      refine ⟨⟨trees.fewer fun root live virt depth page le found => ⟨by rw [← walks]; exact found, rfl⟩,
        fun root live virt => leafAt_congr fun _ _ _ _ => rfl, ⟨Nat.le_succ _, fun page free _ =>
        ⟨rfl, free⟩, rfl, rfl⟩⟩, fun upper _ => walks root virt upper, (by rintro _ ⟨⟩)⟩

end Cos.Paging
