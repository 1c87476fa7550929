import Mathlib.Data.Nat.Count
import Cos.Paging.TranslationCalls

/-! # Cloning a range of user memory

`paging_clone_user_range` gives a directory its own copies of the pages that another one has
in a range, and takes them back when it runs out of memory or meets a mapping.
-/

namespace Cos.Paging

open SpaceState
open Function (update update_of_ne update_self update_apply)

/-- The address of the page after `index` others. -/
def pageAt (virt : U64) (index : Nat) : U64 := virt + BitVec.ofNat 64 (index * 4096)

theorem pageAt_toNat (virt : U64) (index : Nat) :
    (pageAt virt index).toNat = (virt.toNat + index * 4096) % 18446744073709551616 := by
  rw [pageAt, BitVec.toNat_add, BitVec.toNat_ofNat, Nat.add_mod_mod]

theorem pageOffset_succ (index : Nat) :
    BitVec.ofNat 64 (index * 4096) + 4096#64 = BitVec.ofNat 64 ((index + 1) * 4096) := by
  rw [Nat.succ_mul, BitVec.ofNat_add]

/-- `(address / pg) * pg`. -/
def pageStart (address : U64) : U64 := address / 4096#64 * 4096#64

/-- `((size + pg - 1) / pg) * pg`. -/
def wholePages (size : U64) : U64 := (size + 4096#64 - 1#64) / 4096#64 * 4096#64

structure CloneState where
  space : SpaceState
  held : U64 → Bool
  /-- How often a frame has been asked for. -/
  asked : Nat

variable (offer frame : Nat → U64)

namespace CloneState

/-- `paging_alloc_physical`: `frame` is the answer to each request, and an answer that is no free
frame stands for 0. -/
def pagingAllocPhysical (state : CloneState) : CloneState × U64 :=
  let page := frame state.asked
  if PageAddress page ∧ state.space.level page = 0 ∧ state.held page = false then
    ({ state with held := update state.held page true, asked := state.asked + 1 }, page)
  else ({ state with asked := state.asked + 1 }, 0#64)

def pagingFreePhysical (state : CloneState) (phys : U64) : CloneState :=
  { state with held := update state.held phys false }

/-- `memcpy` of a page. -/
def copyPage (state : CloneState) (target source : U64) : CloneState :=
  { state with
    space := { state.space with
      mem := fun page => if page = target then state.space.mem source else state.space.mem page } }

/-- `PAGE_PRESENT | PAGE_RW | PAGE_USER`. -/
def cloneFlags : U64 := fPresent ||| fRw ||| fUser

/-- The loop of `paging_clone_user_range`; also how far it came and how many pages it mapped. -/
def cloneLoop (src start size : U64) : Nat → U64 → Nat → CloneState → CloneState × U64 × Nat × Bool
  | 0, off, mapped, state => (state, off, mapped, true)
  | fuel + 1, off, mapped, state =>
      if off < size then
        let phys := state.space.pagingVirtToPhysInRoot src (start + off)
        if phys = 0#64 then cloneLoop src start size fuel (off + 4096#64) mapped state
        else match state.pagingAllocPhysical frame with
        | (state, newPhys) =>
        if newPhys = 0#64 then (state, off, mapped, false)
        else
          let state := state.copyPage newPhys phys
          match state.space.pagingMapPage offer (start + off) newPhys cloneFlags with
          | (space, false) => ({ state with space }.pagingFreePhysical newPhys, off, mapped, false)
          | (space, true) => cloneLoop src start size fuel (off + 4096#64) (mapped + 1) { state with space }
      else (state, off, mapped, true)

def rollbackPage (state : CloneState) (virt : U64) : CloneState :=
  let phys := state.space.pagingVirtToPhys virt
  if phys ≠ 0#64 then { state with space := state.space.pagingUnmapPage virt }.pagingFreePhysical
    phys else state

/-- The rollback of `count` pages from the page `first` on. -/
def rollback (start : U64) : Nat → Nat → CloneState → CloneState
  | _, 0, state => state
  | first, count + 1, state =>
    rollback start (first + 1) count (state.rollbackPage (pageAt start first))

def switchTo (state : CloneState) (dir : U64) : CloneState :=
  { state with space := state.space.pagingSwitchDirectory dir }

/-- The loop as `paging_clone_user_range` runs it.  It has as many rounds as the size has pages. -/
def clonePages (state : CloneState) (dst src start size : U64) : CloneState × U64 × Nat × Bool :=
  cloneLoop offer frame src (pageStart start) (wholePages size) ((wholePages size).toNat / 4096 + 1)
    0#64 0 (state.switchTo dst)

def pagingCloneUserRange (state : CloneState) (dst src start size : U64) : CloneState × Bool :=
  if dst = 0#64 ∨ src = 0#64 then (state, false)
  else
    let oldRoot := state.space.pagingRoot
    match state.clonePages offer frame dst src start size with
    | (state, _, mapped, ok) =>
        let state := if ok then state else rollback (pageStart start) 0 mapped state
        (if oldRoot ≠ 0#64 then state.switchTo oldRoot else state, ok)

end CloneState

/-- The source has the page of the range after `index` others. -/
def SourceMaps (space : SpaceState) (src start : U64) (index : Nat) : Prop :=
  space.pagingVirtToPhysInRoot src (pageAt start index) ≠ 0#64

instance (space : SpaceState) (src start : U64) :
    DecidablePred (SourceMaps space src start) := fun _ =>
  inferInstanceAs (Decidable (_ ≠ _))

open CloneState

variable {offer frame : Nat → U64} {first state : CloneState} {dst src start virt phys : U64}
  {frames : Nat → U64} {index count : Nat}

/-- The pages before `index` that the source has are cloned: `frames` are their frames. -/
structure Clones (dst src start : U64) (index count : Nat) (frames : Nat → U64)
    (first state : CloneState) : Prop where
  treesDst : TreesSound state.space [dst]
  active : state.space.pagingRoot = dst
  kernelPml4 : state.space.kernelPml4 = first.space.kernelPml4
  others : ∀ address, (∀ other < index, SourceMaps first.space src start other →
    ¬ SamePath 4 (pageAt start other) address) →
    state.space.leafAt dst address = first.space.leafAt dst address
  cloned : ∀ other < index, SourceMaps first.space src start other →
    PageAddress (frames other) ∧ first.held (frames other) = false ∧
    ∀ address, SamePath 4 (pageAt start other) address → first.space.leafAt dst address = none ∧
      state.space.leafAt dst address = some (false, pageEntry (frames other) cloneFlags)
  apart : ∀ one two, one < two → two < index → SourceMaps first.space src start one →
    SourceMaps first.space src start two → ¬ SamePath 4 (pageAt start one) (pageAt start two)
  counted : count = Nat.count (SourceMaps first.space src start) index
  held : ∀ page, state.held page = true → first.held page = true ∨
    ∃ other < index, SourceMaps first.space src start other ∧ frames other = page

structure Cloning (dst src start : U64) (index count : Nat) (frames : Nat → U64)
    (first state : CloneState) :
    Prop extends Clones dst src start index count frames first state where
  trees : TreesSound state.space [dst, src]
  source : ∀ address, state.space.leafAt src address = first.space.leafAt src address
  kept : ∀ page, first.held page = true → state.held page = true

theorem cloneFlags_plain : PageFlags cloneFlags := by decide

theorem leaf_of_translated {space : SpaceState} {root : U64} (rooted : root ≠ 0#64)
    (mapped : space.pagingVirtToPhysInRoot root virt ≠ 0#64) : space.leafAt root virt ≠ none := by
  intro absent
  rw [virtToPhys_leaf rooted, absent] at mapped
  exact mapped rfl

theorem Cloning.skip (cloning : Cloning dst src start index count frames first state)
    (hole : state.space.pagingVirtToPhysInRoot src (pageAt start index) = 0#64) :
    ¬ SourceMaps first.space src start index ∧
    Cloning dst src start (index + 1) count frames first state := by
  have live : src ∈ [dst, src] := List.mem_cons_of_mem _ (List.mem_singleton_self _)
  have rooted := cloning.trees.rooted live
  have absent : ¬ SourceMaps first.space src start index := by
    intro maps
    rw [SourceMaps, virtToPhys_leaf rooted, ← cloning.source, ← virtToPhys_leaf rooted] at maps
    exact maps hole
  have before : ∀ other < index + 1, SourceMaps first.space src start other →
    other < index := fun other lt maps => by
    obtain less | rfl := Nat.lt_succ_iff_lt_or_eq.mp lt
    · exact less
    · exact absurd maps absent
  refine ⟨absent, ⟨cloning.treesDst, cloning.active, cloning.kernelPml4, fun address away => ?_,
    fun other lt maps => ?_, fun one two less lt maps maps' => ?_, ?_, fun page isHeld =>
    ?_⟩, cloning.trees, cloning.source, cloning.kept⟩
  · exact cloning.others address fun other lt => away other (Nat.lt_succ_of_lt lt)
  · exact cloning.cloned other (before other lt maps) maps
  · exact cloning.apart one two less (before two lt maps') maps maps'
  · rw [Nat.count_succ, if_neg absent, cloning.counted, Nat.add_zero]
  · obtain was | ⟨other, lt, maps, isFrame⟩ := cloning.held page isHeld
    · exact .inl was
    · exact .inr ⟨other, Nat.lt_succ_of_lt lt, maps, isFrame⟩

structure Copied (dst src page : U64) (state later : CloneState) : Prop where
  isPage : PageAddress page
  wasFree : state.held page = false
  held : ∀ other, later.held other = true ↔ state.held other = true ∨ other = page
  trees : TreesSound later.space [dst, src]
  leaves : SameLeaves [dst, src] state.space later.space
  sameRoot : later.space.pagingRoot = state.space.pagingRoot
  kernelPml4 : later.space.kernelPml4 = state.space.kernelPml4

theorem alloc_cases (frame : Nat → U64) (state : CloneState) :
    state.pagingAllocPhysical frame = ({ state with asked := state.asked + 1 }, 0#64) ∨
      ∃ page, PageAddress page ∧ state.space.level page = 0 ∧ state.held page = false ∧
        state.pagingAllocPhysical frame =
          ({ state with held := update state.held page true, asked := state.asked + 1 }, page) := by
  by_cases usable : PageAddress (frame state.asked) ∧ state.space.level (frame state.asked) = 0 ∧
    state.held (frame state.asked) = false
  · exact .inr ⟨_, usable.1, usable.2.1,
      usable.2.2, by simp only [pagingAllocPhysical, if_pos usable]⟩
  · exact .inl (by simp only [pagingAllocPhysical, if_neg usable])

theorem copied_of_free (trees : TreesSound state.space [dst, src]) {page : U64}
    (isPage : PageAddress page) (free : state.space.level page = 0)
    (unheld : state.held page = false) (asked : Nat) (source : U64) : Copied dst src page state
      (copyPage { state with held := update state.held page true, asked } page source) := by
  obtain ⟨later, isLater⟩ :
    ∃ later, copyPage { state with held := update state.held page true, asked } page source =
    later :=
    ⟨_, rfl⟩
  have held : later.held = update state.held page true := by rw [← isLater]; rfl
  have mem : ∀ other, later.space.mem other = if other = page then state.space.mem source
    else state.space.mem other := by
    rw [← isLater]
    exact fun _ => rfl
  have rest : later.space.level = state.space.level ∧
      later.space.kernelPml4 = state.space.kernelPml4 ∧
      later.space.currentDirectory = state.space.currentDirectory := by
    rw [← isLater]
    exact ⟨rfl, rfl, rfl⟩
  rw [isLater]
  obtain ⟨trees', -, leaves⟩ := frameWritten trees rest.1 fun other inUse => by
    rw [mem other, if_neg]
    rintro rfl
    exact inUse free
  refine ⟨isPage, unheld, fun other => ?_, trees',
    leaves, by rw [pagingRoot, pagingRoot, rest.2.1, rest.2.2], rest.2.1⟩
  rw [held, update_apply]
  by_cases same : other = page
  · rw [if_pos same]
    exact ⟨fun _ => .inr same, fun _ => rfl⟩
  · rw [if_neg same]
    exact ⟨.inl, fun either => either.resolve_right same⟩

theorem Cloning.clone {page : U64} {later : CloneState} {space : SpaceState}
    (cloning : Cloning dst src start index count frames first state)
    (maps : state.space.pagingVirtToPhysInRoot src (pageAt start index) ≠ 0#64)
    (copied : Copied dst src page state later)
    (mapped : Mapped offer [dst, src] dst (pageAt start index) 4 (false,
    pageEntry page cloneFlags) later.space space) :
    Cloning dst src start (index + 1) (count + 1) (update frames index page)
    first { later with space } := by
  have liveDst : dst ∈ [dst, src] := List.mem_cons_self
  have live : src ∈ [dst, src] := List.mem_cons_of_mem _ (List.mem_singleton_self _)
  have rooted := cloning.trees.rooted live
  have here : SourceMaps first.space src start index := by
    rw [SourceMaps, virtToPhys_leaf rooted, ← cloning.source, ← virtToPhys_leaf rooted]
    exact maps
  -- the source has the page, so nothing that it has is changed
  have source : ∀ address, space.leafAt src address = later.space.leafAt src address := by
    intro address
    by_cases same : SamePath 4 (pageAt start index) address
    · refine mapped.stays src live address ?_
      rw [copied.leaves src live, leafAt_samePath same]
      exact leaf_of_translated rooted maps
    · exact mapped.others src live address same
  have fresh : ∀ other < index, update frames index page other = frames other := fun other lt =>
    update_of_ne (Nat.ne_of_lt lt) _ _
  have untouched : ∀ other < index, SourceMaps first.space src start other →
      ∀ address, SamePath 4 (pageAt start other) address →
      ¬ SamePath 4 (pageAt start index) address := by
    intro other lt maps' address same same'
    have before := mapped.before address same'
    rw [copied.leaves dst liveDst, ((cloning.cloned other lt maps').2.2 address same).2] at before
    cases before
  have unheld : first.held page = false := Bool.eq_false_iff.mpr fun isHeld =>
    absurd ((cloning.kept page isHeld).symm.trans copied.wasFree) Bool.true_eq_false.mp
  refine ⟨⟨mapped.trees.one liveDst, ?_, ?_, fun address away => ?_, fun other lt maps' => ?_,
    fun one two less lt maps' maps'' => ?_, ?_, fun other isHeld =>
    ?_⟩, mapped.trees, fun address => ?_, fun other wasHeld => ?_⟩
  · exact mapped.only.sameRoot.trans (copied.sameRoot.trans cloning.active)
  · exact mapped.only.kernelPml4.trans (copied.kernelPml4.trans cloning.kernelPml4)
  · rw [mapped.others dst liveDst address (away index (Nat.lt_succ_self _) here),
      copied.leaves dst liveDst]
    exact cloning.others address fun other lt => away other (Nat.lt_succ_of_lt lt)
  · obtain less | rfl := Nat.lt_succ_iff_lt_or_eq.mp lt
    · obtain ⟨isPage, unheld', leaves⟩ := cloning.cloned other less maps'
      rw [fresh other less]
      refine ⟨isPage, unheld', fun address same => ⟨(leaves address same).1, ?_⟩⟩
      rw [mapped.others dst liveDst address (untouched other less maps' address same), copied.leaves dst liveDst]
      exact (leaves address same).2
    · rw [update_self]
      refine ⟨copied.isPage, unheld, fun address same => ⟨?_, mapped.leaf address same⟩⟩
      rw [← cloning.others address fun earlier lt' maps'' same' =>
        untouched earlier lt' maps'' address same' same, ← copied.leaves dst liveDst]
      exact mapped.before address same
  · obtain less' | rfl := Nat.lt_succ_iff_lt_or_eq.mp lt
    · exact cloning.apart one two less less' maps' maps''
    · exact fun same => untouched one less maps' _ (SamePath.refl _ _) same.symm
  · rw [Nat.count_succ, if_pos here, cloning.counted]
  · obtain was | isPage := (copied.held other).mp isHeld
    · obtain before | ⟨earlier, lt, maps', isFrame⟩ := cloning.held other was
      · exact .inl before
      · exact .inr ⟨earlier, Nat.lt_succ_of_lt lt, maps', (fresh earlier lt).trans isFrame⟩
    · exact .inr ⟨index, Nat.lt_succ_self _, here, (update_self _ _ _).trans isPage.symm⟩
  · exact (source address).trans ((copied.leaves src live address).trans (cloning.source address))
  · exact (copied.held other).mpr (.inl (cloning.kept other wasHeld))

theorem Cloning.failed {page : U64} {later : CloneState} {space : SpaceState}
    (cloning : Cloning dst src start index count frames first state)
    (copied : Copied dst src page state later) (undone : MapsOn offer [dst] later.space space) :
    Clones dst src start index count frames
    first ({ later with space }.pagingFreePhysical page) := by
  have liveDst : dst ∈ [dst, src] := List.mem_cons_self
  have leaves : ∀ address, space.leafAt dst address = state.space.leafAt dst address :=
    fun address =>
    (undone.leaves dst (List.mem_singleton_self dst) address).trans
      (copied.leaves dst liveDst address)
  refine ⟨undone.trees, ?_, ?_,
    fun address away => (leaves address).trans (cloning.others address away), fun other lt maps =>
    ?_, cloning.apart, cloning.counted, fun other isHeld => ?_⟩
  · exact undone.only.sameRoot.trans (copied.sameRoot.trans cloning.active)
  · exact undone.only.kernelPml4.trans (copied.kernelPml4.trans cloning.kernelPml4)
  · obtain ⟨isPage, unheld, cloned⟩ := cloning.cloned other lt maps
    exact ⟨isPage, unheld,
      fun address same => ⟨(cloned address same).1, (leaves address).trans (cloned address same).2⟩⟩
  · have isHeld : update later.held page false other = true := isHeld
    rw [update_apply] at isHeld
    split at isHeld
    · cases isHeld
    · next differs => exact cloning.held other (((copied.held other).mp isHeld).resolve_right differs)

theorem nextPage_le {size : U64} (whole : size.toNat % 4096 = 0) (fits : index * 4096 ≤ size.toNat)
    (more : BitVec.ofNat 64 (index * 4096) < size) : (index + 1) * 4096 ≤ size.toNat := by
  rw [BitVec.lt_def, BitVec.toNat_ofNat,
    Nat.mod_eq_of_lt (Nat.lt_of_le_of_lt fits size.isLt)] at more
  have pages : size.toNat / 4096 * 4096 = size.toNat :=
    Nat.div_mul_cancel (Nat.dvd_of_mod_eq_zero whole)
  rw [← pages] at more ⊢
  exact Nat.mul_le_mul_right 4096 (Nat.lt_of_mul_lt_mul_right more)

def LoopEnds (dst src start size : U64) (first : CloneState)
    (result : CloneState × U64 × Nat × Bool) : Prop :=
  ∃ last frames, result.2.1 = BitVec.ofNat 64 (last * 4096) ∧ last * 4096 ≤ size.toNat ∧
    Clones dst src start last result.2.2.1 frames first result.1

theorem cloneLoop_spec {size : U64} (fuel : Nat) (whole : size.toNat % 4096 = 0)
    (fits : index * 4096 ≤ size.toNat)
    (cloning : Cloning dst src start index count frames first state) :
    LoopEnds dst src start size
    first (cloneLoop offer frame src start size fuel (BitVec.ofNat 64 (index * 4096)) count state) := by
  induction fuel generalizing index count frames state with
  | zero => exact ⟨index, frames, rfl, fits, cloning.toClones⟩
  | succ fuel ih =>
      rw [cloneLoop]
      split
      · next more =>
        have next := nextPage_le whole fits more
        dsimp only
        split
        · next hole =>
          rw [pageOffset_succ]
          exact ih next (cloning.skip hole).2
        · next maps =>
          obtain failed | ⟨page, isPage, free, unheld, given⟩ := alloc_cases frame state
          · rw [failed]
            exact ⟨index, frames, rfl, fits, { cloning.toClones with }⟩
          · rw [given]
            rw [if_neg isPage.1]
            obtain ⟨copy, isCopy⟩ : ∃ copy, copyPage { state with held := update state.held page true, asked := state.asked + 1 }
              page (state.space.pagingVirtToPhysInRoot src (start + BitVec.ofNat 64 (index * 4096))) = copy := ⟨_, rfl⟩
            have copied : Copied dst src page state copy := isCopy ▸ copied_of_free cloning.trees isPage free unheld _ _
            rw [isCopy]
            have active := copied.sameRoot.trans cloning.active
            have spec := @pagingMapPage_spec offer copy.space (pageAt start index) page cloneFlags
              [dst, src] copied.trees (by rw [active]; exact List.mem_cons_self) cloneFlags_plain
            rw [active] at spec
            change LoopEnds dst src start size first (match copy.space.pagingMapPage offer (pageAt start index) page cloneFlags with
              | (space, false) => _
              | (space, true) => _)
            rcases isStep : copy.space.pagingMapPage offer (pageAt start index) page cloneFlags with ⟨space, _ | _⟩
            · rw [isStep] at spec
              exact ⟨index, frames, rfl, fits, cloning.failed copied (spec.2 rfl)⟩
            · rw [isStep] at spec
              rw [pageOffset_succ]
              exact ih next (cloning.clone maps copied (spec.1 rfl))
      · exact ⟨index, frames, rfl, fits, cloning.toClones⟩

end Cos.Paging
