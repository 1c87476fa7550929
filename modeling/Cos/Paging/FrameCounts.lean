import Cos.Lib.Span
import Cos.Paging.PageCache

/-! # Frame counts

Copy-on-write after `fork` and the cache of file pages both count the mappings of a
frame in `g_cow`.  The counter of a frame that is not cached is its number of mappings
from two on and 0 or 1 below; the cache adds a count of its own.
-/

namespace Cos.Paging

open Cos.Lib
open Function (update update_of_ne update_self)

/-- `paging_free_physical`, down to the frame allocator. -/
def pagingFreePhysical (phys : Nat) (state : FrameState) : FrameState :=
  let pfn := phys / 4096
  let state :=
    if pcIsCached state pfn then
      { pcUnlink pfn state with gCow := update state.gCow pfn 0 }
    else state
  { state with inUse := update state.inUse pfn false }

def addMapping (frame : Nat) (mapping : Mapping) (state : FrameState) : FrameState :=
  { state with
    mappings := update state.mappings frame (insert mapping (state.mappings frame)) }

def removeMapping (frame : Nat) (mapping : Mapping) (state : FrameState) : FrameState :=
  { state with
    mappings := update state.mappings frame ((state.mappings frame).erase mapping) }

section Operations

variable (totalMemory : Nat) (memory tables : Bool)

/-- `paging_pcache_get`: the address of the cached frame, 0 when there is none. -/
def pagingPcacheGet (fh fsz : BitVec 64) (pg : BitVec 32) (state : FrameState) : Nat × FrameState :=
  match pcInit totalMemory memory tables state with
  | (false, state) => (0, state)
  | (true, state) =>
      let i := pcFind state fh fsz pg
      if i = 0 then (0, state)
      else
        let pfn := (state.pcEnt i).frame
        if state.gCow pfn < 65000 then
          ((state.pcEnt i).phys,
            { state with gCow := update state.gCow pfn (state.gCow pfn + 1) })
        else (0, state)

def pagingPcachePut (fh fsz : BitVec 64) (pg : BitVec 32) (phys : Nat) (state : FrameState) :
    Bool × FrameState :=
  let pfn := phys / 4096
  match pcInit totalMemory memory tables state with
  | (false, state) => (false, state)
  | (true, state) =>
      if phys ≠ 0 ∧ phys % 4096 = 0 ∧ pfn < state.gCowN ∧ state.gCow pfn < 2 ∧
          state.pcRev pfn = 0 then
        let files := if fh ∉ state.pcFiles ∧ state.pcFiles.length < pcFilesCap
          then state.pcFiles ++ [fh] else state.pcFiles
        if pcFind state fh fsz pg = 0 ∧ fh ∈ files ∧ pcSlot state ≠ 0 then
          (true, { pcStore ⟨fh, fsz, phys, pg⟩ state with
            pcFiles := files
            gCow := update state.gCow pfn 2 })
        else (false, { state with pcFiles := files })
      else (false, state)

/-- One round of the loop of `paging_pcache_invalidate_file`. -/
def pcForget (fh : BitVec 64) (state : FrameState) (i : Nat) : FrameState :=
  if (state.pcEnt i).phys ≠ 0 ∧ (state.pcEnt i).fh = fh then
    let pfn := (state.pcEnt i).frame
    { pcUnlink pfn state with gCow := update state.gCow pfn (state.gCow pfn - 1) }
  else state

def pagingPcacheInvalidateFile (fh : BitVec 64) (state : FrameState) : FrameState :=
  match state.pcFiles.findIdx? (· == fh) with
  | some kk =>
      if state.pcReady then
        { (List.range' 1 state.pcUsed).foldl (pcForget fh) state with
          pcFiles := swapRemove state.pcFiles kk }
      else state
  | none => state

def pagingCowShare (phys : Nat) (state : FrameState) : Bool × FrameState :=
  let pfn := phys / 4096
  match cowReady totalMemory memory state with
  | (false, state) => (false, state)
  | (true, state) =>
      if pfn < state.gCowN ∧ state.gCow pfn < 65000 then
        let count := if state.gCow pfn < 2 then 2 else (state.gCow pfn + 1) % 2 ^ 16
        (true, { state with gCow := update state.gCow pfn count })
      else (false, state)

/-- `paging_cow_drop`: whether others still map the frame. -/
def pagingCowDrop (phys : Nat) (state : FrameState) : Bool × FrameState :=
  let pfn := phys / 4096
  if pfn < state.gCowN then
    if pcIsCached state pfn then
      if state.gCow pfn > 2 then
        (true, { state with gCow := update state.gCow pfn (state.gCow pfn - 1) })
      else (false, { pcUnlink pfn state with gCow := update state.gCow pfn 0 })
    else if state.gCow pfn ≥ 2 then
      (true, { state with gCow := update state.gCow pfn (state.gCow pfn - 1) })
    else (false, { state with gCow := update state.gCow pfn 0 })
  else (false, state)

/-- `paging_cow_break` for the page `mapping`, which `paging_virt_to_phys` finds at `phys`.
`writable` is what `paging_user_range_ok` says, `copy` the frame that
`paging_alloc_physical` returns, `remapped` and `rewritten` the outcomes of
`paging_remap_page` and `paging_protect_page`. -/
def pagingCowBreak (mapping : Mapping) (phys : Nat) (writable : Bool) (copy : Option Nat)
    (remapped rewritten : Bool) (state : FrameState) : Bool × FrameState :=
  let pfn := phys / 4096
  if pfn = 0 then (false, state)
  else if writable then (true, state)
  else if pfn < state.gCowN ∧ state.gCow pfn ≥ 2 then
    match copy with
    | none => (false, state)
    | some np =>
        let state := { state with inUse := update state.inUse np true }
        if remapped then
          let state := addMapping np mapping (removeMapping pfn mapping state)
          let state := { state with gCow := update state.gCow pfn (state.gCow pfn - 1) }
          if pcIsCached state pfn ∧ state.gCow pfn ≤ 1 then
            (true, pagingFreePhysical phys
              { pcUnlink pfn state with gCow := update state.gCow pfn 0 })
          else (true, state)
        else (false, pagingFreePhysical (np * 4096) state)
  else if pfn < state.gCowN then
    (rewritten, { state with gCow := update state.gCow pfn 0 })
  else (rewritten, state)

end Operations

/-- A call, with the outcomes of what it asks the rest of the kernel for. -/
inductive FrameCall where
  /-- `paging_alloc_physical` hands out a frame. -/
  | alloc (frame : Nat)
  /-- A frame is mapped for the first time. -/
  | mapFrame (frame : Nat) (mapping : Mapping)
  /-- `paging_cow_share`, and the second mapping if it succeeds. -/
  | share (phys : Nat) (mapping : Mapping) (memory : Bool)
  /-- `paging_cow_drop` for a mapping that is gone; the caller frees the frame on `false`. -/
  | drop (phys : Nat) (mapping : Mapping)
  | breakCopy (phys : Nat) (mapping : Mapping) (writable : Bool) (copy : Option Nat)
      (remapped rewritten : Bool)
  | put (fh fsz : BitVec 64) (pg : BitVec 32) (phys : Nat) (memory tables : Bool)
  /-- `paging_pcache_get`, and the mapping of the frame it finds. -/
  | get (fh fsz : BitVec 64) (pg : BitVec 32) (mapping : Mapping) (memory tables : Bool)
  | invalidate (fh : BitVec 64)
  | free (phys : Nat)

def frameStep (totalMemory : Nat) (state : FrameState) : FrameCall → FrameState
  | .alloc frame => { state with inUse := update state.inUse frame true }
  | .mapFrame frame mapping => addMapping frame mapping state
  | .share phys mapping memory =>
      match pagingCowShare totalMemory memory phys state with
      | (true, after) => addMapping (phys / 4096) mapping after
      | (false, after) => after
  | .drop phys mapping =>
      match pagingCowDrop phys (removeMapping (phys / 4096) mapping state) with
      | (true, after) => after
      | (false, after) => pagingFreePhysical phys after
  | .breakCopy phys mapping writable copy remapped rewritten =>
      (pagingCowBreak mapping phys writable copy remapped rewritten state).2
  | .put fh fsz pg phys memory tables =>
      (pagingPcachePut totalMemory memory tables fh fsz pg phys state).2
  | .get fh fsz pg mapping memory tables =>
      match pagingPcacheGet totalMemory memory tables fh fsz pg state with
      | (0, after) => after
      | (phys, after) => addMapping (phys / 4096) mapping after
  | .invalidate fh => pagingPcacheInvalidateFile fh state
  | .free phys => pagingFreePhysical phys state

/-- What the callers keep to: a new mapping is of a page that the frame is not mapped at,
a frame is shared while it is mapped and offered to the cache while it is mapped once, a
mapping that goes was there, and no mapped frame is freed directly.  The allocator hands
out frames that are not in use. -/
def FrameCall.Allowed (state : FrameState) : FrameCall → Prop
  | .alloc frame => state.inUse frame = false
  | .mapFrame frame _ => state.inUse frame = true ∧ state.mappings frame = ∅
  | .share phys mapping _ =>
      state.mappings (phys / 4096) ≠ ∅ ∧ mapping ∉ state.mappings (phys / 4096)
  | .drop phys mapping => mapping ∈ state.mappings (phys / 4096)
  | .breakCopy phys mapping _ copy _ _ =>
      mapping ∈ state.mappings (phys / 4096) ∧ ∀ np ∈ copy, state.inUse np = false
  | .put _ _ _ phys _ _ => (state.mappings (phys / 4096)).card = 1
  | .get _ _ _ mapping _ _ => ∀ frame, mapping ∉ state.mappings frame
  | .invalidate _ => True
  | .free phys => state.mappings (phys / 4096) = ∅

/-- What the counter of a frame says about its number of mappings. -/
structure CountOk (cached : Prop) (count mapped : Nat) : Prop where
  cachedCount : cached → count = mapped + 1
  single : ¬ cached → mapped ≤ 1 → count ≤ 1
  shared : ¬ cached → 2 ≤ mapped → count = mapped

structure FrameOk (state : FrameState) (pfn : Nat) : Prop where
  count : CountOk (state.pcRev pfn ≠ 0) (state.gCow pfn) (state.mappings pfn).card
  cachedMapped : state.pcRev pfn ≠ 0 → 0 < (state.mappings pfn).card
  untracked : state.gCowN ≤ pfn → (state.mappings pfn).card ≤ 1
  used : 0 < (state.mappings pfn).card → state.inUse pfn = true

structure FrameInvariant (state : FrameState) : Prop where
  cache : CacheSound state
  frames : ∀ pfn, FrameOk state pfn

variable {state after : FrameState} {pfn frame phys totalMemory : Nat} {mapping : Mapping}
  {memory tables : Bool}

theorem CacheSound.withFrames (sound : CacheSound state) (gCow : Nat → Nat)
    (files : List (BitVec 64)) (inUse : Nat → Bool) (mappings : Nat → Finset Mapping) :
    CacheSound { state with
      gCow := gCow, pcFiles := files, inUse := inUse, mappings := mappings } := by
  obtain ⟨buckets, spare, chains⟩ := sound
  exact ⟨buckets, spare, chains.bucketChain, chains.bucketDistinct, chains.bucketMember,
    chains.spareChain, chains.spareDistinct, chains.spareMember, chains.reverse, chains.tracked,
    chains.capacity, chains.unallocated⟩

structure SameFrame (before after : FrameState) (pfn : Nat) : Prop where
  pcRev : after.pcRev pfn = before.pcRev pfn
  gCow : after.gCow pfn = before.gCow pfn
  gCowN : after.gCowN = before.gCowN
  mappings : after.mappings pfn = before.mappings pfn
  inUse : after.inUse pfn = before.inUse pfn

theorem FrameOk.congr (ok : FrameOk state pfn) (same : SameFrame state after pfn) :
    FrameOk after pfn := by
  obtain ⟨count, cachedMapped, untracked, used⟩ := ok
  constructor
  · rw [same.pcRev, same.gCow, same.mappings]
    exact count
  · rw [same.pcRev, same.mappings]
    exact cachedMapped
  · rw [same.gCowN, same.mappings]
    exact untracked
  · rw [same.mappings, same.inUse]
    exact used

theorem FrameInvariant.atFrame (pfn : Nat) (invariant : FrameInvariant state)
    (cache : CacheSound after) (here : FrameOk after pfn)
    (others : ∀ other, other ≠ pfn → SameFrame state after other) : FrameInvariant after := by
  refine ⟨cache, fun other => ?_⟩
  by_cases same : other = pfn
  · rw [same]
    exact here
  · exact (invariant.frames other).congr (others other same)

theorem cowReady_spec (invariant : FrameInvariant state) :
    FrameInvariant (cowReady totalMemory memory state).2 ∧
      (cowReady totalMemory memory state).2.mappings = state.mappings ∧
      (cowReady totalMemory memory state).2.inUse = state.inUse ∧
      (cowReady totalMemory memory state).2.pcReady = state.pcReady ∧
      (cowReady totalMemory memory state).2.pcUsed = state.pcUsed := by
  unfold cowReady
  split
  · exact ⟨invariant, rfl, rfl, rfl, rfl⟩
  split
  · obtain ⟨⟨buckets, spare, chains⟩, frames⟩ := invariant
    have uncached : ∀ pfn, state.pcRev pfn = 0 := by
      intro pfn
      by_contra cached
      have := chains.tracked pfn cached
      omega
    refine ⟨⟨⟨buckets, spare, { chains with tracked := ?_ }⟩, fun pfn => ?_⟩, rfl, rfl, rfl, rfl⟩
    · intro pfn cached
      exact absurd (uncached pfn) cached
    · have single := (frames pfn).untracked (by omega)
      have clear : ¬ state.pcRev pfn ≠ 0 := not_not.mpr (uncached pfn)
      exact ⟨⟨fun cached => absurd cached clear, fun _ _ => Nat.zero_le _,
        fun _ many => absurd many (Nat.not_le.mpr (Nat.lt_succ_of_le single))⟩,
        fun cached => absurd cached clear, fun _ => single, (frames pfn).used⟩
  · exact ⟨invariant, rfl, rfl, rfl, rfl⟩

theorem pcInit_spec (invariant : FrameInvariant state) :
    FrameInvariant (pcInit totalMemory memory tables state).2 ∧
      (pcInit totalMemory memory tables state).2.mappings = state.mappings ∧
      (pcInit totalMemory memory tables state).2.inUse = state.inUse ∧
      ((pcInit totalMemory memory tables state).1 = true →
        (pcInit totalMemory memory tables state).2.pcReady = true) := by
  unfold pcInit
  split
  · rename_i ready
    exact ⟨invariant, rfl, rfl, fun _ => ready⟩
  rename_i unready
  split
  · exact ⟨invariant, rfl, rfl, fun wrong => by contradiction⟩
  obtain ⟨kept, sameMappings, sameUse, sameReady, sameUsed⟩ :=
    @cowReady_spec state totalMemory memory invariant
  cases allocated : cowReady totalMemory memory state with
  | mk ok grown =>
      simp only [allocated] at kept sameMappings sameUse sameReady sameUsed
      cases ok with
      | false => exact ⟨kept, sameMappings, sameUse, fun wrong => by contradiction⟩
      | true =>
          obtain ⟨⟨buckets, spare, chains⟩, frames⟩ := kept
          have empty : grown.pcUsed = 0 := chains.unallocated (by
            rw [sameReady]
            exact Bool.eq_false_iff.mpr unready)
          have uncached : ∀ pfn, grown.pcRev pfn = 0 := by
            intro pfn
            by_contra cached
            obtain ⟨⟨nonzero, used, _⟩, _⟩ := (chains.reverse pfn _ cached).mp rfl
            omega
          have unspare : spare = [] := by
            rw [List.eq_nil_iff_forall_not_mem]
            intro cell member
            have := (chains.spareMember cell member).1
            have := chains.spareChain.nonzero member
            omega
          cases tables with
          | false =>
              refine ⟨⟨⟨buckets, spare, { chains with }⟩, fun pfn => (frames pfn).congr ?_⟩,
                sameMappings, sameUse, fun wrong => by contradiction⟩
              exact ⟨rfl, rfl, rfl, rfl, rfl⟩
          | true =>
              subst unspare
              refine ⟨⟨⟨fun _ => [], [], fun _ => rfl, fun _ => List.nodup_nil, fun bucket idx => ?_,
                chains.spareChain, List.nodup_nil, fun _ member => by contradiction,
                fun pfn idx nonzero => ?_, fun pfn cached => absurd rfl cached,
                chains.capacity, fun wrong => by contradiction⟩, fun pfn => (frames pfn).congr ?_⟩,
                sameMappings, sameUse, fun _ => rfl⟩
              · simp [Stored, PcEnt.zero]
              · simp only [Stored, PcEnt.zero]
                simp [Ne.symm nonzero]
              · exact ⟨(uncached pfn).symm, rfl, rfl, rfl, rfl⟩

theorem CountOk.add {cached : Prop} {count mapped : Nat} (ok : CountOk cached count mapped)
    (some : 0 < mapped) (small : count < 65000) :
    CountOk cached (if count < 2 then 2 else (count + 1) % 2 ^ 16) (mapped + 1) := by
  obtain ⟨cachedCount, single, shared⟩ := ok
  by_cases isCached : cached
  · have := cachedCount isCached
    exact ⟨fun _ => by split <;> omega, fun un => absurd isCached un, fun un => absurd isCached un⟩
  · have := single isCached
    have := shared isCached
    exact ⟨fun c => absurd c isCached, fun _ few => by omega, fun _ _ => by split <;> omega⟩

theorem share_invariant (invariant : FrameInvariant state)
    (allowed : (FrameCall.share phys mapping memory).Allowed state) :
    FrameInvariant (frameStep totalMemory state (.share phys mapping memory)) := by
  obtain ⟨nonempty, new⟩ := allowed
  obtain ⟨kept, sameMappings, sameUse, _, _⟩ := @cowReady_spec state totalMemory memory invariant
  rw [frameStep, pagingCowShare]
  cases allocated : cowReady totalMemory memory state with
  | mk ok grown =>
      simp only [allocated] at kept sameMappings sameUse ⊢
      cases ok with
      | false => exact kept
      | true =>
          by_cases counted : phys / 4096 < grown.gCowN ∧ grown.gCow (phys / 4096) < 65000
          · simp only [if_pos counted]
            rw [← sameMappings] at nonempty new
            have positive := Finset.card_pos.mpr (Finset.nonempty_iff_ne_empty.mpr nonempty)
            obtain ⟨count, _, _, used⟩ := kept.frames (phys / 4096)
            refine kept.atFrame (phys / 4096) (kept.cache.withFrames _ _ _ _) ?_ ?_
            · simp only [addMapping]
              constructor <;> simp only [update_self, Finset.card_insert_of_notMem new]
              · exact count.add positive counted.2
              · exact fun _ => Nat.succ_pos _
              · omega
              · exact fun _ => used positive
            · intro other different
              exact ⟨rfl, update_of_ne different _ _, rfl,
                update_of_ne different _ _, rfl⟩
          · simp only [if_neg counted]
            exact kept

theorem pcInit_ready {grown : FrameState} (invariant : FrameInvariant state)
    (init : pcInit totalMemory memory tables state = (true, grown)) :
    FrameInvariant grown ∧ grown.mappings = state.mappings ∧ grown.inUse = state.inUse ∧
      grown.pcReady = true := by
  have spec := @pcInit_spec state totalMemory memory tables invariant
  rw [init] at spec
  exact ⟨spec.1, spec.2.1, spec.2.2.1, spec.2.2.2 rfl⟩

theorem get_invariant {fh fsz : BitVec 64} {pg : BitVec 32} (invariant : FrameInvariant state)
    (allowed : (FrameCall.get fh fsz pg mapping memory tables).Allowed state) :
    FrameInvariant (frameStep totalMemory state (.get fh fsz pg mapping memory tables)) := by
  rw [frameStep, pagingPcacheGet]
  cases init : pcInit totalMemory memory tables state with
  | mk ok grown =>
      cases ok with
      | false =>
          have spec := @pcInit_spec state totalMemory memory tables invariant
          rw [init] at spec
          exact spec.1
      | true =>
          obtain ⟨kept, sameMappings, sameUse, _⟩ := pcInit_ready invariant init
          by_cases missing : pcFind grown fh fsz pg = 0
          · simp only [if_pos missing]
            exact kept
          simp only [if_neg missing]
          have stored := pcFind_stored kept.cache missing
          obtain ⟨idx, isFound⟩ : ∃ idx, pcFind grown fh fsz pg = idx := ⟨_, rfl⟩
          rw [isFound] at stored ⊢
          by_cases room : grown.gCow (grown.pcEnt idx).frame < 65000
          · simp only [if_pos room]
            split
            · rename_i zero
              exact absurd (Prod.mk.inj zero).1 stored.2.2
            rename_i found after _ same
            obtain ⟨rfl, rfl⟩ := Prod.mk.inj same
            change FrameInvariant (addMapping (grown.pcEnt idx).frame mapping _)
            obtain ⟨count, cachedMapped, untracked, used⟩ := kept.frames (grown.pcEnt idx).frame
            have cached : grown.pcRev (grown.pcEnt idx).frame ≠ 0 := by
              rw [kept.cache.pcRev_frame stored]
              exact stored.1
            have new : mapping ∉ grown.mappings (grown.pcEnt idx).frame := by
              rw [sameMappings]
              exact allowed _
            have counted := count.cachedCount cached
            refine kept.atFrame (grown.pcEnt idx).frame (kept.cache.withFrames _ _ _ _) ?_ ?_
            · simp only [addMapping]
              constructor <;> simp only [update_self, Finset.card_insert_of_notMem new]
              · exact ⟨fun _ => by omega, fun un => absurd cached un, fun un => absurd cached un⟩
              · exact fun _ => Nat.succ_pos _
              · obtain ⟨_, _, chains⟩ := kept.cache
                have := chains.tracked _ cached
                omega
              · exact fun _ => used (cachedMapped cached)
            · intro other different
              exact ⟨rfl, update_of_ne different _ _, rfl,
                update_of_ne different _ _, rfl⟩
          · simp only [if_neg room]
            exact kept

theorem put_invariant {fh fsz : BitVec 64} {pg : BitVec 32} (invariant : FrameInvariant state)
    (allowed : (FrameCall.put fh fsz pg phys memory tables).Allowed state) :
    FrameInvariant (frameStep totalMemory state (.put fh fsz pg phys memory tables)) := by
  rw [frameStep, pagingPcachePut]
  cases init : pcInit totalMemory memory tables state with
  | mk ok grown =>
      cases ok with
      | false =>
          have spec := @pcInit_spec state totalMemory memory tables invariant
          rw [init] at spec
          exact spec.1
      | true =>
          obtain ⟨kept, sameMappings, sameUse, ready⟩ := pcInit_ready invariant init
          simp only
          split
          · rename_i fits
            obtain ⟨nonzero, aligned, tracked, few, uncached⟩ := fits
            obtain ⟨files, isFiles⟩ : ∃ files, (if fh ∉ grown.pcFiles ∧
              grown.pcFiles.length < pcFilesCap then grown.pcFiles ++ [fh] else grown.pcFiles) =
              files := ⟨_, rfl⟩
            rw [isFiles]
            split
            · rename_i storable
              obtain ⟨buckets, spare, chains⟩ := kept.cache
              have once : (grown.mappings (phys / 4096)).card = 1 := by
                rw [sameMappings]
                exact allowed
              have sound := @CacheChains.store grown buckets spare ⟨fh, fsz, phys, pg⟩ chains
                storable.2.2 nonzero uncached tracked ready
              have slot : (pcStore ⟨fh, fsz, phys, pg⟩ grown).pcRev (phys / 4096) = pcSlot grown :=
                update_self _ _ _
              refine kept.atFrame (phys / 4096) (sound.withFrames _ _ _ _) ?_ ?_
              · have cached : (pcStore ⟨fh, fsz, phys, pg⟩ grown).pcRev (phys / 4096) ≠ 0 := by
                  rw [slot]
                  exact storable.2.2
                have oneMapping : ((pcStore ⟨fh, fsz, phys, pg⟩ grown).mappings (phys / 4096)).card = 1 :=
                  once
                constructor <;> simp only [update_self, oneMapping]
                · exact ⟨fun _ => rfl, fun un => absurd cached un, fun un => absurd cached un⟩
                · exact fun _ => Nat.one_pos
                · exact fun _ => Nat.le_refl 1
                · exact fun _ => (kept.frames (phys / 4096)).used (by omega)
              · intro other different
                exact ⟨update_of_ne different _ _, update_of_ne different _ _,
                  rfl, rfl, rfl⟩
            · exact ⟨kept.cache.withFrames _ _ _ _, fun pfn =>
                (kept.frames pfn).congr ⟨rfl, rfl, rfl, rfl, rfl⟩⟩
          · exact kept

def forgetFrame (pfn value : Nat) (state : FrameState) : FrameState :=
  { pcUnlink pfn state with gCow := update state.gCow pfn value }

theorem forgetFrame_pcRev {value : Nat} (cached : state.pcRev pfn ≠ 0) :
    (forgetFrame pfn value state).pcRev pfn = 0 := by
  rw [forgetFrame]
  rw [pcUnlink_pcRev cached, Function.update_self]

theorem forgetFrame_same {value other : Nat} (cached : state.pcRev pfn ≠ 0)
    (different : other ≠ pfn) : SameFrame state (forgetFrame pfn value state) other := by
  simp only [forgetFrame]
  refine ⟨?_, update_of_ne different _ _, pcUnlink_gCowN, by rw [pcUnlink_mappings],
    by rw [pcUnlink_inUse]⟩
  rw [pcUnlink_pcRev cached, Function.update_of_ne different]

theorem forgetFrame_sound {value : Nat} (sound : CacheSound state) (cached : state.pcRev pfn ≠ 0) :
    CacheSound (forgetFrame pfn value state) :=
  (sound.unlink cached).withFrames _ _ _ _

@[simp] theorem forgetFrame_gCow {value : Nat} :
    (forgetFrame pfn value state).gCow pfn = value := update_self _ _ _

@[simp] theorem forgetFrame_mappings {value : Nat} :
    (forgetFrame pfn value state).mappings = state.mappings := pcUnlink_mappings

@[simp] theorem forgetFrame_inUse {value : Nat} :
    (forgetFrame pfn value state).inUse = state.inUse := pcUnlink_inUse

@[simp] theorem forgetFrame_gCowN {value : Nat} :
    (forgetFrame pfn value state).gCowN = state.gCowN := pcUnlink_gCowN

theorem pcForget_invariant {fh : BitVec 64} {i : Nat} (invariant : FrameInvariant state)
    (inTable : i ≠ 0) (used : i ≤ state.pcUsed) :
    FrameInvariant (pcForget fh state i) ∧ (pcForget fh state i).pcUsed = state.pcUsed ∧
      (pcForget fh state i).mappings = state.mappings ∧
      (pcForget fh state i).inUse = state.inUse := by
  rw [pcForget]
  split
  · rename_i ours
    have stored : Stored state i := ⟨inTable, used, ours.1⟩
    have cached : state.pcRev (state.pcEnt i).frame ≠ 0 := by
      rw [invariant.cache.pcRev_frame stored]
      exact inTable
    obtain ⟨count, cachedMapped, untracked, inUse⟩ := invariant.frames (state.pcEnt i).frame
    have counted := count.cachedCount cached
    refine ⟨?_, pcUnlink_pcUsed, pcUnlink_mappings, pcUnlink_inUse⟩
    change FrameInvariant (forgetFrame (state.pcEnt i).frame _ state)
    refine invariant.atFrame (state.pcEnt i).frame (forgetFrame_sound invariant.cache cached) ?_
      fun other different => forgetFrame_same cached different
    have uncached : ¬ (forgetFrame (state.pcEnt i).frame (state.gCow (state.pcEnt i).frame - 1)
        state).pcRev (state.pcEnt i).frame ≠ 0 := not_not.mpr (forgetFrame_pcRev cached)
    constructor <;> simp only [forgetFrame_gCow, forgetFrame_mappings, forgetFrame_gCowN,
      forgetFrame_inUse]
    · exact ⟨fun wrong => absurd wrong uncached, fun _ _ => by omega, fun _ _ => by omega⟩
    · exact fun wrong => absurd wrong uncached
    · exact untracked
    · exact inUse
  · exact ⟨invariant, rfl, rfl, rfl⟩

theorem foldl_pcForget {fh : BitVec 64} {rounds : List Nat} (invariant : FrameInvariant state)
    (inside : ∀ i ∈ rounds, i ≠ 0 ∧ i ≤ state.pcUsed) :
    FrameInvariant (rounds.foldl (pcForget fh) state) ∧
      (rounds.foldl (pcForget fh) state).mappings = state.mappings ∧
      (rounds.foldl (pcForget fh) state).inUse = state.inUse := by
  induction rounds generalizing state with
  | nil => exact ⟨invariant, rfl, rfl⟩
  | cons i rest ih =>
      obtain ⟨nonzero, used⟩ := inside i (by simp)
      obtain ⟨kept, sameUsed, sameMappings, sameUse⟩ :=
        @pcForget_invariant state fh i invariant nonzero used
      obtain ⟨final, finalMappings, finalUse⟩ := @ih (pcForget fh state i) kept fun j member => by
        rw [sameUsed]
        exact inside j (by simp [member])
      exact ⟨final, finalMappings.trans sameMappings, finalUse.trans sameUse⟩

theorem invalidate_spec {fh : BitVec 64} (invariant : FrameInvariant state) :
    FrameInvariant (pagingPcacheInvalidateFile fh state) ∧
      (pagingPcacheInvalidateFile fh state).mappings = state.mappings ∧
      (pagingPcacheInvalidateFile fh state).inUse = state.inUse := by
  rw [pagingPcacheInvalidateFile]
  split
  · split
    · obtain ⟨kept, sameMappings, sameUse⟩ := @foldl_pcForget state fh
        (List.range' 1 state.pcUsed) invariant fun i member => by
          have := List.mem_range'_1.mp member
          omega
      exact ⟨⟨kept.cache.withFrames _ _ _ _, fun pfn =>
        (kept.frames pfn).congr ⟨rfl, rfl, rfl, rfl, rfl⟩⟩, sameMappings, sameUse⟩
    · exact ⟨invariant, rfl, rfl⟩
  · exact ⟨invariant, rfl, rfl⟩

theorem pagingFreePhysical_uncached (sound : CacheSound state)
    (uncached : state.pcRev (phys / 4096) = 0) :
    pagingFreePhysical phys state =
      { state with inUse := update state.inUse (phys / 4096) false } := by
  have missing : ¬ pcIsCached state (phys / 4096) = true := fun found =>
    sound.pcIsCached_iff.mp found uncached
  rw [pagingFreePhysical, if_neg missing]

theorem freeFrame_invariant (cache : CacheSound state)
    (others : ∀ other, other ≠ pfn → FrameOk state other) (uncached : state.pcRev pfn = 0)
    (unmapped : state.mappings pfn = ∅) (few : state.gCow pfn ≤ 1) :
    FrameInvariant { state with inUse := update state.inUse pfn false } := by
  refine ⟨cache.withFrames _ _ _ _, fun other => ?_⟩
  by_cases same : other = pfn
  · subst same
    have clear : ¬ state.pcRev other ≠ 0 := not_not.mpr uncached
    constructor <;> simp only [unmapped, Finset.card_empty]
    · exact ⟨fun wrong => absurd wrong clear, fun _ _ => few, fun _ many => by omega⟩
    · exact fun wrong => absurd wrong clear
    · exact fun _ => Nat.zero_le 1
    · exact fun wrong => absurd wrong (Nat.lt_irrefl 0)
  · exact (others other same).congr ⟨rfl, rfl, rfl, rfl, update_of_ne same _ _⟩

/-- What the end of a mapping leaves: a frame that others map stays in use, a frame
that nobody maps any more is free. -/
def Released (pfn : Nat) (before after : FrameState) : Prop :=
  after.mappings = before.mappings ∧
    ((before.mappings pfn ≠ ∅ ∧ after.inUse = before.inUse) ∨
      (before.mappings pfn = ∅ ∧ after.inUse = update before.inUse pfn false))

theorem drop_spec (invariant : FrameInvariant state)
    (mapped : mapping ∈ state.mappings (phys / 4096)) :
    FrameInvariant (frameStep totalMemory state (.drop phys mapping)) ∧
      Released (phys / 4096) (removeMapping (phys / 4096) mapping state)
        (frameStep totalMemory state (.drop phys mapping)) := by
  obtain ⟨pfn, isFrame⟩ : ∃ pfn, phys / 4096 = pfn := ⟨_, rfl⟩
  rw [frameStep]
  rw [isFrame] at mapped ⊢
  obtain ⟨gone, isGone⟩ : ∃ gone, removeMapping pfn mapping state = gone := ⟨_, rfl⟩
  rw [isGone]
  obtain ⟨count, cachedMapped, untracked, used⟩ := invariant.frames pfn
  have cache : CacheSound gone := isGone ▸ invariant.cache.withFrames _ _ _ _
  have others : ∀ other, other ≠ pfn → SameFrame state gone other := fun other different =>
    isGone ▸ ⟨rfl, rfl, rfl, update_of_ne different _ _, rfl⟩
  have othersOk : ∀ other, other ≠ pfn → FrameOk gone other := fun other different =>
    (invariant.frames other).congr (others other different)
  have sameRev : gone.pcRev = state.pcRev := isGone ▸ rfl
  have sameCow : gone.gCow = state.gCow := isGone ▸ rfl
  have sameN : gone.gCowN = state.gCowN := isGone ▸ rfl
  have sameUse : gone.inUse = state.inUse := isGone ▸ rfl
  have fewer : (gone.mappings pfn).card + 1 = (state.mappings pfn).card := by
    have here : gone.mappings pfn = (state.mappings pfn).erase mapping :=
      isGone ▸ update_self _ _ _
    rw [here]
    exact Finset.card_erase_add_one mapped
  -- a frame whose counter says that it was mapped once goes back to the allocator
  have freed (final : FrameState) (sound : CacheSound final) (uncached : final.pcRev pfn = 0)
      (few : final.gCow pfn ≤ 1) (sameOthers : ∀ other, other ≠ pfn → SameFrame gone final other)
      (sameMappings : final.mappings = gone.mappings) (sameInUse : final.inUse = gone.inUse)
      (last : (gone.mappings pfn).card = 0) :
      FrameInvariant (pagingFreePhysical phys final) ∧
        Released pfn gone (pagingFreePhysical phys final) := by
    have unmapped : gone.mappings pfn = ∅ := Finset.card_eq_zero.mp last
    rw [pagingFreePhysical_uncached sound (by rw [isFrame]; exact uncached), isFrame]
    refine ⟨freeFrame_invariant sound (fun other different =>
      (othersOk other different).congr (sameOthers other different)) uncached
      (by rw [sameMappings]; exact unmapped) few, sameMappings, .inr ⟨unmapped, ?_⟩⟩
    simp only [sameInUse]
  have stays (final : FrameState) (ok : FrameInvariant final)
      (sameMappings : final.mappings = gone.mappings) (sameInUse : final.inUse = gone.inUse)
      (more : (gone.mappings pfn).card ≠ 0) :
      FrameInvariant final ∧ Released pfn gone final :=
    ⟨ok, sameMappings, .inl ⟨fun empty => more (Finset.card_eq_zero.mpr empty), sameInUse⟩⟩
  have lowered (value : Nat) (ok : FrameOk { gone with gCow := update gone.gCow pfn value } pfn) :
      FrameInvariant { gone with gCow := update gone.gCow pfn value } := by
    refine invariant.atFrame pfn (cache.withFrames _ _ _ _) ok fun other different => ?_
    obtain ⟨rev, cow, n, maps, use⟩ := others other different
    exact ⟨rev, (update_of_ne different _ _).trans cow, n, maps, use⟩
  rw [pagingCowDrop, isFrame]
  by_cases tracked : pfn < gone.gCowN
  · rw [if_pos tracked]
    by_cases isCached : pcIsCached gone pfn = true
    · rw [if_pos isCached]
      have cached := cache.pcIsCached_iff.mp isCached
      have counted := count.cachedCount (sameRev ▸ cached)
      rw [← sameCow] at counted
      by_cases many : gone.gCow pfn > 2
      · rw [if_pos many]
        refine stays _ (lowered _ ?_) rfl rfl (by omega)
        constructor <;> simp only [update_self]
        · exact ⟨fun _ => by omega, fun un => absurd cached un, fun un => absurd cached un⟩
        · exact fun _ => by omega
        · exact fun beyond => by omega
        · exact fun _ => by rw [sameUse]; exact used (by omega)
      · rw [if_neg many]
        refine freed (forgetFrame pfn 0 gone) (forgetFrame_sound cache cached)
          (forgetFrame_pcRev cached) (by simp) (fun other different =>
          forgetFrame_same cached different) forgetFrame_mappings forgetFrame_inUse ?_
        omega
    · rw [if_neg isCached]
      have uncached : gone.pcRev pfn = 0 := not_not.mp fun cached =>
        isCached (cache.pcIsCached_iff.mpr cached)
      have clear : ¬ state.pcRev pfn ≠ 0 := by rw [← sameRev]; exact not_not.mpr uncached
      have single := count.single clear
      have shared := count.shared clear
      rw [← sameCow] at single shared
      by_cases many : gone.gCow pfn ≥ 2
      · rw [if_pos many]
        refine stays _ (lowered _ ?_) rfl rfl (by omega)
        constructor <;> simp only [update_self]
        · exact ⟨fun cached => absurd uncached cached, fun _ _ => by omega, fun _ _ => by omega⟩
        · exact fun cached => absurd uncached cached
        · exact fun beyond => by omega
        · exact fun _ => by rw [sameUse]; exact used (by omega)
      · rw [if_neg many]
        refine freed _ (cache.withFrames (update gone.gCow pfn 0) gone.pcFiles gone.inUse
          gone.mappings) uncached (by simp) (fun other different => ?_) rfl rfl (by omega)
        exact ⟨rfl, update_of_ne different _ _, rfl, rfl, rfl⟩
  · rw [if_neg tracked]
    have uncached : gone.pcRev pfn = 0 := by
      by_contra cached
      obtain ⟨_, _, chains⟩ := cache
      exact tracked (chains.tracked pfn cached)
    have alone := untracked (by omega)
    have few := count.single (by rw [← sameRev]; exact not_not.mpr uncached) alone
    exact freed gone cache uncached (by rw [sameCow]; exact few)
      (fun other _ => ⟨rfl, rfl, rfl, rfl, rfl⟩) rfl rfl (by omega)

theorem FrameInvariant.unused (invariant : FrameInvariant state)
    (free : state.inUse frame = false) :
    state.mappings frame = ∅ ∧ state.pcRev frame = 0 ∧ state.gCow frame ≤ 1 := by
  obtain ⟨count, cachedMapped, _, used⟩ := invariant.frames frame
  have unmapped : (state.mappings frame).card = 0 := by
    by_contra some
    have := used (Nat.pos_of_ne_zero some)
    rw [free] at this
    contradiction
  have uncached : state.pcRev frame = 0 := by
    omega
  exact ⟨Finset.card_eq_zero.mp unmapped, uncached,
    count.single (not_not.mpr uncached) (by omega)⟩

theorem alloc_invariant (invariant : FrameInvariant state) :
    FrameInvariant (frameStep totalMemory state (.alloc frame)) := by
  obtain ⟨count, cachedMapped, untracked, _⟩ := invariant.frames frame
  refine invariant.atFrame frame (invariant.cache.withFrames _ _ _ _)
    ⟨count, cachedMapped, untracked, fun _ => update_self _ _ _⟩ fun other different => ?_
  exact ⟨rfl, rfl, rfl, rfl, update_of_ne different _ _⟩

theorem mapFrame_invariant (invariant : FrameInvariant state) (inUse : state.inUse frame = true)
    (unmapped : state.mappings frame = ∅) :
    FrameInvariant (frameStep totalMemory state (.mapFrame frame mapping)) := by
  rw [frameStep, addMapping]
  obtain ⟨count, cachedMapped, untracked, _⟩ := invariant.frames frame
  rw [unmapped] at count cachedMapped
  have uncached : ¬ state.pcRev frame ≠ 0 := fun cached =>
    absurd (cachedMapped cached) (Nat.lt_irrefl 0)
  refine invariant.atFrame frame (invariant.cache.withFrames _ _ _ _) ?_ fun other different =>
    ⟨rfl, rfl, rfl, update_of_ne different _ _, rfl⟩
  have once : (insert mapping (state.mappings frame)).card = 1 := by
    rw [unmapped]
    rfl
  constructor <;> simp only [update_self, once]
  · exact ⟨fun wrong => absurd wrong uncached, fun _ _ => count.single uncached (Nat.zero_le 1),
      fun _ many => by omega⟩
  · exact fun wrong => absurd wrong uncached
  · exact fun _ => Nat.le_refl 1
  · exact fun _ => inUse

theorem pagingCowBreak_copies {np : Nat} {rewritten : Bool} (different : np ≠ phys / 4096)
    (some : phys / 4096 ≠ 0) (cache : CacheSound state)
    (shared : phys / 4096 < state.gCowN ∧ state.gCow (phys / 4096) ≥ 2) :
    (pagingCowBreak mapping phys false (.some np) true rewritten state).2 =
      frameStep totalMemory (frameStep totalMemory (frameStep totalMemory state (.alloc np))
        (.mapFrame np mapping)) (.drop phys mapping) := by
  obtain ⟨pfn, isFrame⟩ : ∃ pfn, phys / 4096 = pfn := ⟨_, rfl⟩
  rw [pagingCowBreak]
  rw [isFrame] at different some shared
  simp only [frameStep, isFrame]
  rw [if_neg some]
  simp only [Bool.false_eq_true, if_false, if_pos shared, if_true]
  obtain ⟨used, isUsed⟩ : ∃ used,
      { state with inUse := update state.inUse np true } = used := ⟨_, rfl⟩
  have usedShared : pfn < used.gCowN ∧ used.gCow pfn ≥ 2 := isUsed ▸ shared
  have usedCache : CacheSound used := isUsed ▸ cache.withFrames _ _ _ _
  rw [isUsed]
  have swapped : removeMapping pfn mapping (addMapping np mapping used) =
      addMapping np mapping (removeMapping pfn mapping used) := by
    simp only [removeMapping, addMapping, Function.update_of_ne different,
      Function.update_of_ne (Ne.symm different)]
    rw [Function.update_comm different]
  rw [swapped]
  obtain ⟨moved, isMoved⟩ : ∃ moved,
      addMapping np mapping (removeMapping pfn mapping used) = moved := ⟨_, rfl⟩
  have movedShared : pfn < moved.gCowN ∧ moved.gCow pfn ≥ 2 := isMoved ▸ usedShared
  have movedCache : CacheSound moved := isMoved ▸ usedCache.withFrames _ _ _ _
  rw [isMoved, pagingCowDrop, isFrame]
  have sameCached (counts : Nat → Nat) :
      pcIsCached { moved with gCow := counts } pfn = pcIsCached moved pfn := rfl
  simp only [sameCached, update_self, if_pos movedShared.1]
  by_cases isCached : pcIsCached moved pfn = true
  · by_cases last : moved.gCow pfn - 1 ≤ 1
    · have two : ¬ moved.gCow pfn > 2 := by omega
      simp only [isCached, last, two, and_self, if_true, if_false, Function.update_idem]
      have cached := movedCache.pcIsCached_iff.mp isCached
      simp only [pcUnlink, if_neg cached]
    · have three : moved.gCow pfn > 2 := by omega
      simp only [isCached, last, three, and_false, if_true, if_false]
  · have two : moved.gCow pfn ≥ 2 := movedShared.2
    simp only [isCached, two, Bool.false_eq_true, false_and, if_true, if_false]

end Cos.Paging
