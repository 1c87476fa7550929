import Mathlib.Data.Finset.Card
import Cos.Lib.Chain
import Mathlib.Algebra.Group.Nat.Defs

/-! # The cache of file pages

The frames of read-only file mappings are found again by path hash, file size and
page number.  The entries live in one array; `next` threads them into hash buckets
or into the free list, and `pc_rev` leads from a frame to its entry.
-/

namespace Cos.Paging

open Cos.Lib
open Function (update update_of_ne update_self)

/-- `pc_ent_t`, without its link. -/
structure PcEnt where
  fh : BitVec 64
  fsz : BitVec 64
  phys : Nat
  pg : BitVec 32
deriving DecidableEq, Repr

def PcEnt.zero : PcEnt := ⟨0, 0, 0, 0⟩

structure Mapping where
  space : Nat
  page : Nat
deriving DecidableEq, Repr

/-- The frame counters (`g_cow`, by frame number) and the page cache.  A table that has
not been allocated yet is all zero, and `gCowN` is 0 until `g_cow` is allocated.
`inUse` stands for the frame allocator and `mappings` is ghost state: the page tables'
mappings of each frame. -/
structure FrameState where
  gCow : Nat → Nat
  gCowN : Nat
  pcReady : Bool
  pcDead : Bool
  pcHead : Nat → Nat
  pcNext : Nat → Nat
  pcEnt : Nat → PcEnt
  pcRev : Nat → Nat
  pcUsed : Nat
  pcFreelist : Nat
  pcFiles : List (BitVec 64)
  inUse : Nat → Bool
  mappings : Nat → Finset Mapping

def pcMax : Nat := 262144

def pcFilesCap : Nat := 256

def pcBucket (fh fsz : BitVec 64) (pg : BitVec 32) : Nat :=
  let h := fh ^^^ (fsz * 0x9E3779B97F4A7C15#64) ^^^ (pg.setWidth 64 * 0xC2B2AE3D27D4EB4F#64)
  let h := h ^^^ (h >>> 29)
  let h := h * 0xBF58476D1CE4E5B9#64
  let h := h ^^^ (h >>> 32)
  h.toNat % 65536

def PcEnt.bucket (ent : PcEnt) : Nat := pcBucket ent.fh ent.fsz ent.pg

def PcEnt.frame (ent : PcEnt) : Nat := ent.phys / 4096

/-- `cow_ready`; `memory` is the outcome of its `kmalloc`. -/
def cowReady (totalMemory : Nat) (memory : Bool) (state : FrameState) : Bool × FrameState :=
  if state.gCowN ≠ 0 then (true, state)
  else if memory then
    (true, { state with gCow := fun _ => 0, gCowN := (totalMemory + 2 ^ 31) / 4096 })
  else (false, state)

/-- `pc_init`; `tables` says whether its three `kmalloc` calls all succeed. -/
def pcInit (totalMemory : Nat) (memory tables : Bool) (state : FrameState) : Bool × FrameState :=
  if state.pcReady then (true, state)
  else if state.pcDead then (false, state)
  else match cowReady totalMemory memory state with
  | (false, state) => (false, state)
  | (true, state) =>
      if tables then
        (true, { state with
          pcReady := true
          pcHead := fun _ => 0
          pcNext := fun _ => 0
          pcEnt := fun _ => .zero
          pcRev := fun _ => 0 })
      else (false, { state with pcDead := true })

def pcIsCached (state : FrameState) (pfn : Nat) : Bool :=
  state.pcReady && decide (pfn < state.gCowN) && decide (state.pcRev pfn ≠ 0)

/-- `pc_unlink`: takes the frame's entry out of the table; the caller fixes the count. -/
def pcUnlink (pfn : Nat) (state : FrameState) : FrameState :=
  let idx := state.pcRev pfn
  if idx = 0 then state
  else
    let bucket := (state.pcEnt idx).bucket
    let (head, next) := chainUnlink pcMax idx (state.pcHead bucket) state.pcNext
    { state with
      pcHead := update state.pcHead bucket head
      pcRev := update state.pcRev pfn 0
      pcEnt := update state.pcEnt idx .zero
      pcNext := update next idx state.pcFreelist
      pcFreelist := idx }

def pcFind (state : FrameState) (fh fsz : BitVec 64) (pg : BitVec 32) : Nat :=
  chainFind state.pcNext
    (fun i => (state.pcEnt i).fh == fh && (state.pcEnt i).fsz == fsz && (state.pcEnt i).pg == pg)
    pcMax (state.pcHead (pcBucket fh fsz pg))

/-- The entry `paging_pcache_put` would use: a freed one or one never used, 0 if none. -/
def pcSlot (state : FrameState) : Nat :=
  if state.pcFreelist ≠ 0 then state.pcFreelist
  else if state.pcUsed < pcMax then state.pcUsed + 1 else 0

/-- The stores of `paging_pcache_put` that enter a page into the table. -/
def pcStore (ent : PcEnt) (state : FrameState) : FrameState :=
  let idx := pcSlot state
  { state with
    pcFreelist := if state.pcFreelist ≠ 0 then state.pcNext idx else state.pcFreelist
    pcUsed := if state.pcFreelist ≠ 0 then state.pcUsed else state.pcUsed + 1
    pcEnt := update state.pcEnt idx ent
    pcNext := update state.pcNext idx (state.pcHead ent.bucket)
    pcHead := update state.pcHead ent.bucket idx
    pcRev := update state.pcRev ent.frame idx }

/-- Entry `idx` holds a page. -/
def Stored (state : FrameState) (idx : Nat) : Prop :=
  idx ≠ 0 ∧ idx ≤ state.pcUsed ∧ (state.pcEnt idx).phys ≠ 0

/-- The buckets and the free list are chains; a bucket holds the stored entries with its
hash, the free list only entries that are not stored, and `pc_rev` inverts `frame`. -/
structure CacheChains (state : FrameState) (buckets : Nat → List Nat) (spare : List Nat) :
    Prop where
  bucketChain : ∀ bucket, Chain state.pcNext (state.pcHead bucket) (buckets bucket)
  bucketDistinct : ∀ bucket, (buckets bucket).Nodup
  bucketMember : ∀ bucket idx,
    idx ∈ buckets bucket ↔ Stored state idx ∧ (state.pcEnt idx).bucket = bucket
  spareChain : Chain state.pcNext state.pcFreelist spare
  spareDistinct : spare.Nodup
  spareMember : ∀ idx ∈ spare, idx ≤ state.pcUsed ∧ (state.pcEnt idx).phys = 0
  reverse : ∀ pfn idx, idx ≠ 0 →
    (state.pcRev pfn = idx ↔ Stored state idx ∧ (state.pcEnt idx).frame = pfn)
  tracked : ∀ pfn, state.pcRev pfn ≠ 0 → pfn < state.gCowN
  capacity : state.pcUsed ≤ pcMax
  unallocated : state.pcReady = false → state.pcUsed = 0

def CacheSound (state : FrameState) : Prop := ∃ buckets spare, CacheChains state buckets spare

variable {state : FrameState} {buckets : Nat → List Nat} {spare : List Nat} {pfn idx : Nat}

theorem CacheChains.bucket_length (chains : CacheChains state buckets spare) (bucket : Nat) :
    (buckets bucket).length ≤ pcMax := by
  have bounded : (buckets bucket).length ≤ state.pcUsed := by
    apply length_le_of_nodup_bounded (chains.bucketDistinct bucket)
    intro cell member
    obtain ⟨⟨nonzero, used, _⟩, _⟩ := (chains.bucketMember bucket cell).mp member
    exact ⟨nonzero, used⟩
  exact Nat.le_trans bounded chains.capacity

theorem CacheSound.reverse (sound : CacheSound state) (cached : state.pcRev pfn ≠ 0) :
    Stored state (state.pcRev pfn) ∧ (state.pcEnt (state.pcRev pfn)).frame = pfn := by
  obtain ⟨buckets, spare, chains⟩ := sound
  exact (chains.reverse pfn _ cached).mp rfl

theorem CacheSound.pcRev_frame (sound : CacheSound state) (stored : Stored state idx) :
    state.pcRev (state.pcEnt idx).frame = idx := by
  obtain ⟨buckets, spare, chains⟩ := sound
  exact (chains.reverse _ idx stored.1).mpr ⟨stored, rfl⟩

theorem CacheSound.pcIsCached_iff (sound : CacheSound state) :
    pcIsCached state pfn = true ↔ state.pcRev pfn ≠ 0 := by
  obtain ⟨buckets, spare, chains⟩ := sound
  unfold pcIsCached
  cases ready : state.pcReady with
  | true =>
      simp only [Bool.true_and, Bool.and_eq_true, decide_eq_true_eq]
      exact ⟨fun both => both.2, fun cached => ⟨chains.tracked pfn cached, cached⟩⟩
  | false =>
      simp only [Bool.false_and, Bool.false_eq_true, false_iff, not_not]
      by_contra cached
      obtain ⟨⟨nonzero, used, _⟩, _⟩ := (chains.reverse pfn _ cached).mp rfl
      have empty := chains.unallocated ready
      omega

theorem stored_pcUnlink (cached : state.pcRev pfn ≠ 0) :
    Stored (pcUnlink pfn state) idx ↔ idx ≠ state.pcRev pfn ∧ Stored state idx := by
  rw [pcUnlink, if_neg cached]
  by_cases same : idx = state.pcRev pfn
  · subst same
    simp [Stored, PcEnt.zero]
  · simp [Stored, same]

theorem pcUnlink_pcRev (cached : state.pcRev pfn ≠ 0) :
    (pcUnlink pfn state).pcRev = update state.pcRev pfn 0 := by
  rw [pcUnlink, if_neg cached]

theorem pcUnlink_pcEnt (cached : state.pcRev pfn ≠ 0) (other : idx ≠ state.pcRev pfn) :
    (pcUnlink pfn state).pcEnt idx = state.pcEnt idx := by
  rw [pcUnlink, if_neg cached]
  exact Function.update_of_ne other _ _

theorem pcUnlink_frame (pfn : Nat) (state : FrameState) :
    pcUnlink pfn state = { state with
      pcHead := (pcUnlink pfn state).pcHead
      pcNext := (pcUnlink pfn state).pcNext
      pcEnt := (pcUnlink pfn state).pcEnt
      pcRev := (pcUnlink pfn state).pcRev
      pcFreelist := (pcUnlink pfn state).pcFreelist } := by
  by_cases absent : state.pcRev pfn = 0
  · rw [pcUnlink, if_pos absent]
  · rw [pcUnlink, if_neg absent]

@[simp] theorem pcUnlink_gCowN : (pcUnlink pfn state).gCowN = state.gCowN := by
  rw [pcUnlink_frame]

@[simp] theorem pcUnlink_pcReady : (pcUnlink pfn state).pcReady = state.pcReady := by
  rw [pcUnlink_frame]

@[simp] theorem pcUnlink_pcUsed : (pcUnlink pfn state).pcUsed = state.pcUsed := by
  rw [pcUnlink_frame]

@[simp] theorem pcUnlink_inUse : (pcUnlink pfn state).inUse = state.inUse := by
  rw [pcUnlink_frame]

@[simp] theorem pcUnlink_mappings : (pcUnlink pfn state).mappings = state.mappings := by
  rw [pcUnlink_frame]

theorem CacheChains.unlink (chains : CacheChains state buckets spare)
    (cached : state.pcRev pfn ≠ 0) :
    CacheChains (pcUnlink pfn state)
      (update buckets (state.pcEnt (state.pcRev pfn)).bucket
        ((buckets (state.pcEnt (state.pcRev pfn)).bucket).erase (state.pcRev pfn)))
      (state.pcRev pfn :: spare) := by
  obtain ⟨stored, ofFrame⟩ := (chains.reverse pfn _ cached).mp rfl
  obtain ⟨gone, isGone⟩ : ∃ gone, state.pcRev pfn = gone := ⟨_, rfl⟩
  obtain ⟨home, isHome⟩ : ∃ home, (state.pcEnt gone).bucket = home := ⟨_, rfl⟩
  rw [isGone] at stored ofFrame cached
  have inHome : gone ∈ buckets home := (chains.bucketMember home gone).mpr ⟨stored, isHome⟩
  have notSpare : gone ∉ spare := fun inside => stored.2.2 (chains.spareMember gone inside).2
  obtain ⟨unlinked, kept⟩ := chainUnlink_spec (chains.bucketChain home)
    (chains.bucketDistinct home) inHome (chains.bucket_length home)
  have erased : gone ∉ (buckets home).erase gone := (chains.bucketDistinct home).not_mem_erase
  have storedAfter : ∀ other, Stored (pcUnlink pfn state) other ↔
    other ≠ gone ∧ Stored state other := by
    intro other
    rw [stored_pcUnlink (by rwa [isGone]), isGone]
  have sameEnt : ∀ other, other ≠ gone → (pcUnlink pfn state).pcEnt other = state.pcEnt other := by
    intro other different
    exact pcUnlink_pcEnt (by rwa [isGone]) (by rwa [isGone])
  have after : pcUnlink pfn state = { state with
      pcHead := update state.pcHead home
        (chainUnlink pcMax gone (state.pcHead home) state.pcNext).1
      pcRev := update state.pcRev pfn 0
      pcEnt := update state.pcEnt gone .zero
      pcNext := update (chainUnlink pcMax gone (state.pcHead home) state.pcNext).2 gone
        state.pcFreelist
      pcFreelist := gone } := by
    rw [pcUnlink, isGone, if_neg cached, isHome]
  rw [isGone, isHome]
  refine ⟨?_, ?_, ?_, ?_, ?_, ?_, ?_, ?_, ?_, ?_⟩
  · intro bucket
    rw [after]
    by_cases same : bucket = home
    · subst same
      simp only [update_self]
      exact unlinked.update erased
    · simp only [update_of_ne same]
      have elsewhere : ∀ cell ∈ buckets bucket, cell ∉ buckets home := by
        intro cell here there
        have hash := ((chains.bucketMember bucket cell).mp here).2
        rw [((chains.bucketMember home cell).mp there).2] at hash
        exact same hash.symm
      exact ((chains.bucketChain bucket).frame fun cell member =>
        kept cell (elsewhere cell member)).update fun inside => elsewhere gone inside inHome
  · intro bucket
    by_cases same : bucket = home
    · subst same
      rw [Function.update_self]
      exact (chains.bucketDistinct bucket).erase gone
    · rw [Function.update_of_ne same]
      exact chains.bucketDistinct bucket
  · intro bucket other
    rw [storedAfter]
    by_cases same : bucket = home
    · subst same
      rw [update_self, (chains.bucketDistinct bucket).mem_erase_iff, chains.bucketMember]
      constructor
      · intro ⟨different, inside, hash⟩
        exact ⟨⟨different, inside⟩, by rw [sameEnt other different]; exact hash⟩
      · intro ⟨⟨different, inside⟩, hash⟩
        rw [sameEnt other different] at hash
        exact ⟨different, inside, hash⟩
    · rw [update_of_ne same, chains.bucketMember]
      constructor
      · intro ⟨inside, hash⟩
        have different : other ≠ gone := by
          rintro rfl
          exact same (hash.symm.trans isHome)
        exact ⟨⟨different, inside⟩, by rw [sameEnt other different]; exact hash⟩
      · intro ⟨⟨different, inside⟩, hash⟩
        rw [sameEnt other different] at hash
        exact ⟨inside, hash⟩
  · rw [after]
    refine Chain.push (chains.spareChain.frame fun cell member => kept cell fun inside => ?_)
      cached notSpare
    exact ((chains.bucketMember home cell).mp inside).1.2.2 (chains.spareMember cell member).2
  · exact List.nodup_cons.mpr ⟨notSpare, chains.spareDistinct⟩
  · intro other member
    rw [pcUnlink_pcUsed]
    rcases List.mem_cons.mp member with rfl | member
    · refine ⟨stored.2.1, ?_⟩
      rw [after]
      simp only [update_self]
      rfl
    · have different : other ≠ gone := fun same => notSpare (same ▸ member)
      rw [sameEnt other different]
      exact chains.spareMember other member
  · intro frame other nonzero
    rw [storedAfter, pcUnlink_pcRev (by rwa [isGone])]
    by_cases same : frame = pfn
    · subst same
      rw [update_self]
      constructor
      · intro zero
        exact absurd zero.symm nonzero
      · intro ⟨⟨different, inside⟩, ofOther⟩
        rw [sameEnt other different] at ofOther
        have := (chains.reverse frame other nonzero).mpr ⟨inside, ofOther⟩
        exact absurd (this.symm.trans isGone) different
    · rw [update_of_ne same, chains.reverse frame other nonzero]
      constructor
      · intro ⟨inside, ofOther⟩
        have different : other ≠ gone := by
          rintro rfl
          exact same (ofOther.symm.trans ofFrame)
        exact ⟨⟨different, inside⟩, by rw [sameEnt other different]; exact ofOther⟩
      · intro ⟨⟨different, inside⟩, ofOther⟩
        rw [sameEnt other different] at ofOther
        exact ⟨inside, ofOther⟩
  · intro frame still
    rw [pcUnlink_gCowN]
    rw [pcUnlink_pcRev (by rwa [isGone])] at still
    by_cases same : frame = pfn
    · subst same
      rw [update_self] at still
      exact absurd rfl still
    · rw [Function.update_of_ne same] at still
      exact chains.tracked frame still
  · rw [pcUnlink_pcUsed]
    exact chains.capacity
  · rw [pcUnlink_pcReady, pcUnlink_pcUsed]
    exact chains.unallocated

theorem CacheSound.unlink (sound : CacheSound state) (cached : state.pcRev pfn ≠ 0) :
    CacheSound (pcUnlink pfn state) := by
  obtain ⟨buckets, spare, chains⟩ := sound
  exact ⟨_, _, chains.unlink cached⟩

theorem CacheChains.takeSlot (chains : CacheChains state buckets spare)
    (slot : pcSlot state ≠ 0) :
    ∃ rest, Chain state.pcNext
          (if state.pcFreelist ≠ 0 then state.pcNext (pcSlot state) else state.pcFreelist) rest ∧
      (pcSlot state :: rest).Nodup ∧ (∀ cell ∈ rest, cell ∈ spare) ∧
      ¬ Stored state (pcSlot state) ∧
      pcSlot state ≤ (if state.pcFreelist ≠ 0 then state.pcUsed else state.pcUsed + 1) ∧
      (if state.pcFreelist ≠ 0 then state.pcUsed else state.pcUsed + 1) ≤ pcMax ∧
      ∀ cell, cell ≠ pcSlot state →
        (cell ≤ (if state.pcFreelist ≠ 0 then state.pcUsed else state.pcUsed + 1) ↔
          cell ≤ state.pcUsed) := by
  by_cases freed : state.pcFreelist ≠ 0
  · obtain ⟨rest, rfl, tail⟩ := chains.spareChain.pop freed
    have head := chains.spareMember state.pcFreelist (by simp)
    simp only [pcSlot, if_pos freed]
    exact ⟨rest, tail, chains.spareDistinct, fun cell member => by simp [member],
      fun stored => stored.2.2 head.2, head.1, chains.capacity, fun _ _ => trivial⟩
  · rw [pcSlot, if_neg freed] at slot
    have room : state.pcUsed < pcMax := by
      by_contra full
      rw [if_neg full] at slot
      exact slot rfl
    simp only [pcSlot, if_neg freed, if_pos room]
    refine ⟨spare, chains.spareChain, List.nodup_cons.mpr ⟨?_, chains.spareDistinct⟩,
      fun _ member => member, ?_, Nat.le_refl _, room, fun cell different => by omega⟩
    · intro inside
      exact absurd (chains.spareMember _ inside).1 (by omega)
    · intro stored
      exact absurd stored.2.1 (by omega)

theorem stored_pcStore {ent : PcEnt} (chains : CacheChains state buckets spare)
    (slot : pcSlot state ≠ 0) (page : ent.phys ≠ 0) (idx : Nat) :
    Stored (pcStore ent state) idx ↔ idx = pcSlot state ∨ Stored state idx := by
  obtain ⟨_, _, _, _, _, inside, _, grown⟩ := chains.takeSlot slot
  by_cases same : idx = pcSlot state
  · subst same
    simp only [Stored, pcStore, Function.update_self, true_or, iff_true]
    exact ⟨slot, inside, page⟩
  · simp only [Stored, pcStore, Function.update_of_ne same, same, false_or]
    rw [grown idx same]

theorem CacheChains.store {ent : PcEnt} (chains : CacheChains state buckets spare)
    (slot : pcSlot state ≠ 0) (page : ent.phys ≠ 0) (uncached : state.pcRev ent.frame = 0)
    (tracked : ent.frame < state.gCowN) (ready : state.pcReady = true) :
    CacheSound (pcStore ent state) := by
  obtain ⟨rest, restChain, distinct, fromSpare, fresh, inside, capacity, grown⟩ :=
    chains.takeSlot slot
  obtain ⟨slotAbsent, restDistinct⟩ := List.nodup_cons.mp distinct
  have storedAfter := stored_pcStore chains slot page
  have sameEnt : ∀ other, other ≠ pcSlot state →
      (pcStore ent state).pcEnt other = state.pcEnt other :=
    fun other different => update_of_ne different _ _
  have newEnt : (pcStore ent state).pcEnt (pcSlot state) = ent := update_self _ _ _
  have notBucket : ∀ bucket, pcSlot state ∉ buckets bucket := fun bucket member =>
    fresh ((chains.bucketMember bucket _).mp member).1
  have storedNe : ∀ other, Stored state other → other ≠ pcSlot state := by
    rintro other stored rfl
    exact fresh stored
  refine ⟨update buckets ent.bucket (pcSlot state :: buckets ent.bucket), rest,
    ?_, ?_, ?_, ?_, restDistinct, ?_, ?_, ?_, capacity, ?_⟩
  · intro bucket
    by_cases same : bucket = ent.bucket
    · subst same
      simp only [pcStore, update_self]
      exact (chains.bucketChain ent.bucket).push slot (notBucket _)
    · simp only [pcStore, update_of_ne same]
      exact (chains.bucketChain bucket).update (notBucket bucket)
  · intro bucket
    by_cases same : bucket = ent.bucket
    · subst same
      rw [Function.update_self]
      exact List.nodup_cons.mpr ⟨notBucket _, chains.bucketDistinct _⟩
    · rw [Function.update_of_ne same]
      exact chains.bucketDistinct bucket
  · intro bucket other
    rw [storedAfter]
    by_cases new : other = pcSlot state
    · subst new
      rw [newEnt]
      by_cases same : bucket = ent.bucket
      · subst same
        simp
      · simp [update_of_ne same, notBucket bucket, Ne.symm same]
    · rw [sameEnt other new]
      by_cases same : bucket = ent.bucket
      · subst same
        simp [new, chains.bucketMember]
      · simp [Function.update_of_ne same, new, chains.bucketMember]
  · exact restChain.update slotAbsent
  · intro other member
    have different : other ≠ pcSlot state := fun same => slotAbsent (same ▸ member)
    obtain ⟨used, empty⟩ := chains.spareMember other (fromSpare other member)
    rw [sameEnt other different]
    exact ⟨(grown other different).mpr used, empty⟩
  · intro frame other nonzero
    rw [storedAfter]
    by_cases same : frame = ent.frame
    · subst same
      have here : (pcStore ent state).pcRev ent.frame = pcSlot state := update_self _ _ _
      rw [here]
      constructor
      · rintro rfl
        exact ⟨.inl rfl, by rw [newEnt]⟩
      · rintro ⟨rfl | stored, ofFrame⟩
        · rfl
        · rw [sameEnt other (storedNe other stored)] at ofFrame
          have clash := (chains.reverse _ other nonzero).mpr ⟨stored, ofFrame⟩
          rw [uncached] at clash
          exact absurd clash.symm nonzero
    · have there : (pcStore ent state).pcRev frame = state.pcRev frame :=
        update_of_ne same _ _
      rw [there, chains.reverse frame other nonzero]
      constructor
      · rintro ⟨stored, ofFrame⟩
        exact ⟨.inr stored, by rw [sameEnt other (storedNe other stored)]; exact ofFrame⟩
      · rintro ⟨rfl | stored, ofFrame⟩
        · rw [newEnt] at ofFrame
          exact absurd ofFrame.symm same
        · rw [sameEnt other (storedNe other stored)] at ofFrame
          exact ⟨stored, ofFrame⟩
  · intro frame cached
    by_cases same : frame = ent.frame
    · rw [same]
      exact tracked
    · simp only [pcStore, update_of_ne same] at cached
      exact chains.tracked frame cached
  · intro missing
    exact absurd (ready.symm.trans missing) (by decide)

theorem pcFind_stored {fh fsz : BitVec 64} {pg : BitVec 32} (sound : CacheSound state)
    (found : pcFind state fh fsz pg ≠ 0) : Stored state (pcFind state fh fsz pg) := by
  obtain ⟨buckets, spare, chains⟩ := sound
  obtain ⟨bucket, isBucket⟩ : ∃ bucket, pcBucket fh fsz pg = bucket := ⟨_, rfl⟩
  rw [pcFind, isBucket, chainFind_eq (chains.bucketChain bucket) (chains.bucket_length bucket)]
    at found ⊢
  cases search : (buckets bucket).find? _ with
  | none =>
      rw [search] at found
      exact absurd rfl found
  | some idx => exact ((chains.bucketMember bucket idx).mp (List.mem_of_find?_eq_some search)).1

end Cos.Paging
