import Cos.Lib.Run
import Cos.Paging.FrameCounts

/-! # Runs of the frame counts

Every call keeps the counters in step with the mappings, and a frame goes back to
the allocator exactly when its last mapping goes.
-/

namespace Cos.Paging

open Cos.Lib
open Function (update update_of_ne update_self)

variable {state after : FrameState} {pfn frame phys totalMemory : Nat} {mapping : Mapping}
  {memory tables : Bool}

def HandedBack (before after : FrameState) (pfn : Nat) : Prop :=
  before.inUse pfn = true ∧ after.inUse pfn = false

def LastMappingGone (before after : FrameState) (pfn : Nat) : Prop :=
  before.mappings pfn ≠ ∅ ∧ after.mappings pfn = ∅

def FrameCall.Frees : FrameCall → Nat → Prop
  | .free phys, pfn => phys / 4096 = pfn
  | _, _ => False

structure StepOk (before : FrameState) (call : FrameCall) (after : FrameState) : Prop where
  invariant : FrameInvariant after
  handsBack : ∀ pfn, ¬ call.Frees pfn →
    (HandedBack before after pfn ↔ LastMappingGone before after pfn)

theorem StepOk.grows {before : FrameState} {call : FrameCall} (invariant : FrameInvariant after)
    (inUse : ∀ pfn, before.inUse pfn = true → after.inUse pfn = true)
    (mappings : ∀ pfn, before.mappings pfn ⊆ after.mappings pfn) : StepOk before call after := by
  refine ⟨invariant, fun pfn _ => ⟨?_, ?_⟩⟩
  · intro ⟨was, now⟩
    rw [inUse pfn was] at now
    contradiction
  · intro ⟨was, now⟩
    exact absurd (Finset.subset_empty.mp (now ▸ mappings pfn)) was

theorem addMapping_subset (state : FrameState) (pfn : Nat) :
    state.mappings pfn ⊆ (addMapping frame mapping state).mappings pfn := by
  rw [addMapping]
  by_cases same : pfn = frame
  · subst same
    simp only [Function.update_self]
    exact Finset.subset_insert _ _
  · simp only [Function.update_of_ne same]
    exact Finset.Subset.refl _

theorem drop_step (invariant : FrameInvariant state)
    (mapped : mapping ∈ state.mappings (phys / 4096)) :
    StepOk state (.drop phys mapping) (frameStep totalMemory state (.drop phys mapping)) := by
  obtain ⟨kept, sameMappings, released⟩ :=
    @drop_spec state phys totalMemory mapping invariant mapped
  refine ⟨kept, fun pfn _ => ?_⟩
  rw [HandedBack, LastMappingGone, sameMappings]
  by_cases same : pfn = phys / 4096
  · subst same
    have nonempty : state.mappings (phys / 4096) ≠ ∅ := fun empty => by
      rw [empty] at mapped
      exact absurd mapped (Finset.notMem_empty mapping)
    have was : state.inUse (phys / 4096) = true :=
      (invariant.frames _).used (Finset.card_pos.mpr ⟨mapping, mapped⟩)
    rcases released with ⟨others, useKept⟩ | ⟨last, useCleared⟩
    · rw [useKept]
      exact ⟨fun back => absurd (was.symm.trans back.2) (by decide), fun gone => absurd gone.2 others⟩
    · rw [useCleared, update_self]
      exact ⟨fun _ => ⟨nonempty, last⟩, fun _ => ⟨was, rfl⟩⟩
  · have elsewhere : (removeMapping (phys / 4096) mapping state).mappings pfn = state.mappings pfn :=
      update_of_ne same _ _
    have useSame : (frameStep totalMemory state (.drop phys mapping)).inUse pfn = state.inUse pfn := by
      rcases released with ⟨_, useKept⟩ | ⟨_, useCleared⟩
      · rw [useKept]
        rfl
      · rw [useCleared, update_of_ne same]
        rfl
    rw [elsewhere, useSame]
    exact ⟨fun back => absurd (back.1.symm.trans back.2) (by decide),
      fun gone => absurd gone.2 gone.1⟩

theorem breakCopy_step {copy : Option Nat} {writable remapped rewritten : Bool}
    (invariant : FrameInvariant state) (mapped : mapping ∈ state.mappings (phys / 4096))
    (fresh : ∀ np ∈ copy, state.inUse np = false) :
    StepOk state (.breakCopy phys mapping writable copy remapped rewritten)
      (frameStep totalMemory state (.breakCopy phys mapping writable copy remapped rewritten)) := by
  have unchanged (call : FrameCall) : StepOk state call state :=
    .grows invariant (fun _ used => used) fun _ => Finset.Subset.refl _
  have was : state.inUse (phys / 4096) = true :=
    (invariant.frames _).used (Finset.card_pos.mpr ⟨mapping, mapped⟩)
  rw [frameStep]
  by_cases zero : phys / 4096 = 0
  · rw [pagingCowBreak.eq_def, if_pos zero]
    exact unchanged _
  cases writable with
  | true =>
      rw [pagingCowBreak.eq_def, if_neg zero, if_pos rfl]
      exact unchanged _
  | false =>
      by_cases shared : phys / 4096 < state.gCowN ∧ state.gCow (phys / 4096) ≥ 2
      · cases copy with
        | none =>
            rw [pagingCowBreak, if_neg zero, if_neg (by decide), if_pos shared]
            exact unchanged _
        | some np =>
            have free := fresh np rfl
            obtain ⟨unmapped, uncached, few⟩ := invariant.unused free
            have different : np ≠ phys / 4096 := by
              rintro rfl
              rw [was] at free
              contradiction
            have allocated : FrameInvariant (frameStep totalMemory state (.alloc np)) :=
              alloc_invariant invariant
            cases remapped with
            | true =>
                have copied : FrameInvariant (frameStep totalMemory
                    (frameStep totalMemory state (.alloc np)) (.mapFrame np mapping)) :=
                  mapFrame_invariant allocated (update_self _ _ _) unmapped
                have original : (frameStep totalMemory (frameStep totalMemory state (.alloc np))
                    (.mapFrame np mapping)).mappings (phys / 4096) = state.mappings (phys / 4096) :=
                  update_of_ne (Ne.symm different) _ _
                obtain ⟨kept, handsBack⟩ := @drop_step _ phys totalMemory mapping copied
                  (by rw [original]; exact mapped)
                rw [@pagingCowBreak_copies state phys totalMemory mapping np rewritten different zero
                  invariant.cache shared]
                refine ⟨kept, fun pfn _ => ?_⟩
                by_cases isCopy : pfn = np
                · subst isCopy
                  exact ⟨fun back => absurd (free.symm.trans back.1) (by decide),
                    fun gone => absurd unmapped gone.1⟩
                · have sameUse : (frameStep totalMemory (frameStep totalMemory state (.alloc np))
                      (.mapFrame np mapping)).inUse pfn = state.inUse pfn :=
                    update_of_ne isCopy _ _
                  have sameMappings : (frameStep totalMemory (frameStep totalMemory state (.alloc np))
                      (.mapFrame np mapping)).mappings pfn = state.mappings pfn :=
                    update_of_ne isCopy _ _
                  have step := handsBack pfn id
                  rw [HandedBack, LastMappingGone, sameUse, sameMappings] at step
                  exact step
            | false =>
                -- the frame of the copy goes straight back
                have quotient : np * 4096 / 4096 = np := Nat.mul_div_cancel np (by decide)
                have back : pagingFreePhysical (np * 4096)
                    (frameStep totalMemory state (.alloc np)) = state := by
                  rw [pagingFreePhysical_uncached allocated.cache (by rw [quotient]; exact uncached),
                    quotient, frameStep]
                  simp only [Function.update_idem, ← free, Function.update_eq_self]
                rw [pagingCowBreak, if_neg zero, if_neg (by decide), if_pos shared]
                simp only [Bool.false_eq_true, if_false]
                rw [frameStep] at back
                rw [back]
                exact unchanged _
      · rw [pagingCowBreak.eq_def, if_neg zero, if_neg (by decide), if_neg shared]
        split
        · obtain ⟨count, cachedMapped, untracked, used⟩ := invariant.frames (phys / 4096)
          have uncached : ¬ state.pcRev (phys / 4096) ≠ 0 := fun cached => by
            have := count.cachedCount cached
            omega
          have kept : FrameInvariant
              { state with gCow := update state.gCow (phys / 4096) 0 } := by
            refine invariant.atFrame (phys / 4096) (invariant.cache.withFrames _ _ _ _)
              ⟨?_, cachedMapped, untracked, used⟩ fun other different =>
              ⟨rfl, update_of_ne different _ _, rfl, rfl, rfl⟩
            simp only [update_self]
            have shared := count.shared uncached
            exact ⟨fun wrong => absurd wrong uncached, fun _ _ => Nat.zero_le 1,
              fun _ many => by omega⟩
          exact .grows kept (fun _ used => used) fun _ => Finset.Subset.refl _
        · exact unchanged _

theorem share_grows (pfn : Nat) (invariant : FrameInvariant state) :
    (frameStep totalMemory state (.share phys mapping memory)).inUse = state.inUse ∧
      state.mappings pfn ⊆
        (frameStep totalMemory state (.share phys mapping memory)).mappings pfn := by
  obtain ⟨_, sameMappings, sameUse, _, _⟩ := @cowReady_spec state totalMemory memory invariant
  rw [frameStep, pagingCowShare]
  cases allocated : cowReady totalMemory memory state with
  | mk ok grown =>
      simp only [allocated] at sameMappings sameUse ⊢
      rw [← sameMappings, ← sameUse]
      cases ok with
      | false => exact ⟨rfl, Finset.Subset.refl _⟩
      | true =>
          by_cases counted : phys / 4096 < grown.gCowN ∧ grown.gCow (phys / 4096) < 65000
          · simp only [if_pos counted]
            refine ⟨rfl, ?_⟩
            exact addMapping_subset _ pfn
          · simp only [if_neg counted, true_and]
            exact Finset.Subset.refl _

theorem pagingPcacheGet_frame {fh fsz : BitVec 64} {pg : BitVec 32}
    (invariant : FrameInvariant state) : (pagingPcacheGet totalMemory memory tables fh fsz pg state).2.inUse = state.inUse ∧
      (pagingPcacheGet totalMemory memory tables fh fsz pg state).2.mappings = state.mappings := by
  obtain ⟨_, sameMappings, sameUse, _⟩ := @pcInit_spec state totalMemory memory tables invariant
  rw [pagingPcacheGet]
  cases init : pcInit totalMemory memory tables state with
  | mk ok grown =>
      simp only [init] at sameMappings sameUse
      cases ok with
      | false => exact ⟨sameUse, sameMappings⟩
      | true =>
          simp only
          split
          · exact ⟨sameUse, sameMappings⟩
          · split <;> exact ⟨sameUse, sameMappings⟩

theorem get_grows {fh fsz : BitVec 64} {pg : BitVec 32} (pfn : Nat)
    (invariant : FrameInvariant state) : (frameStep totalMemory state (.get fh fsz pg mapping memory tables)).inUse = state.inUse ∧
      state.mappings pfn ⊆
        (frameStep totalMemory state (.get fh fsz pg mapping memory tables)).mappings pfn := by
  obtain ⟨sameUse, sameMappings⟩ :=
    @pagingPcacheGet_frame state totalMemory memory tables fh fsz pg invariant
  rw [frameStep]
  cases found : pagingPcacheGet totalMemory memory tables fh fsz pg state with
  | mk frameAddr final =>
      simp only [found] at sameUse sameMappings
      rw [← sameMappings, ← sameUse]
      split
      · rename_i same
        obtain ⟨_, rfl⟩ := Prod.mk.inj same
        exact ⟨rfl, Finset.Subset.refl _⟩
      · rename_i same
        obtain ⟨rfl, rfl⟩ := Prod.mk.inj same
        refine ⟨rfl, ?_⟩
        exact addMapping_subset _ pfn

theorem put_frame {fh fsz : BitVec 64} {pg : BitVec 32} (invariant : FrameInvariant state) :
    (frameStep totalMemory state (.put fh fsz pg phys memory tables)).inUse = state.inUse ∧
      (frameStep totalMemory state (.put fh fsz pg phys memory tables)).mappings =
        state.mappings := by
  obtain ⟨_, sameMappings, sameUse, _⟩ := @pcInit_spec state totalMemory memory tables invariant
  rw [frameStep, pagingPcachePut]
  cases init : pcInit totalMemory memory tables state with
  | mk ok grown =>
      simp only [init] at sameMappings sameUse
      cases ok with
      | false => exact ⟨sameUse, sameMappings⟩
      | true =>
          simp only
          split
          · obtain ⟨files, isFiles⟩ : ∃ files, (if fh ∉ grown.pcFiles ∧
              grown.pcFiles.length < pcFilesCap then grown.pcFiles ++ [fh] else grown.pcFiles) =
              files := ⟨_, rfl⟩
            rw [isFiles]
            split <;> exact ⟨sameUse, sameMappings⟩
          · exact ⟨sameUse, sameMappings⟩

theorem free_step (invariant : FrameInvariant state) (unmapped : state.mappings (phys / 4096) = ∅) :
    StepOk state (.free phys) (frameStep totalMemory state (.free phys)) := by
  obtain ⟨count, cachedMapped, _, _⟩ := invariant.frames (phys / 4096)
  rw [unmapped] at count cachedMapped
  have uncached : state.pcRev (phys / 4096) = 0 := not_not.mp fun cached =>
    absurd (cachedMapped cached) (Nat.lt_irrefl 0)
  have few := count.single (not_not.mpr uncached) (Nat.zero_le 1)
  rw [frameStep, pagingFreePhysical_uncached invariant.cache uncached]
  refine ⟨freeFrame_invariant invariant.cache (fun other _ => invariant.frames other) uncached
    unmapped few, fun pfn other => ?_⟩
  have different : pfn ≠ phys / 4096 := fun same => other same.symm
  rw [HandedBack, LastMappingGone]
  simp only [Function.update_of_ne different]
  exact ⟨fun back => absurd (back.1.symm.trans back.2) (by decide),
    fun gone => absurd gone.2 gone.1⟩

theorem frameStep_ok (call : FrameCall) (invariant : FrameInvariant state)
    (allowed : call.Allowed state) : StepOk state call (frameStep totalMemory state call) := by
  cases call with
  | alloc frame =>
      refine .grows (alloc_invariant invariant) (fun pfn used => ?_) fun _ => Finset.Subset.refl _
      change update state.inUse frame true pfn = true
      by_cases same : pfn = frame
      · rw [same, update_self]
      · rw [update_of_ne same]
        exact used
  | mapFrame frame mapping =>
      exact .grows (mapFrame_invariant invariant allowed.1 allowed.2) (fun _ used => used)
        fun pfn => addMapping_subset state pfn
  | share phys mapping memory =>
      refine .grows (share_invariant invariant allowed) (fun pfn used => ?_) fun pfn =>
        (share_grows pfn invariant).2
      rw [(share_grows pfn invariant).1]
      exact used
  | drop phys mapping => exact drop_step invariant allowed
  | breakCopy phys mapping writable copy remapped rewritten =>
      exact breakCopy_step invariant allowed.1 allowed.2
  | put fh fsz pg phys memory tables =>
      obtain ⟨sameUse, sameMappings⟩ :=
        @put_frame state phys totalMemory memory tables fh fsz pg invariant
      refine .grows (put_invariant invariant allowed) (fun pfn used => ?_) fun pfn => ?_
      · rw [sameUse]
        exact used
      · rw [sameMappings]
  | get fh fsz pg mapping memory tables =>
      refine .grows (get_invariant invariant allowed) (fun pfn used => ?_) fun pfn =>
        (get_grows pfn invariant).2
      rw [(get_grows pfn invariant).1]
      exact used
  | invalidate fh =>
      obtain ⟨kept, sameMappings, sameUse⟩ := @invalidate_spec state fh invariant
      refine .grows kept (fun pfn used => ?_) fun pfn => ?_
      · rw [frameStep, sameUse]
        exact used
      · rw [frameStep, sameMappings]
  | free phys => exact free_step invariant allowed

/-- Nothing is mapped, counted or cached yet; `used` frames have been handed out. -/
def frameBoot (used : Nat → Bool) : FrameState where
  gCow := fun _ => 0
  gCowN := 0
  pcReady := false
  pcDead := false
  pcHead := fun _ => 0
  pcNext := fun _ => 0
  pcEnt := fun _ => .zero
  pcRev := fun _ => 0
  pcUsed := 0
  pcFreelist := 0
  pcFiles := []
  inUse := used
  mappings := fun _ => ∅

theorem frameBoot_invariant (used : Nat → Bool) : FrameInvariant (frameBoot used) := by
  refine ⟨⟨fun _ => [], [], fun _ => rfl, fun _ => List.nodup_nil, fun bucket idx => ?_, rfl,
    List.nodup_nil, fun _ member => by contradiction, fun pfn idx nonzero => ?_,
    fun pfn cached => absurd rfl cached, Nat.zero_le _, fun _ => rfl⟩, fun pfn => ?_⟩
  · simp [Stored, frameBoot, PcEnt.zero]
  · simp [Stored, frameBoot, PcEnt.zero, Ne.symm nonzero]
  · exact ⟨⟨fun wrong => absurd rfl wrong, fun _ _ => Nat.zero_le 1, fun _ many => by contradiction⟩,
      fun wrong => absurd rfl wrong, fun _ => Nat.zero_le 1, fun wrong => absurd wrong (Nat.lt_irrefl 0)⟩

/-- In every state a run reaches, the counters fit the mappings and the cache refers to
frames in use only; and every further call hands a frame back exactly when its last
mapping goes (or when it frees an unmapped frame), never while a mapping remains. -/
theorem frameCounts_reachable {used : Nat → Bool}
    (reached : Reaches (frameStep totalMemory) FrameCall.Allowed (frameBoot used) state) :
    (∀ pfn, CountOk (pcIsCached state pfn = true) (state.gCow pfn) (state.mappings pfn).card) ∧
      (∀ idx, Stored state idx → state.inUse (state.pcEnt idx).frame = true) ∧
      ∀ call, call.Allowed state → ∀ pfn,
        (¬ call.Frees pfn → (HandedBack state (frameStep totalMemory state call) pfn ↔
          LastMappingGone state (frameStep totalMemory state call) pfn)) ∧
        (HandedBack state (frameStep totalMemory state call) pfn →
          (frameStep totalMemory state call).mappings pfn = ∅) := by
  have invariant : FrameInvariant state := reached.invariant (frameBoot_invariant used)
    fun _ call kept allowed => (frameStep_ok call kept allowed).invariant
  refine ⟨fun pfn => ?_, fun idx stored => ?_, fun call allowed pfn => ?_⟩
  · rw [invariant.cache.pcIsCached_iff]
    exact (invariant.frames pfn).count
  · have cached : state.pcRev (state.pcEnt idx).frame ≠ 0 := by
      rw [invariant.cache.pcRev_frame stored]
      exact stored.1
    obtain ⟨_, cachedMapped, _, inUse⟩ := invariant.frames (state.pcEnt idx).frame
    exact inUse (cachedMapped cached)
  · have step := @frameStep_ok state totalMemory call invariant allowed
    refine ⟨step.handsBack pfn, fun back => ?_⟩
    by_contra mapped
    have still := (step.invariant.frames pfn).used
      (Finset.card_pos.mpr (Finset.nonempty_iff_ne_empty.mpr mapped))
    rw [back.2] at still
    contradiction

/-- A page of a library that one process has read and a second one finds in the cache. -/
def libraryCalls : List FrameCall :=
  [.alloc 5, .mapFrame 5 ⟨1, 0x40⟩, .put 0xabc 0x2000 1 0x5000 true true,
    .get 0xabc 0x2000 1 ⟨2, 0x80⟩ true true]

def libraryState : FrameState :=
  runSteps (frameStep (2 ^ 30)) (frameBoot fun _ => false) libraryCalls

theorem frameCounts_library :
    pcIsCached libraryState 5 = true ∧ libraryState.gCow 5 = 3 ∧
      (libraryState.mappings 5).card = 2 ∧
      CountOk (pcIsCached libraryState 5 = true) (libraryState.gCow 5)
        (libraryState.mappings 5).card := by
  have reached : Reaches (frameStep (2 ^ 30)) FrameCall.Allowed (frameBoot fun _ => false)
      libraryState := by
    refine Reaches.refl.runSteps ⟨rfl, ⟨rfl, rfl⟩, ?_, ?_, trivial⟩
    · change ((runSteps (frameStep (2 ^ 30)) (frameBoot fun _ => false)
        (libraryCalls.take 2)).mappings 5).card = 1
      decide
    · intro frame
      change _ ∉ (runSteps (frameStep (2 ^ 30)) (frameBoot fun _ => false)
        (libraryCalls.take 3)).mappings frame
      by_cases same : frame = 5
      · subst same
        decide
      · have empty : (runSteps (frameStep (2 ^ 30)) (frameBoot fun _ => false)
            (libraryCalls.take 3)).mappings frame = ∅ := by
          change (update (fun _ => ∅) 5 (insert ⟨1, 0x40⟩ ∅) : Nat → Finset Mapping) frame = ∅
          rw [update_of_ne same]
        rw [empty]
        exact Finset.notMem_empty _
  exact ⟨by decide, by decide, by decide,
    (frameCounts_reachable reached).1 5⟩

end Cos.Paging
