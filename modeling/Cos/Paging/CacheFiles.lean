import Cos.Paging.FrameRuns

/-! # The pages of a file in the cache

Which pages the cache has after each call, and that the list of known files names the file of
every one of them: only so does forgetting a file forget all its pages.
-/

namespace Cos.Paging

open Cos.Lib

def Cached (state : FrameState) (ent : PcEnt) : Prop :=
  ∃ idx, Stored state idx ∧ state.pcEnt idx = ent

structure FilesKnown (state : FrameState) : Prop where
  known : ∀ ent, Cached state ent → ent.fh ∈ state.pcFiles
  distinct : state.pcFiles.Nodup

structure CacheShrinks (before after : FrameState) : Prop where
  files : after.pcFiles = before.pcFiles
  pages : ∀ ent, Cached after ent → Cached before ent

variable {state after final : FrameState} {pfn phys totalMemory : Nat} {mapping : Mapping}
  {memory tables : Bool} {fh fsz : BitVec 64} {pg : BitVec 32} {ent : PcEnt}

theorem CacheShrinks.trans (first : CacheShrinks state after) (second : CacheShrinks after final) :
    CacheShrinks state final :=
  ⟨second.files.trans first.files, fun ent cached => first.pages ent (second.pages ent cached)⟩

theorem FilesKnown.shrinks (known : FilesKnown state) (shrinks : CacheShrinks state after) :
    FilesKnown after := by
  refine ⟨fun ent cached => ?_, shrinks.files ▸ known.distinct⟩
  rw [shrinks.files]
  exact known.known ent (shrinks.pages ent cached)

theorem CacheShrinks.same (files : after.pcFiles = state.pcFiles)
    (used : after.pcUsed = state.pcUsed) (entries : after.pcEnt = state.pcEnt) :
    CacheShrinks state after := by
  refine ⟨files, ?_⟩
  rintro ent ⟨idx, ⟨nonzero, inside, page⟩, isEnt⟩
  rw [used] at inside
  rw [entries] at page isEnt
  exact ⟨idx, ⟨nonzero, inside, page⟩, isEnt⟩

theorem Cached.frame (sound : CacheSound state) (cached : Cached state ent) :
    state.pcRev ent.frame ≠ 0 := by
  obtain ⟨idx, stored, rfl⟩ := cached
  rw [sound.pcRev_frame stored]
  exact stored.1

theorem CacheShrinks.uncached (shrinks : CacheShrinks state after) (before : CacheSound state)
    (sound : CacheSound after) (uncached : state.pcRev pfn = 0) : after.pcRev pfn = 0 := by
  by_contra cached
  obtain ⟨stored, isFrame⟩ := sound.reverse cached
  have old := shrinks.pages _ ⟨_, stored, rfl⟩
  have known := old.frame before
  rw [isFrame] at known
  exact known uncached

theorem cached_pcUnlink (cached : state.pcRev pfn ≠ 0) :
    CacheShrinks state (pcUnlink pfn state) := by
  refine ⟨by rw [pcUnlink_frame], ?_⟩
  rintro ent ⟨idx, stored, isEnt⟩
  obtain ⟨other, before⟩ := (stored_pcUnlink cached).mp stored
  rw [pcUnlink_pcEnt cached other] at isEnt
  exact ⟨idx, before, isEnt⟩

theorem pcUnlink_shrinks (pfn : Nat) (state : FrameState) :
    CacheShrinks state (pcUnlink pfn state) := by
  by_cases cached : state.pcRev pfn = 0
  · rw [pcUnlink, if_pos cached]
    exact .same rfl rfl rfl
  · exact cached_pcUnlink cached

theorem pagingFreePhysical_shrinks (phys : Nat) (state : FrameState) :
    CacheShrinks state (pagingFreePhysical phys state) := by
  rw [pagingFreePhysical]
  split
  · exact (pcUnlink_shrinks _ state).trans (.same rfl rfl rfl)
  · exact .same rfl rfl rfl

theorem pagingCowDrop_shrinks (phys : Nat) (state : FrameState) :
    CacheShrinks state (pagingCowDrop phys state).2 := by
  rw [pagingCowDrop]
  split
  · split
    · split
      · exact .same rfl rfl rfl
      · exact (pcUnlink_shrinks _ state).trans (.same rfl rfl rfl)
    · split <;> exact .same rfl rfl rfl
  · exact .same rfl rfl rfl

theorem drop_shrinks (phys : Nat) (state : FrameState) :
    CacheShrinks state (frameStep totalMemory state (.drop phys mapping)) := by
  have gone : CacheShrinks state (removeMapping (phys / 4096) mapping state) := .same rfl rfl rfl
  have dropped := gone.trans (pagingCowDrop_shrinks phys _)
  rw [frameStep]
  cases result : pagingCowDrop phys (removeMapping (phys / 4096) mapping state) with
  | mk shared rest =>
      rw [result] at dropped
      cases shared with
      | true => exact dropped
      | false => exact dropped.trans (pagingFreePhysical_shrinks phys rest)

theorem pcInit_shrinks : CacheShrinks state (pcInit totalMemory memory tables state).2 := by
  have counters : CacheShrinks state (cowReady totalMemory memory state).2 := by
    unfold cowReady
    split
    · exact .same rfl rfl rfl
    · split <;> exact .same rfl rfl rfl
  unfold pcInit
  split
  · exact .same rfl rfl rfl
  · split
    · exact .same rfl rfl rfl
    · cases result : cowReady totalMemory memory state with
      | mk ok grown =>
          rw [result] at counters
          cases ok with
          | false => exact counters
          | true =>
              cases tables with
              | false => exact counters.trans (.same rfl rfl rfl)
              | true =>
                  refine ⟨counters.files, ?_⟩
                  rintro ent ⟨idx, ⟨_, _, page⟩, _⟩
                  exact absurd rfl page

theorem pcFind_key (sound : CacheSound state) (found : pcFind state fh fsz pg ≠ 0) :
    (state.pcEnt (pcFind state fh fsz pg)).fh = fh ∧
    (state.pcEnt (pcFind state fh fsz pg)).pg = pg := by
  obtain ⟨buckets, spare, chains⟩ := sound
  obtain ⟨bucket, isBucket⟩ : ∃ bucket, pcBucket fh fsz pg = bucket := ⟨_, rfl⟩
  rw [pcFind, isBucket,
    chainFind_eq (chains.bucketChain bucket) (chains.bucket_length bucket)] at found ⊢
  cases search : (buckets bucket).find? _ with
  | none =>
      rw [search] at found
      exact absurd rfl found
  | some idx =>
      have key := List.find?_some search
      simp only [Bool.and_eq_true, beq_iff_eq] at key
      exact ⟨key.1.1, key.2⟩

theorem pagingPcacheGet_cached (invariant : FrameInvariant state)
    (hit : (pagingPcacheGet totalMemory memory tables fh fsz pg state).1 ≠ 0) :
    ∃ ent, Cached state ent ∧ ent.fh = fh ∧ ent.pg = pg ∧
      (pagingPcacheGet totalMemory memory tables fh fsz pg state).1 = ent.phys := by
  have shrinks := @pcInit_shrinks state totalMemory memory tables
  rw [pagingPcacheGet] at hit ⊢
  cases init : pcInit totalMemory memory tables state with
  | mk ok grown =>
      rw [init] at hit shrinks
      cases ok with
      | false => exact absurd rfl hit
      | true =>
          obtain ⟨kept, -⟩ := pcInit_ready invariant init
          by_cases missing : pcFind grown fh fsz pg = 0
          · simp [missing] at hit
          · simp only [if_neg missing] at hit ⊢
            obtain ⟨isFile, isPage⟩ := pcFind_key kept.cache missing
            have stored := pcFind_stored kept.cache missing
            by_cases room : grown.gCow (grown.pcEnt (pcFind grown fh fsz pg)).frame < 65000
            · simp only [if_pos room] at hit ⊢
              exact ⟨_, shrinks.pages _ ⟨_, stored, rfl⟩, isFile, isPage, rfl⟩
            · simp [room] at hit

theorem pagingPcacheGet_shrinks :
    CacheShrinks state (pagingPcacheGet totalMemory memory tables fh fsz pg state).2 := by
  have shrinks := @pcInit_shrinks state totalMemory memory tables
  rw [pagingPcacheGet]
  cases init : pcInit totalMemory memory tables state with
  | mk ok grown =>
      rw [init] at shrinks
      cases ok with
      | false => exact shrinks
      | true =>
          simp only
          split
          · exact shrinks
          · split
            · exact shrinks.trans (.same rfl rfl rfl)
            · exact shrinks

theorem get_eq : frameStep totalMemory state (.get fh fsz pg mapping memory tables) =
    if (pagingPcacheGet totalMemory memory tables fh fsz pg state).1 = 0
    then (pagingPcacheGet totalMemory memory tables fh fsz pg state).2
    else addMapping ((pagingPcacheGet totalMemory memory tables fh fsz pg state).1 / 4096) mapping
      (pagingPcacheGet totalMemory memory tables fh fsz pg state).2 := by
  rw [frameStep]
  cases pagingPcacheGet totalMemory memory tables fh fsz pg state with
  | mk found rest =>
      cases found with
      | zero => rfl
      | succ n => rfl

theorem getDrop_invariant (invariant : FrameInvariant state)
    (hit : (pagingPcacheGet totalMemory memory tables fh fsz pg state).1 ≠ 0) :
    FrameInvariant (pagingCowDrop (pagingPcacheGet totalMemory memory tables fh fsz pg state).1
      (pagingPcacheGet totalMemory memory tables fh fsz pg state).2).2 ∧
    (pagingCowDrop (pagingPcacheGet totalMemory memory tables fh fsz pg state).1
      (pagingPcacheGet totalMemory memory tables fh fsz pg state).2).2.mappings = state.mappings := by
  rw [pagingPcacheGet] at hit ⊢
  cases init : pcInit totalMemory memory tables state with
  | mk ok grown =>
      rw [init] at hit
      cases ok with
      | false => exact absurd rfl hit
      | true =>
          obtain ⟨kept, sameMappings, -⟩ := pcInit_ready invariant init
          by_cases missing : pcFind grown fh fsz pg = 0
          · simp [missing] at hit
          · simp only [if_neg missing] at hit ⊢
            have stored := pcFind_stored kept.cache missing
            obtain ⟨idx, isFound⟩ : ∃ idx, pcFind grown fh fsz pg = idx := ⟨_, rfl⟩
            rw [isFound] at hit stored ⊢
            have cached : grown.pcRev (grown.pcEnt idx).frame ≠ 0 := by
              rw [kept.cache.pcRev_frame stored]
              exact stored.1
            by_cases room : grown.gCow (grown.pcEnt idx).frame < 65000
            · simp only [if_pos room]
              obtain ⟨count, cachedMapped, -, -⟩ := kept.frames (grown.pcEnt idx).frame
              have counted := count.cachedCount cached
              have tracked : (grown.pcEnt idx).phys / 4096 < grown.gCowN := by
                obtain ⟨_, _, chains⟩ := kept.cache
                exact chains.tracked _ cached
              have isCached : pcIsCached grown ((grown.pcEnt idx).phys / 4096) = true :=
                kept.cache.pcIsCached_iff.mpr cached
              have still (gCow : Nat → Nat) :
                  pcIsCached { grown with gCow := gCow } ((grown.pcEnt idx).phys / 4096) = true := isCached
              rw [pagingCowDrop, if_pos tracked, if_pos (still _)]
              change grown.gCow ((grown.pcEnt idx).phys / 4096) = _ at counted
              simp only [PcEnt.frame, Function.update_self, Function.update_idem,
                Nat.add_sub_cancel, Function.update_eq_self]
              rw [if_pos (by omega)]
              exact ⟨kept, sameMappings⟩
            · simp [room] at hit

theorem put_cached (invariant : FrameInvariant state)
    (cached : Cached (frameStep totalMemory state (.put fh fsz pg phys memory tables)) ent) :
    Cached state ent ∨ ent = ⟨fh, fsz, phys, pg⟩ := by
  have shrinks := @pcInit_shrinks state totalMemory memory tables
  rw [frameStep, pagingPcachePut] at cached
  cases init : pcInit totalMemory memory tables state with
  | mk ok grown =>
      rw [init] at cached shrinks
      cases ok with
      | false => exact .inl (shrinks.pages ent cached)
      | true =>
          obtain ⟨⟨⟨buckets, spare, chains⟩, -⟩, -⟩ := pcInit_ready invariant init
          simp only at cached
          split at cached
          next fits =>
            obtain ⟨list, isList⟩ : ∃ list, (if fh ∉ grown.pcFiles ∧ grown.pcFiles.length <
              pcFilesCap then grown.pcFiles ++ [fh] else grown.pcFiles) = list := ⟨_, rfl⟩
            rw [isList] at cached
            split at cached
            next storable =>
              obtain ⟨idx, stored, isEnt⟩ := cached
              change Stored (pcStore ⟨fh, fsz, phys, pg⟩ grown) idx at stored
              rw [stored_pcStore chains storable.2.2 fits.1] at stored
              by_cases new : idx = pcSlot grown
              · right
                rw [← isEnt, new]
                exact Function.update_self _ _ _
              · left
                rw [show (pcStore ⟨fh, fsz, phys, pg⟩ grown).pcEnt idx = grown.pcEnt idx from
                  Function.update_of_ne new _ _] at isEnt
                exact shrinks.pages ent ⟨idx, stored.resolve_left new, isEnt⟩
            next => exact .inl (shrinks.pages ent cached)
          next => exact .inl (shrinks.pages ent cached)

theorem put_files (known : FilesKnown state) (invariant : FrameInvariant state) :
    FilesKnown (frameStep totalMemory state (.put fh fsz pg phys memory tables)) := by
  have pages := fun ent => @put_cached state phys totalMemory memory tables fh fsz pg ent invariant
  have shrinks := @pcInit_shrinks state totalMemory memory tables
  rw [frameStep, pagingPcachePut] at pages ⊢
  cases init : pcInit totalMemory memory tables state with
  | mk ok grown =>
      rw [init] at pages shrinks
      have before := known.shrinks shrinks
      have files := shrinks.files
      cases ok with
      | false => exact before
      | true =>
          simp only at pages ⊢
          obtain ⟨list, isList⟩ : ∃ list, (if fh ∉ grown.pcFiles ∧ grown.pcFiles.length < pcFilesCap
            then grown.pcFiles ++ [fh] else grown.pcFiles) = list := ⟨_, rfl⟩
          have distinct : list.Nodup := by
            rw [← isList]
            split
            next new =>
              exact List.nodup_append.mpr ⟨before.distinct, by simp, fun a here b isFh => by
                rintro rfl
                exact new.1 (List.mem_singleton.mp isFh ▸ here)⟩
            next => exact before.distinct
          have more : ∀ file ∈ state.pcFiles, file ∈ list := by
            intro file member
            rw [← isList, files]
            split
            · exact List.mem_append_left _ member
            · exact member
          rw [isList] at pages ⊢
          split
          next fits =>
            rw [if_pos fits] at pages
            split
            next storable =>
              rw [if_pos storable] at pages
              refine ⟨fun ent cached => ?_, distinct⟩
              rcases pages ent cached with old | rfl
              · exact more _ (known.known ent old)
              · exact storable.2.1
            next unstorable =>
              refine ⟨fun ent cached => ?_, distinct⟩
              exact more _ (known.known ent (shrinks.pages ent cached))
          next => exact before

theorem pcForget_shrinks (state : FrameState) (i : Nat) :
    CacheShrinks state (pcForget fh state i) := by
  rw [pcForget]
  split
  · exact (pcUnlink_shrinks _ state).trans (.same rfl rfl rfl)
  · exact .same rfl rfl rfl

theorem pcForget_gone {i : Nat} (invariant : FrameInvariant state) (inTable : i ≠ 0)
    (used : i ≤ state.pcUsed) :
    ¬ (((pcForget fh state i).pcEnt i).phys ≠ 0 ∧ ((pcForget fh state i).pcEnt i).fh = fh) := by
  rw [pcForget]
  split
  next ours =>
    have isRev := invariant.cache.pcRev_frame ⟨inTable, used, ours.1⟩
    have cached : state.pcRev (state.pcEnt i).frame ≠ 0 := by
      rw [isRev]
      exact inTable
    have gone : ¬ Stored (pcUnlink (state.pcEnt i).frame state) i := by
      rw [stored_pcUnlink cached, isRev]
      simp
    intro still
    exact gone ⟨inTable, by rw [pcUnlink_pcUsed]; exact used, still.1⟩
  next other => exact other

theorem pcForget_pcEnt {i j : Nat} (page : ((pcForget fh state i).pcEnt j).phys ≠ 0) :
    (pcForget fh state i).pcEnt j = state.pcEnt j := by
  rw [pcForget] at page ⊢
  split at page
  next ours =>
    rw [if_pos ours]
    by_cases absent : state.pcRev (state.pcEnt i).frame = 0
    · dsimp only
      rw [pcUnlink, if_pos absent]
    · by_cases same : j = state.pcRev (state.pcEnt i).frame
      · dsimp only at page
        rw [pcUnlink, if_neg absent, same] at page
        dsimp only at page
        rw [Function.update_self] at page
        exact absurd rfl page
      · exact pcUnlink_pcEnt absent same
  next other => rw [if_neg other]

theorem foldl_pcForget_gone {rounds : List Nat} (invariant : FrameInvariant state)
    (inside : ∀ i ∈ rounds, i ≠ 0 ∧ i ≤ state.pcUsed) :
    CacheShrinks state (rounds.foldl (pcForget fh) state) ∧
      (rounds.foldl (pcForget fh) state).pcUsed = state.pcUsed ∧
      (∀ j, ((rounds.foldl (pcForget fh) state).pcEnt j).phys ≠ 0 →
        (rounds.foldl (pcForget fh) state).pcEnt j = state.pcEnt j) ∧
      ∀ i ∈ rounds, ¬ (((rounds.foldl (pcForget fh) state).pcEnt i).phys ≠ 0 ∧
        ((rounds.foldl (pcForget fh) state).pcEnt i).fh = fh) := by
  induction rounds generalizing state with
  | nil => exact ⟨.same rfl rfl rfl, rfl, fun _ _ => rfl, fun _ member => by cases member⟩
  | cons i rest ih =>
      obtain ⟨nonzero, used⟩ := inside i (by simp)
      obtain ⟨kept, sameUsed, -⟩ := @pcForget_invariant state fh i invariant nonzero used
      obtain ⟨shrinks, finalUsed, entries, gone⟩ := @ih (pcForget fh state i) kept fun j member => by
        rw [sameUsed]
        exact inside j (by simp [member])
      refine ⟨(pcForget_shrinks state i).trans shrinks, finalUsed.trans sameUsed, fun j page => ?_, fun j member => ?_⟩
      · have same := entries j page
        rw [List.foldl_cons] at page ⊢
        rw [same] at page ⊢
        exact pcForget_pcEnt page
      · rcases List.mem_cons.mp member with rfl | later
        · rintro ⟨page, isFile⟩
          rw [List.foldl_cons] at page isFile
          have same := entries j page
          rw [same] at page isFile
          exact pcForget_gone invariant nonzero used ⟨page, isFile⟩
        · exact gone j later

theorem invalidate_cached (known : FilesKnown state) (invariant : FrameInvariant state)
    (cached : Cached (pagingPcacheInvalidateFile fh state) ent) :
    Cached state ent ∧ ent.fh ≠ fh := by
  rw [pagingPcacheInvalidateFile] at cached
  cases search : state.pcFiles.findIdx? (· == fh) with
  | none =>
      rw [search] at cached
      refine ⟨cached, ?_⟩
      rintro rfl
      have unknown := List.findIdx?_eq_none_iff.mp search _ (known.known ent cached)
      simp at unknown
  | some kk =>
      rw [search] at cached
      simp only at cached
      split at cached
      next =>
        have inside : ∀ i ∈ List.range' 1 state.pcUsed, i ≠ 0 ∧ i ≤ state.pcUsed := by
          intro i member
          have := List.mem_range'_1.mp member
          omega
        obtain ⟨shrinks, sameUsed, -, gone⟩ := @foldl_pcForget_gone state fh _ invariant inside
        obtain ⟨idx, ⟨nonzero, used, page⟩, isEnt⟩ := cached
        refine ⟨shrinks.pages ent ⟨idx, ⟨nonzero, used, page⟩, isEnt⟩, fun isFile => ?_⟩
        rw [← isEnt] at isFile
        refine gone idx (List.mem_range'_1.mpr ?_) ⟨page, isFile⟩
        dsimp only at used
        omega
      next unready =>
        obtain ⟨⟨buckets, spare, chains⟩, -⟩ := invariant
        obtain ⟨idx, ⟨nonzero, used, -⟩, -⟩ := cached
        have empty := chains.unallocated (by simpa using unready)
        omega

theorem invalidate_files (known : FilesKnown state) (invariant : FrameInvariant state) :
    FilesKnown (pagingPcacheInvalidateFile fh state) := by
  have pages := fun ent => @invalidate_cached state fh ent known invariant
  rw [pagingPcacheInvalidateFile] at pages ⊢
  cases search : state.pcFiles.findIdx? (· == fh) with
  | none => exact known
  | some kk =>
      rw [search] at pages
      simp only at pages ⊢
      obtain ⟨bound, isFile, -⟩ := List.findIdx?_eq_some_iff_getElem.mp search
      rw [beq_iff_eq] at isFile
      have perm := swapRemove_cons_perm bound
      split
      next ready =>
        rw [if_pos ready] at pages
        refine ⟨fun ent cached => ?_, ?_⟩
        · obtain ⟨old, other⟩ := pages ent cached
          have member := perm.mem_iff.mpr (known.known ent old)
          rw [isFile] at member
          exact (List.mem_cons.mp member).resolve_left other
        · exact (List.nodup_cons.mp (perm.nodup_iff.mpr known.distinct)).2
      next => exact known

end Cos.Paging
