import Cos.Lib.Buckets

/-! # The table of shared text pages

An entry is a frame with read-only contents, found again by a hash of the contents and by the frame.
The entries live in one array and are on two chains at once; a free entry is on the free list, which
is threaded through the links of the hash chains.
-/

namespace Cos.Paging

open Cos.Lib
open Function (update update_of_ne update_self update_apply)

structure TextPage where
  words : List (BitVec 64)
  size : words.length = 512
deriving DecidableEq

def pageHash (page : TextPage) : BitVec 64 :=
  page.words.foldl (fun h word =>
    let h := (h ^^^ word) * 0xFF51AFD7ED558CCD#64
    h ^^^ (h >>> 32)) 0x9E3779B97F4A7C15#64

/-- `pc_entry_t`, without its links; `phys` is a frame number. -/
structure TextEntry where
  phys : Nat
  hash : BitVec 64
  refs : Nat
deriving DecidableEq, Repr

/-- `PC_ENTRIES` and `PC_BUCKETS`. -/
def textEntries : Nat := 16384
def textBuckets : Nat := 4096

/-- The tables of `cos_pcache.c`.  Entry `i` of the array is `i + 1` here, and 0 is the end of a
chain; `ready` says that the tables are allocated. -/
structure TextCache where
  ready : Bool
  failed : Bool
  ent : Nat → TextEntry
  nextH : Nat → Nat
  nextP : Nat → Nat
  bh : Nat → Nat
  bp : Nat → Nat
  free : Nat

def TextCache.boot : TextCache :=
  ⟨false, false, fun _ => ⟨0, 0, 0⟩, fun _ => 0, fun _ => 0, fun _ => 0, fun _ => 0, 0⟩

/-- `bh_of` and `bp_of`. -/
def bhOf (hash : BitVec 64) : Nat := (hash >>> 20).toNat % textBuckets
def bpOf (phys : Nat) : Nat := phys % textBuckets

/-- `init_tables`; `memory` says whether its `kmalloc` calls all succeed.  The free list ends up
with the last entry first. -/
def initTables (memory : Bool) (cache : TextCache) : Bool × TextCache :=
  if cache.ready then (true, cache)
  else if cache.failed then (false, cache)
  else if memory then
    (true, { cache with
      ready := true
      nextH := fun i => i - 1
      bh := fun _ => 0
      bp := fun _ => 0
      free := textEntries })
  else (false, { cache with failed := true })

def unlinkEntry (idx : Nat) (cache : TextCache) : TextCache :=
  let e := cache.ent idx
  let byHash := chainUnlink textEntries idx (cache.bh (bhOf e.hash)) cache.nextH
  let byFrame := chainUnlink textEntries idx (cache.bp (bpOf e.phys)) cache.nextP
  { cache with
    bh := update cache.bh (bhOf e.hash) byHash.1
    nextH := update byHash.2 idx cache.free
    bp := update cache.bp (bpOf e.phys) byFrame.1
    nextP := byFrame.2
    free := idx }

/-- The end of `cos_pcache_share`: the first free entry is filled and put on both chains. -/
def registerEntry (phys : Nat) (hash : BitVec 64) (cache : TextCache) : TextCache :=
  let idx := cache.free
  { cache with
    free := cache.nextH idx
    ent := update cache.ent idx ⟨phys, hash, 1⟩
    nextH := update cache.nextH idx (cache.bh (bhOf hash))
    bh := update cache.bh (bhOf hash) idx
    nextP := update cache.nextP idx (cache.bp (bpOf phys))
    bp := update cache.bp (bpOf phys) idx }

def TextCache.setRefs (cache : TextCache) (idx refs : Nat) : TextCache :=
  { cache with ent := update cache.ent idx { cache.ent idx with refs := refs } }

@[simp] theorem setRefs_phys (cache : TextCache) (idx refs i : Nat) :
    ((cache.setRefs idx refs).ent i).phys = (cache.ent i).phys := by
  simp only [TextCache.setRefs, update_apply]
  split
  · rename_i here
    rw [here]
  · rfl

@[simp] theorem setRefs_hash (cache : TextCache) (idx refs i : Nat) :
    ((cache.setRefs idx refs).ent i).hash = (cache.ent i).hash := by
  simp only [TextCache.setRefs, update_apply]
  split
  · rename_i here
    rw [here]
  · rfl

theorem setRefs_refs (cache : TextCache) (idx refs i : Nat) :
    ((cache.setRefs idx refs).ent i).refs = if i = idx then refs else (cache.ent i).refs := by
  simp only [TextCache.setRefs, update_apply]
  split <;> rfl

/-- The search of `cos_pcache_share`: an entry of the frame itself or of one with the same
contents. -/
def findText (cache : TextCache) (content : Nat → TextPage) (phys : Nat) : Nat :=
  let hash := pageHash (content phys)
  chainFind cache.nextH
    (fun i => (cache.ent i).hash == hash &&
      ((cache.ent i).phys == phys || content (cache.ent i).phys == content phys))
    textEntries (cache.bh (bhOf hash))

/-- The search of `cos_pcache_release`. -/
def findFrame (cache : TextCache) (phys : Nat) : Nat :=
  chainFind cache.nextP (fun i => (cache.ent i).phys == phys) textEntries (cache.bp (bpOf phys))

/-- The entry is in the table: a walk through a hash bucket meets it. -/
def TextCache.Listed (cache : TextCache) (i : Nat) : Prop :=
  ∃ b cells, Chain cache.nextH (cache.bh b) cells ∧ i ∈ cells

/-- The entries in use are on one chain of each kind, the others that were freed on the free
list. -/
structure TextChains (cache : TextCache) (live : Nat → Prop) (spare : List Nat) : Prop where
  byHash : ∃ lists, Buckets cache.nextH cache.bh (fun i => bhOf (cache.ent i).hash) live lists
  byFrame : ∃ lists, Buckets cache.nextP cache.bp (fun i => bpOf (cache.ent i).phys) live lists
  spareChain : Chain cache.nextH cache.free spare
  spareDistinct : spare.Nodup
  spareUnused : ∀ i ∈ spare, ¬ live i ∧ i ≤ textEntries
  inside : ∀ i, live i → i ≤ textEntries
  unready : cache.ready = false → ∀ i, ¬ live i

section TextChains

variable {cache : TextCache} {live : Nat → Prop} {spare : List Nat} {idx : Nat}

theorem TextChains.listed_iff (chains : TextChains cache live spare) {i : Nat} :
    cache.Listed i ↔ live i := by
  obtain ⟨lists, buckets⟩ := chains.byHash
  exact buckets.live_iff.symm

theorem chain_countdown (n : Nat) : Chain (fun i => i - 1) n (List.range' 1 n).reverse := by
  induction n with
  | zero => rfl
  | succ n ih =>
      rw [List.range'_concat, List.reverse_append]
      refine ⟨by omega, by omega, ?_⟩
      have here : 1 + 1 * n - 1 = n := by omega
      change Chain (fun i => i - 1) (1 + 1 * n - 1) (List.range' 1 n).reverse
      rw [here]
      exact ih

theorem nodup_countdown (n : Nat) : (List.range' 1 n).reverse.Nodup :=
  List.nodup_reverse.mpr List.nodup_range'

theorem textChains_boot : TextChains .boot (fun _ => False) [] where
  byHash := ⟨fun _ => [], fun _ => rfl, fun _ => List.nodup_nil, fun _ _ => by simp⟩
  byFrame := ⟨fun _ => [], fun _ => rfl, fun _ => List.nodup_nil, fun _ _ => by simp⟩
  spareChain := rfl
  spareDistinct := List.nodup_nil
  spareUnused := fun _ member => by contradiction
  inside := fun _ used => used.elim
  unready := fun _ _ used => used

theorem TextChains.initTables (chains : TextChains cache live spare) (memory : Bool) :
    ∃ spare, TextChains (Paging.initTables memory cache).2 live spare := by
  rw [Paging.initTables]
  split
  · exact ⟨spare, chains⟩
  · rename_i unready
    have nothing := chains.unready (Bool.eq_false_iff.mpr unready)
    split
    · exact ⟨spare, chains⟩
    · split
      · obtain ⟨count, isCount⟩ : ∃ count, textEntries = count := ⟨_, rfl⟩
        rw [isCount]
        refine ⟨(List.range' 1 count).reverse, ?_, ?_, chain_countdown count, nodup_countdown count,
          ?_, chains.inside, fun contra => by contradiction⟩
        · exact ⟨fun _ => [], fun _ => rfl, fun _ => List.nodup_nil, fun _ i => by simp [nothing i]⟩
        · exact ⟨fun _ => [], fun _ => rfl, fun _ => List.nodup_nil, fun _ i => by simp [nothing i]⟩
        · intro i member
          have here := List.mem_range'_1.mp (List.mem_reverse.mp member)
          exact ⟨nothing i, by omega⟩
      · exact ⟨spare, chains.byHash, chains.byFrame, chains.spareChain, chains.spareDistinct,
          chains.spareUnused, chains.inside, chains.unready⟩

theorem initTables_ready {memory : Bool} {after : TextCache}
    (ran : initTables memory cache = (true, after)) : after.ready = true := by
  rw [initTables] at ran
  split at ran
  · rename_i ready
    obtain ⟨_, rfl⟩ := Prod.mk.inj ran
    exact ready
  · split at ran
    · exact absurd (Prod.mk.inj ran).1 (by simp)
    · split at ran
      · obtain ⟨_, rfl⟩ := Prod.mk.inj ran
        rfl
      · exact absurd (Prod.mk.inj ran).1 (by simp)

theorem initTables_ent (memory : Bool) (cache : TextCache) :
    (initTables memory cache).2.ent = cache.ent := by
  rw [initTables]
  split
  · rfl
  · split
    · rfl
    · split <;> rfl

theorem TextChains.register (chains : TextChains cache live spare) (ready : cache.ready = true)
    (some_ : cache.free ≠ 0) (phys : Nat) (hash : BitVec 64) : ¬ live cache.free ∧
      ∃ spare, TextChains (registerEntry phys hash cache) (fun i => i = cache.free ∨ live i) spare := by
  obtain ⟨rest, rfl, tail⟩ := chains.spareChain.pop some_
  obtain ⟨unused, inside⟩ := chains.spareUnused cache.free (by simp)
  obtain ⟨absent, distinct⟩ := List.nodup_cons.mp chains.spareDistinct
  obtain ⟨hashLists, byHash⟩ := chains.byHash
  obtain ⟨frameLists, byFrame⟩ := chains.byFrame
  have keeps : ∀ i, live i → update cache.ent cache.free ⟨phys, hash, 1⟩ i = cache.ent i := by
    intro i used
    refine update_of_ne ?_ _ _
    rintro rfl
    exact unused used
  refine ⟨unused, rest, ⟨update hashLists (bhOf hash) (cache.free :: hashLists (bhOf hash)), ?_⟩,
    ⟨update frameLists (bpOf phys) (cache.free :: frameLists (bpOf phys)), ?_⟩, ?_, distinct, ?_,
    ?_, ?_⟩
  · refine byHash.push some_ unused ?_ (fun i used => ?_) fun _ => Iff.rfl
    · simp only [registerEntry, update_self]
    · simp only [registerEntry, keeps i used]
  · refine byFrame.push some_ unused ?_ (fun i used => ?_) fun _ => Iff.rfl
    · simp only [registerEntry, update_self]
    · simp only [registerEntry, keeps i used]
  · exact tail.update absent
  · intro i member
    obtain ⟨freed, within⟩ := chains.spareUnused i (List.mem_cons_of_mem _ member)
    refine ⟨?_, within⟩
    rintro (rfl | used)
    · exact absent member
    · exact freed used
  · rintro i (rfl | used)
    · exact inside
    · exact chains.inside i used
  · intro unready
    exact absurd (ready.symm.trans unready) (by simp)

theorem TextChains.unlink (chains : TextChains cache live spare) (used : live idx) :
    TextChains (unlinkEntry idx cache) (fun i => live i ∧ i ≠ idx) (idx :: spare) := by
  obtain ⟨hashLists, byHash⟩ := chains.byHash
  obtain ⟨frameLists, byFrame⟩ := chains.byFrame
  obtain ⟨hashAfter, hashKept⟩ := byHash.unlink used chains.inside fun _ => Iff.rfl
  obtain ⟨frameAfter, _⟩ := byFrame.unlink used chains.inside fun _ => Iff.rfl
  have notSpare : idx ∉ spare := fun member => (chains.spareUnused idx member).1 used
  refine ⟨⟨update hashLists (bhOf (cache.ent idx).hash)
    ((hashLists (bhOf (cache.ent idx).hash)).erase idx), ?_⟩, ⟨_, frameAfter⟩, ?_, ?_, ?_, ?_, ?_⟩
  · refine hashAfter.congr (fun _ => Iff.rfl) (fun i stays => ?_) fun _ _ => rfl
    exact update_of_ne stays.2 _ _
  · refine Chain.push (chains.spareChain.frame fun i member => ?_) (byHash.nonzero used) notSpare
    exact hashKept i (chains.spareUnused i member).1
  · exact List.nodup_cons.mpr ⟨notSpare, chains.spareDistinct⟩
  · intro i member
    rcases List.mem_cons.mp member with rfl | old
    · exact ⟨fun stays => stays.2 rfl, chains.inside i used⟩
    · obtain ⟨freed, within⟩ := chains.spareUnused i old
      exact ⟨fun stays => freed stays.1, within⟩
  · exact fun i stays => chains.inside i stays.1
  · exact fun unready i stays => chains.unready unready i stays.1

theorem TextChains.setRefs (chains : TextChains cache live spare) (idx refs : Nat) :
    TextChains (cache.setRefs idx refs) live spare := by
  obtain ⟨hashLists, byHash⟩ := chains.byHash
  obtain ⟨frameLists, byFrame⟩ := chains.byFrame
  refine ⟨⟨hashLists, ?_⟩, ⟨frameLists, ?_⟩, chains.spareChain, chains.spareDistinct,
    chains.spareUnused, chains.inside, chains.unready⟩
  · exact byHash.congr (fun _ => Iff.rfl) (fun _ _ => rfl) fun i _ => by rw [setRefs_hash]
  · exact byFrame.congr (fun _ => Iff.rfl) (fun _ _ => rfl) fun i _ => by rw [setRefs_phys]

theorem TextChains.findText_cases (chains : TextChains cache live spare) (content : Nat → TextPage)
    (phys : Nat) :
    (findText cache content phys = 0 ∧ ∀ i, live i → (cache.ent i).hash = pageHash (content phys) →
        (cache.ent i).phys ≠ phys ∧ content (cache.ent i).phys ≠ content phys) ∨
      (findText cache content phys ≠ 0 ∧ live (findText cache content phys) ∧
        ((cache.ent (findText cache content phys)).phys = phys ∨
          content (cache.ent (findText cache content phys)).phys = content phys)) := by
  obtain ⟨lists, buckets⟩ := chains.byHash
  rcases buckets.find_cases (b := bhOf (pageHash (content phys))) chains.inside
    (fun i => (cache.ent i).hash == pageHash (content phys) &&
      ((cache.ent i).phys == phys || content (cache.ent i).phys == content phys)) with
    ⟨nothing, fails⟩ | ⟨used, _, passes⟩
  · refine .inl ⟨nothing, fun i used hash => ?_⟩
    have here := fails i used (by rw [hash])
    simpa [hash] using here
  · refine .inr ⟨buckets.nonzero used, used, ?_⟩
    simp only [Bool.and_eq_true, Bool.or_eq_true, beq_iff_eq] at passes
    exact passes.2

theorem TextChains.findFrame_cases (chains : TextChains cache live spare) (phys : Nat) :
    (findFrame cache phys = 0 ∧ ∀ i, live i → (cache.ent i).phys ≠ phys) ∨
      (findFrame cache phys ≠ 0 ∧ live (findFrame cache phys) ∧
        (cache.ent (findFrame cache phys)).phys = phys) := by
  obtain ⟨lists, buckets⟩ := chains.byFrame
  rcases buckets.find_cases (b := bpOf phys) chains.inside
    (fun i => (cache.ent i).phys == phys) with
    ⟨nothing, fails⟩ | ⟨used, _, passes⟩
  · refine .inl ⟨nothing, fun i used same => ?_⟩
    have here := fails i used (by rw [same])
    simp [same] at here
  · exact .inr ⟨buckets.nonzero used, used, beq_iff_eq.mp passes⟩

end TextChains

end Cos.Paging
