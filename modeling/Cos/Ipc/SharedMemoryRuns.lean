import Cos.Ipc.SharedMemory
import Mathlib

/-! # Shared memory over whole runs

Every managed frame has one holder: somebody else or one region; and only who is attached to a
region, or waits for the reaper, has page tables that map it.
-/

namespace Cos.Shm

open Cos.Lib
open Function (update update_eq_self update_idem update_of_ne update_self update_apply)

variable {w w' : World} {pid i frame : Nat} {region : Region} {leaving : Option Nat}

def slotAddr (i : Nat) : Nat := shmVaBase + i * shmSlotPages

structure RegionOk (w : World) (i : Nat) (region : Region) : Prop where
  free : region.inUse = false → region.physPages = [] ∧ region.attachedPids = []
  used : region.inUse = true → region.attachedPids ≠ []
  place : region.inUse = true →
    region.virtAddr = slotAddr i ∧ region.pages = region.physPages.length
  small : region.physPages.length ≤ shmSlotPages
  attachedOnce : region.attachedPids.Nodup
  framesOnce : region.physPages.Nodup
  own : ∀ frame ∈ region.physPages, w.phys.used frame = true ∧
    (w.phys.first ≤ frame ∧ frame < w.phys.total) ∧ w.others frame = false

/-- `leaving` is a process that is being detached from its regions. -/
structure Sound (leaving : Option Nat) (w : World) : Prop where
  length : w.regions.length = shmMaxRegions
  hint : w.phys.first ≤ w.phys.nextFreeHint
  regions : ∀ (i : Nat) region, w.regions[i]? = some region → RegionOk w i region
  apart : ∀ (i j : Nat) (region region' : Region), w.regions[i]? = some region →
    w.regions[j]? = some region' → i ≠ j → ∀ frame ∈ region.physPages, frame ∉ region'.physPages
  kept : ∀ frame, w.phys.first ≤ frame → frame < w.phys.total → w.phys.used frame = true →
    w.others frame = true ∨ ∃ (i : Nat) (region : Region), w.regions[i]? = some region ∧
    frame ∈ region.physPages
  others : ∀ frame, w.others frame = true → w.phys.used frame = true
  attached : ∀ (i : Nat) region, w.regions[i]? = some region →
    ∀ pid ∈ region.attachedPids, some pid ≠ leaving →
    w.running pid ∧ ∀ (k frame : Nat), region.physPages[k]? = some frame →
    w.maps pid (slotAddr i + k) = some frame
  mapped : ∀ pid page frame, w.maps pid page = some frame →
    ∃ (i : Nat) (region : Region), w.regions[i]? = some region ∧
    (∃ k, page = slotAddr i + k ∧ region.physPages[k]? = some frame) ∧
    (pid ∈ region.attachedPids ∨ pid ∈ w.zombies)
  once : w.doubleFrees = 0

theorem find_unused {p : Phys} {start : Nat}
    (found : ((List.range' start (p.total - start)).find? fun frame => !p.used frame) =
    some frame) : p.used frame = false ∧ start ≤ frame ∧ frame < p.total := by
  have member := List.mem_range'_1.mp (List.mem_of_find?_eq_some found)
  have unused := List.find?_some found
  simp only [Bool.not_eq_true'] at unused
  exact ⟨unused, member.1, by omega⟩

theorem Phys.alloc_spec {p p' : Phys} (alloc : p.alloc = some (frame, p'))
    (hint : p.first ≤ p.nextFreeHint) :
    p.used frame = false ∧ (p.first ≤ frame ∧ frame < p.total) ∧ p' = p.set frame := by
  unfold Phys.alloc at alloc
  simp only at alloc
  have start : p.first ≤ if p.nextFreeHint < p.total then p.nextFreeHint else p.first := by
    split
    · exact hint
    · exact Nat.le_refl _
  split at alloc
  · next found =>
    cases alloc
    obtain ⟨unused, low, high⟩ := find_unused found
    exact ⟨unused, ⟨Nat.le_trans start low, high⟩, rfl⟩
  · split at alloc
    · next found =>
      cases alloc
      obtain ⟨unused, low, high⟩ := find_unused found
      exact ⟨unused, ⟨low, high⟩, rfl⟩
    · cases alloc

theorem clear_set {p : Phys} (unused : p.used frame = false) :
    ((p.set frame).clear frame).used = p.used := by
  simp only [Phys.set, Phys.clear, Function.update_idem]
  rw [← unused, Function.update_eq_self]

structure Freed (w w' : World) (frames : List Nat) : Prop where
  used : ∀ frame, w'.phys.used frame = (w.phys.used frame && decide (frame ∉ frames))
  range : w'.phys.first = w.phys.first ∧ w'.phys.total = w.phys.total
  hint : w.phys.first ≤ w.phys.nextFreeHint → w'.phys.first ≤ w'.phys.nextFreeHint
  once : w'.doubleFrees = w.doubleFrees
  rest : w'.regions = w.regions ∧ w'.maps = w.maps ∧ w'.zombies = w.zombies ∧ w'.gone = w.gone ∧
    w'.others = w.others

theorem physFreePage_used (range : w.phys.first ≤ frame ∧ frame < w.phys.total)
    (used : w.phys.used frame = true) :
    w.physFreePage frame = { w with phys := w.phys.clear frame } := by
  unfold World.physFreePage
  rw [if_neg (by omega), if_pos used]

theorem pagingFreePhysical_freed (range : w.phys.first ≤ frame ∧ frame < w.phys.total)
    (used : w.phys.used frame = true) : Freed w (w.pagingFreePhysical frame) [frame] := by
  unfold World.pagingFreePhysical
  rw [physFreePage_used range used]
  refine ⟨fun f => ?_, ⟨rfl, rfl⟩, fun hint => Nat.le_min.mpr ⟨hint, range.1⟩, rfl, rfl, rfl, rfl,
    rfl, rfl⟩
  simp only [Phys.clear, update_apply, List.mem_singleton]
  by_cases same : f = frame <;> simp [same]

theorem Freed.trans {w'' : World} {frames frames' : List Nat} (first : Freed w w' frames)
    (second : Freed w' w'' frames') : Freed w w'' (frames ++ frames') := by
  obtain ⟨regions, maps, zombies, gone, others⟩ := second.rest
  refine ⟨fun f => ?_, ?_, fun hint => second.hint (first.hint hint), second.once.trans first.once,
    regions.trans first.rest.1, maps.trans first.rest.2.1, zombies.trans first.rest.2.2.1,
    gone.trans first.rest.2.2.2.1, others.trans first.rest.2.2.2.2⟩
  · rw [second.used, first.used, Bool.and_assoc]
    simp [List.mem_append, not_or]
  · exact ⟨second.range.1.trans first.range.1, second.range.2.trans first.range.2⟩

theorem freeFrames {frames : List Nat} (distinct : frames.Nodup)
    (own : ∀ frame ∈ frames, w.phys.used frame = true ∧ w.phys.first ≤ frame ∧
    frame < w.phys.total) : Freed w (frames.foldl World.pagingFreePhysical w) frames := by
  induction frames generalizing w with
  | nil => exact ⟨fun f => by simp, ⟨rfl, rfl⟩, fun hint => hint, rfl, rfl, rfl, rfl, rfl, rfl⟩
  | cons frame rest ih =>
      obtain ⟨notRest, distinct⟩ := List.nodup_cons.mp distinct
      obtain ⟨first, others⟩ := List.forall_mem_cons.mp own
      have freed := pagingFreePhysical_freed first.2 first.1
      refine freed.trans (ih distinct fun f inside => ?_)
      rw [freed.used, freed.range.1, freed.range.2]
      refine ⟨?_, (others f inside).2⟩
      rw [(others f inside).1]
      simp only [List.mem_singleton, Bool.true_and, decide_eq_true_eq]
      rintro rfl
      exact notRest inside

/-- A process gets the pages from `virt` on for these frames. -/
structure MapsOn (maps maps' : Nat → Nat → Option Nat) (pid virt : Nat) (frames : List Nat) :
    Prop where
  self : ∀ (k frame : Nat), frames[k]? = some frame → maps' pid (virt + k) = some frame
  others : ∀ q page, (q = pid → ∀ k < frames.length, page ≠ virt + k) → maps' q page = maps q page

theorem MapsOn.snoc {maps maps' : Nat → Nat → Option Nat} {virt : Nat} {frames : List Nat}
    (on : MapsOn maps maps' pid virt frames) (frame : Nat) :
    MapsOn maps (update maps' pid (update (maps' pid) (virt + frames.length) (some frame))) pid virt
      (frames ++ [frame]) := by
  refine ⟨fun k f isF => ?_, fun q page outside => ?_⟩
  · rw [update_self]
    by_cases isLast : k = frames.length
    · subst isLast
      simp only [List.getElem?_concat_length] at isF
      rw [update_self, isF]
    · have bound : k < frames.length := by
        have := (List.getElem?_eq_some_iff.mp isF).1
        rw [List.length_append, List.length_singleton] at this
        omega
      rw [update_of_ne (by omega)]
      exact on.self k f (by rwa [List.getElem?_append_left bound] at isF)
  · have before := on.others q page fun isPid k bound => outside isPid k (by simp; omega)
    by_cases isPid : q = pid
    · subst isPid
      rw [update_self, update_of_ne (outside rfl frames.length (by simp)), before]
    · rw [update_of_ne isPid, before]

theorem shmUnmapRange_eq (virt n : Nat) : w.shmUnmapRange pid virt n = { w with
    maps := (w.shmUnmapRange pid virt n).maps } ∧ ∀ q page, (w.shmUnmapRange pid virt n).maps q page =
      if q = pid ∧ ∃ k < n, page = virt + k then none else w.maps q page := by
  induction n with
  | zero => exact ⟨rfl, fun q page => by simp [World.shmUnmapRange]⟩
  | succ n ih =>
      obtain ⟨rest, maps⟩ := ih
      refine ⟨?_, fun q page => ?_⟩
      · rw [World.shmUnmapRange, rest]
        rfl
      · simp only [World.shmUnmapRange, World.setMap, update_apply]
        by_cases isPid : q = pid
        · subst isPid
          rw [if_pos rfl]
          by_cases isLast : page = virt + n
          · rw [isLast, update_self, if_pos ⟨rfl, n, Nat.lt_succ_self n, rfl⟩]
          · rw [update_of_ne isLast, maps]
            refine if_congr (and_congr_right fun _ => ⟨fun ⟨k, bound, is⟩ => ⟨k, by omega, is⟩, fun ⟨k, bound, is⟩ => ?_⟩) rfl rfl
            exact ⟨k, by
              omega, is⟩
        · rw [if_neg isPid, maps, if_neg (fun both => isPid both.1), if_neg (fun both => isPid both.1)]

theorem clear_absent {virt pages : Nat} (isClear : w.shmRangeIsClear pid virt pages = true) :
    ∀ k < pages, w.isPresent pid (virt + k) = false := by
  unfold World.shmRangeIsClear at isClear
  simp only [Bool.and_eq_true, List.all_eq_true, List.mem_range, Bool.not_eq_true'] at isClear
  exact isClear.2

theorem absent_none {page : Nat} (absent : w.isPresent pid page = false) :
    w.maps pid page = none := by
  unfold World.isPresent at absent
  simp only [Bool.or_eq_false_iff, Option.isSome_eq_false_iff, Option.isNone_iff_eq_none] at absent
  exact absent.1

structure Gained (w w' : World) (pid virt : Nat) (frames : List Nat) : Prop where
  maps : MapsOn w.maps w'.maps pid virt frames
  other : w'.other = w.other
  used : ∀ frame, w'.phys.used frame = (w.phys.used frame || decide (frame ∈ frames))
  range : w'.phys.first = w.phys.first ∧ w'.phys.total = w.phys.total
  hint : w'.phys.first ≤ w'.phys.nextFreeHint
  low : ∀ frame, w'.phys.used frame = false → w'.low frame = w.low frame
  rest : w'.regions = w.regions ∧ w'.zombies = w.zombies ∧ w'.gone = w.gone ∧ w'.others = w.others ∧
    w'.doubleFrees = w.doubleFrees
  distinct : frames.Nodup
  fresh : ∀ frame ∈ frames, w.phys.used frame = false ∧ w.phys.first ≤ frame ∧ frame < w.phys.total

theorem requestPage_backed {p' : Phys} {page : Nat} {luck : Bool × Bool}
    (alloc : w.phys.alloc = some (frame, p'))
    (backs : luck.2 = true ∧ (w.low frame = some frame ∨ w.low frame = none ∧ luck.1 = true))
    (absent : w.isPresent pid page = false) : (w.requestPage pid page luck).2 = some frame ∧
      (w.requestPage pid page luck).1 = { w with
        phys := p'
        usedPages := w.usedPages + 1
        maps := update w.maps pid (update (w.maps pid) page (some frame))
        low := (w.requestPage pid page luck).1.low } ∧
      ∀ f, f ≠ frame → (w.requestPage pid page luck).1.low f = w.low f := by
  obtain ⟨tables, identity⟩ := backs
  have gets : (w.pagingAllocPage luck.1).2 = some frame ∧ (w.pagingAllocPage luck.1).1 = { w with
      phys := p'
      usedPages := w.usedPages + 1
      low := (w.pagingAllocPage luck.1).1.low } ∧ ∀ f, f ≠ frame → (w.pagingAllocPage luck.1).1.low f = w.low f := by
    unfold World.pagingAllocPage
    rw [alloc]
    rcases identity with there | ⟨nothing, lucky⟩
    · simp only [there, if_true]
      exact ⟨trivial, trivial, fun _ _ => trivial⟩
    · simp only [nothing, lucky, if_true]
      exact ⟨trivial, rfl, fun f differ => update_of_ne differ _ _⟩
  obtain ⟨isFrame, rest, low⟩ := gets
  unfold World.requestPage
  generalize w.pagingAllocPage luck.1 = got at isFrame rest low ⊢
  obtain ⟨g, result⟩ := got
  simp only at isFrame rest low
  subst isFrame
  have stillAbsent : g.isPresent pid page = false := by
    rw [rest]
    exact absent
  simp only [tables, stillAbsent, Bool.false_eq_true, not_false_eq_true, and_self, if_true]
  refine ⟨trivial, ?_, fun f differ => ?_⟩
  · split <;> (rw [rest]; rfl)
  · split
    · exact (update_of_ne differ _ _).trans (low f differ)
    · exact low f differ

theorem requestPages_backed {virt : Nat} {lucks : List (Bool × Bool)} {frames : List Nat}
    (gained : Gained w w' pid virt frames) (backed : Backed w.low w'.phys lucks)
    (absent : ∀ k < frames.length + lucks.length, w.isPresent pid (virt + k) = false) :
    ∃ w'' frames', World.requestPages pid virt lucks w' frames = (w'', some frames') ∧
      Gained w w'' pid virt frames' ∧ frames'.length = frames.length + lucks.length := by
  induction lucks generalizing w' frames with
  | nil => exact ⟨w', frames, rfl, gained, rfl⟩
  | cons luck rest ih =>
      unfold Backed at backed
      split at backed
      · cases backed
      · next frame p' alloc =>
        obtain ⟨unused, range, isP'⟩ := w'.phys.alloc_spec alloc gained.hint
        have notOn : w'.isPresent pid (virt + frames.length) = false := by
          have before := absent frames.length (by simp)
          unfold World.isPresent at before ⊢
          rw [gained.other, gained.maps.others pid _ fun _ k bound => by omega]
          exact before
        obtain ⟨isFrame, stepped, low⟩ := requestPage_backed alloc (by
          rw [gained.low frame unused]
          exact ⟨backed.1, backed.2.1⟩) notOn
        have unfresh : w.phys.used frame = false ∧ frame ∉ frames := by
          have both := gained.used frame
          rw [unused] at both
          simpa using both.symm
        have more : Gained w (w'.requestPage pid (virt + frames.length) luck).1 pid virt (frames ++ [frame]) := by
          obtain ⟨regions, zombies, gone, others, once⟩ := gained.rest
          refine ⟨?_, ?_, fun f => ?_, ?_, ?_, fun f isUnused => ?_, ?_, ?_, fun f inside => ?_⟩
          · rw [stepped]
            exact gained.maps.snoc frame
          · rw [stepped]
            exact gained.other
          · rw [stepped]
            simp only [isP', Phys.set, update_apply, gained.used]
            by_cases same : f = frame <;> simp [same]
          · rw [stepped]
            simp only [isP', Phys.set]
            exact gained.range
          · rw [stepped]
            simp only [isP', Phys.set]
            omega
          · have differ : f ≠ frame := by
              rintro rfl
              rw [stepped] at isUnused
              simp [isP', Phys.set] at isUnused
            have before : w'.phys.used f = false := by
              rw [stepped] at isUnused
              simpa only [isP', Phys.set, update_of_ne differ] using isUnused
            rw [low f differ, gained.low f before]
          · rw [stepped]
            exact ⟨regions, zombies, gone, others, once⟩
          · exact List.nodup_append.mpr ⟨gained.distinct, List.nodup_singleton _, fun a inside b last => by
              rw [List.mem_singleton.mp last]
              rintro rfl
              exact unfresh.2 inside⟩
          · rcases List.mem_append.mp inside with before | last
            · exact gained.fresh f before
            · rw [List.mem_singleton.mp last, ← gained.range.1, ← gained.range.2]
              exact ⟨unfresh.1, range⟩
        have backed' : Backed w.low (w'.requestPage pid (virt + frames.length) luck).1.phys rest := by
          rw [stepped]
          exact backed.2.2
        obtain ⟨w'', frames', runs, gained', long⟩ := ih more backed' fun k bound => absent k (by simp at bound ⊢; omega)
        refine ⟨w'', frames', ?_, gained', by simp at long ⊢; omega⟩
        unfold World.requestPages
        generalize w'.requestPage pid (virt + frames.length) luck = got at isFrame runs
        obtain ⟨g, result⟩ := got
        simp only at isFrame runs ⊢
        rw [isFrame]
        exact runs

/-- The table, the frames and the page tables of processes are the same, the hint of the allocator
apart. -/
structure Alike (w w' : World) : Prop where
  regions : w'.regions = w.regions
  maps : w'.maps = w.maps
  zombies : w'.zombies = w.zombies
  gone : w'.gone = w.gone
  others : w'.others = w.others
  doubleFrees : w'.doubleFrees = w.doubleFrees
  used : w'.phys.used = w.phys.used
  range : w'.phys.first = w.phys.first ∧ w'.phys.total = w.phys.total
  hint : w.phys.first ≤ w.phys.nextFreeHint → w'.phys.first ≤ w'.phys.nextFreeHint

structure Unchanged (w w' : World) : Prop extends Alike w w' where
  low : w'.low = w.low
  other : w'.other = w.other
  usedPages : w'.usedPages = w.usedPages

theorem Unchanged.refl : Unchanged w w :=
  ⟨⟨rfl, rfl, rfl, rfl, rfl, rfl, rfl, ⟨rfl, rfl⟩, fun hint => hint⟩, rfl, rfl, rfl⟩

theorem Unchanged.same (unchanged : Unchanged w w') : Same w w' :=
  ⟨unchanged.low, unchanged.maps, unchanged.other, unchanged.regions, unchanged.used,
    unchanged.usedPages⟩

theorem taken_unchanged {p' : Phys} (alloc : w.phys.alloc = some (frame, p'))
    (hint : w.phys.first ≤ w.phys.nextFreeHint) :
    Unchanged w (World.pagingFreePhysical { w with phys := p', usedPages := w.usedPages + 1 } frame) := by
  obtain ⟨unused, range, rfl⟩ := w.phys.alloc_spec alloc hint
  have freed : World.physFreePage { w with phys := w.phys.set frame, usedPages := w.usedPages + 1 }
      frame = { w with phys := (w.phys.set frame).clear frame, usedPages := w.usedPages + 1 } :=
    physFreePage_used range (update_self _ _ _)
  unfold World.pagingFreePhysical
  rw [freed]
  exact ⟨⟨rfl, rfl, rfl, rfl, rfl, rfl, clear_set unused, ⟨rfl, rfl⟩, fun _ =>
    Nat.le_min.mpr ⟨Nat.le_succ_of_le range.1, range.1⟩⟩, rfl, rfl, rfl⟩

theorem requestPage_fails {page : Nat} {luck : Bool × Bool} {rest : List (Bool × Bool)}
    (hint : w.phys.first ≤ w.phys.nextFreeHint) (fails : FailsFirst w.low w.phys (luck :: rest)) :
    (w.requestPage pid page luck).2 = none ∧ Unchanged w (w.requestPage pid page luck).1 := by
  unfold FailsFirst at fails
  unfold World.requestPage World.pagingAllocPage
  cases alloc : w.phys.alloc with
  | none => exact ⟨rfl, .refl⟩
  | some got =>
      obtain ⟨frame, p'⟩ := got
      rw [alloc] at fails
      have back := taken_unchanged alloc hint
      simp only at fails ⊢
      cases there : w.low frame with
      | some other =>
          rw [there] at fails
          have differ : other ≠ frame := by
            rcases fails with ⟨nothing, -⟩ | ⟨-, differ⟩
            · cases nothing
            · exact fun same => differ (by rw [same])
          simp only [if_neg differ]
          exact ⟨trivial, back⟩
      | none =>
          rw [there] at fails
          have unlucky : ¬ (luck.1 = true ∧ luck.2 = true) := by
            rcases fails with ⟨-, unlucky⟩ | ⟨something, -⟩
            · exact unlucky
            · exact absurd rfl something
          cases lucky : luck.1 with
          | false =>
              simp only [Bool.false_eq_true, if_false]
              exact ⟨trivial, back⟩
          | true =>
              -- the alias was made for this page, and goes with it
              have noTables : luck.2 = false := by
                cases tables : luck.2 with
                | false => rfl
                | true => exact absurd ⟨lucky, tables⟩ unlucky
              simp only [if_true, noTables, Bool.false_eq_true, false_and, if_false]
              refine ⟨trivial, ?_⟩
              have gone : update (update w.low frame (some frame)) frame none = w.low := by
                rw [update_idem, ← there, update_eq_self]
              unfold World.pagingFreePage World.setLow
              simp only [Function.update_self, gone]
              exact back

theorem Sound.alike (sound : Sound leaving w) (alike : Alike w w') : Sound leaving w' := by
  obtain ⟨regions, maps, zombies, gone, others, doubleFrees, used, range, hint⟩ := alike
  have running : ∀ pid, w'.running pid = w.running pid := fun pid => by
    unfold World.running
    rw [zombies, gone]
  refine ⟨regions ▸ sound.length, hint sound.hint, fun i region isRegion => ?_, ?_, ?_, ?_, ?_, ?_,
    doubleFrees.trans sound.once⟩
  · rw [regions] at isRegion
    have ok := sound.regions i region isRegion
    refine { ok with own := ?_ }
    rw [used, range.1, range.2, others]
    exact ok.own
  · rw [regions]
    exact sound.apart
  · rw [regions, used, range.1, range.2, others]
    exact sound.kept
  · rw [used, others]
    exact sound.others
  · rw [regions, maps]
    simp only [running]
    exact sound.attached
  · rw [regions, maps, zombies]
    exact sound.mapped

theorem return_unchanged (status : Status) : Unchanged w (w.return pid status) :=
  ⟨⟨rfl, rfl, rfl, rfl, rfl, rfl, rfl, ⟨rfl, rfl⟩, fun hint => hint⟩, rfl, rfl, rfl⟩

theorem Sound.return (sound : Sound leaving w) (pid : Nat) (status : Status) :
    Sound leaving (w.return pid status) :=
  sound.alike (return_unchanged status).toAlike

theorem requestSlot_ok {size index : Nat} {memory : Bool}
    (isSlot : w.requestSlot pid size memory = .ok index) :
      (0 < (size + pageSize - 1) / pageSize ∧ (size + pageSize - 1) / pageSize ≤ shmSlotPages) ∧
      (∃ region, w.regions[index]? = some region ∧ region.inUse = false) ∧
      w.shmRangeIsClear pid (slotAddr index) ((size + pageSize - 1) / pageSize) = true := by
  unfold World.requestSlot at isSlot
  split at isSlot
  · cases isSlot
  · next fits =>
    split at isSlot
    · cases isSlot
    · next i found =>
      split at isSlot
      · cases isSlot
      · split at isSlot
        · cases isSlot
        · next isClear =>
          split at isSlot
          · cases isSlot
          · cases isSlot
            obtain ⟨bound, notUsed, -⟩ := List.findIdx?_eq_some_iff_getElem.mp found
            simp only [shmSlotPages, pageSize] at fits ⊢
            refine ⟨⟨by omega, by omega⟩, ⟨_, List.getElem?_eq_getElem bound, by simpa using notUsed⟩, ?_⟩
            exact Decidable.not_not.mp isClear

theorem slotAddr_apart {i j k l : Nat} (same : slotAddr i + k = slotAddr j + l)
    (small : k < shmSlotPages) (small' : l < shmSlotPages) : i = j := by
  simp only [slotAddr, shmSlotPages] at *
  omega

theorem Sound.register {index id size : Nat} {frames : List Nat} (sound : Sound none w)
    (running : w.running pid)
    (isFree : ∃ region, w.regions[index]? = some region ∧ region.inUse = false)
    (gained : Gained w w' pid (slotAddr index) frames)
    (long : 0 < frames.length ∧ frames.length ≤ shmSlotPages) : Sound none { w' with
      regions := w'.regions.set index ⟨true, id, size, frames.length, slotAddr index, pid, frames, [pid]⟩ } := by
  obtain ⟨old, isOld, unused⟩ := isFree
  obtain ⟨regions, zombies, gone, others, once⟩ := gained.rest
  have isRunning : ∀ q, w.running q → q ∉ w'.zombies ∧ q ∉ w'.gone := fun q is => by
    rw [zombies, gone]
    exact is
  have noFrames := (sound.regions index old isOld).free unused
  have bound : index < w.regions.length := (List.getElem?_eq_some_iff.mp isOld).1
  have cases' : ∀ {j : Nat} {region : Region},
      (w'.regions.set index ⟨true, id, size, frames.length, slotAddr index, pid, frames,
      [pid]⟩)[j]? = some region → (j = index ∧ region = ⟨true, id, size, frames.length, slotAddr index, pid, frames, [pid]⟩) ∨
        (j ≠ index ∧ w.regions[j]? = some region) := fun {j region} isRegion => by
    rw [regions] at isRegion
    by_cases same : j = index
    · subst same
      rw [List.getElem?_set_self bound] at isRegion
      exact .inl ⟨rfl, (Option.some.inj isRegion).symm⟩
    · rw [List.getElem?_set_ne (Ne.symm same)] at isRegion
      exact .inr ⟨same, isRegion⟩
  have here : (w'.regions.set index ⟨true, id, size, frames.length, slotAddr index, pid, frames,
      [pid]⟩)[index]? =
      some ⟨true, id, size, frames.length, slotAddr index, pid, frames, [pid]⟩ := by
    rw [regions]
    exact List.getElem?_set_self bound
  have there : ∀ {j : Nat} {region : Region}, j ≠ index → w.regions[j]? = some region →
      (w'.regions.set index
      ⟨true, id, size, frames.length, slotAddr index, pid, frames, [pid]⟩)[j]? = some region :=
      fun {j region} differ isRegion => by
    rw [regions, List.getElem?_set_ne (Ne.symm differ)]
    exact isRegion
  have taken : ∀ {j : Nat} {region : Region}, w.regions[j]? = some region →
    ∀ frame ∈ region.physPages, frame ∉ frames :=
    fun {j region} isRegion f inside new => by
      have used := ((sound.regions j region isRegion).own f inside).1
      rw [(gained.fresh f new).1] at used
      cases used
  refine ⟨?_, gained.hint, fun j region isRegion => ?_,
    fun i j region region' isRegion isRegion' differ f inside => ?_,
    fun f low high used => ?_, fun f isOther => ?_, fun j region isRegion q attached _ => ?_,
    fun q page f isMap => ?_, once.trans sound.once⟩
  · rw [List.length_set, regions]
    exact sound.length
  · rcases cases' isRegion with ⟨rfl, rfl⟩ | ⟨-, before⟩
    · refine ⟨nofun, fun _ => List.cons_ne_nil _ _, fun _ => ⟨rfl, rfl⟩, long.2,
        List.nodup_singleton _, gained.distinct, fun f inside => ?_⟩
      obtain ⟨notUsed, range⟩ := gained.fresh f inside
      refine ⟨?_, ?_, ?_⟩
      · rw [gained.used]
        simp [inside]
      · simp only [gained.range.1, gained.range.2]
        exact range
      · simp only [others]
        cases isOther : w.others f with
        | false => rfl
        | true => rw [sound.others f isOther] at notUsed; cases notUsed
    · have ok := sound.regions j region before
      refine { ok with own := fun f inside => ?_ }
      obtain ⟨used, range, notOther⟩ := ok.own f inside
      refine ⟨?_, ?_, ?_⟩
      · rw [gained.used, used]
        rfl
      · simp only [gained.range.1, gained.range.2]
        exact range
      · simp only [others]
        exact notOther
  · rcases cases' isRegion with ⟨rfl, rfl⟩ | ⟨-, before⟩ <;>
      rcases cases' isRegion' with ⟨rfl, rfl⟩ | ⟨-, before'⟩
    · exact absurd rfl differ
    · exact fun inside' => taken before' f inside' inside
    · exact taken before f inside
    · exact sound.apart i j region region' before before' differ f inside
  · rw [gained.used] at used
    rw [gained.range.1] at low
    rw [gained.range.2] at high
    simp only [Bool.or_eq_true, decide_eq_true_eq] at used
    rcases used with before | new
    · simp only [others]
      refine (sound.kept f low high before).imp_right fun ⟨j, region, isRegion, inside⟩ => ?_
      refine ⟨j, region, there ?_ isRegion, inside⟩
      rintro rfl
      rw [isOld] at isRegion
      cases isRegion
      rw [noFrames.1] at inside
      cases inside
    · exact .inr ⟨index, _, here, new⟩
  · simp only [others] at isOther
    rw [gained.used, sound.others f isOther]
    rfl
  · rcases cases' isRegion with ⟨rfl, rfl⟩ | ⟨differ, before⟩
    · rw [List.mem_singleton.mp attached]
      exact ⟨isRunning pid running, gained.maps.self⟩
    · obtain ⟨isRun, all⟩ := sound.attached j region before q attached nofun
      refine ⟨isRunning q isRun, fun k f isF => ?_⟩
      rw [gained.maps.others q _ fun _ l bound same => ?_]
      · exact all k f isF
      · have small := (sound.regions j region before).small
        have inside := (List.getElem?_eq_some_iff.mp isF).1
        exact differ (slotAddr_apart same (by omega) (by omega))
  · by_cases new : q = pid ∧ ∃ k < frames.length, page = slotAddr index + k
    · obtain ⟨rfl, k, inside, rfl⟩ := new
      have isFrame := gained.maps.self k _ (List.getElem?_eq_getElem inside)
      rw [isFrame] at isMap
      cases isMap
      exact ⟨index, _, here, ⟨k, rfl, List.getElem?_eq_getElem inside⟩, .inl List.mem_cons_self⟩
    · rw [gained.maps.others q page fun isPid k inside same => new ⟨isPid, k, inside, same⟩] at isMap
      obtain ⟨j, region, isRegion, onPage, who⟩ := sound.mapped q page f isMap
      refine ⟨j, region, there ?_ isRegion, onPage, ?_⟩
      · rintro rfl
        obtain ⟨k, -, isF⟩ := onPage
        rw [isOld] at isRegion
        cases isRegion
        rw [noFrames.1] at isF
        cases isF
      · simp only [zombies]
        exact who

theorem Unchanged.return (unchanged : Unchanged w w') (pid : Nat) (status : Status) :
    Unchanged w (w'.return pid status) :=
  ⟨⟨unchanged.regions, unchanged.maps, unchanged.zombies, unchanged.gone, unchanged.others,
    unchanged.doubleFrees, unchanged.used, unchanged.range,
    unchanged.hint⟩, unchanged.low, unchanged.other, unchanged.usedPages⟩

/-- A call keeps the invariant, and leaves everything as it is when it fails. -/
structure Called (w w' : World) (pid : Nat) : Prop where
  sound : Sound none w'
  refused : w'.status pid ≠ .success → Same w w'

theorem Sound.refused {status : Status} (sound : Sound none w) (unchanged : Unchanged w w') :
    Called w (w'.return pid status) pid :=
  ⟨sound.alike (unchanged.return pid status).toAlike, fun _ => (unchanged.return pid status).same⟩

theorem Sound.granted (sound : Sound none w') : Called w (w'.return pid .success) pid :=
  ⟨sound.return pid .success, fun failed => absurd (update_self _ _ _) failed⟩

theorem Sound.request {size id : Nat} {memory : Bool} {luck : Nat → Bool × Bool}
    (sound : Sound none w) (running : w.running pid)
    (requestCovered : w.RequestCovered pid size memory luck) :
    Called w (w.request pid size memory luck id) pid := by
  unfold World.request
  cases isSlot : w.requestSlot pid size memory with
  | error status => exact sound.refused .refl
  | ok index =>
      obtain ⟨⟨some, small⟩, isFree, isClear⟩ := requestSlot_ok isSlot
      have covered := requestCovered index isSlot
      generalize (size + pageSize - 1) / pageSize = pages at covered some small isClear ⊢
      dsimp only
      have isAddr : shmVaBase + index * shmSlotPages = slotAddr index := rfl
      simp only [isAddr]
      rcases covered with backed | fails
      · have start : Gained w w pid (slotAddr index) [] :=
          ⟨⟨(by rintro _ _ ⟨⟩), fun _ _ _ => rfl⟩, rfl, fun f => by simp, ⟨rfl, rfl⟩, sound.hint, fun _ _ => rfl, ⟨rfl, rfl, rfl, rfl, rfl⟩,
            List.nodup_nil, (by rintro _ ⟨⟩)⟩
        obtain ⟨w', frames, runs, gained, long⟩ := requestPages_backed start backed fun k bound =>
          clear_absent isClear k (by simpa using bound)
        simp only [List.length_nil, List.length_map, List.length_range, Nat.zero_add] at long
        rw [runs]
        refine Sound.granted ?_
        have registered := @Sound.register _ _ _ _ id size _ sound running isFree gained (by omega)
        rw [long] at registered
        exact registered
      · obtain ⟨rest, isPages⟩ : ∃ rest, pages = rest + 1 := ⟨pages - 1, by omega⟩
        rw [isPages, List.range_succ_eq_map, List.map_cons] at fails ⊢
        obtain ⟨isNone, unchanged⟩ := @requestPage_fails _ pid (slotAddr index + 0) _ _ sound.hint fails
        unfold World.requestPages
        generalize w.requestPage pid (slotAddr index + 0) (luck 0) = got at isNone unchanged
        obtain ⟨g, result⟩ := got
        simp only at isNone unchanged ⊢
        rw [isNone]
        exact sound.refused unchanged

theorem attachPages_spec {virt p : Nat} {luck : Nat → Bool} {rest frames : List Nat}
    (rests : w' = { w with maps := w'.maps }) (on : MapsOn w.maps w'.maps pid virt frames)
    (isP : p = frames.length)
    (absent : ∀ k < frames.length + rest.length, w.maps pid (virt + k) = none) :
      ((World.attachPages pid virt luck rest p w').2 = true ∧
      (World.attachPages pid virt luck rest p w').1 =
      { w with maps := (World.attachPages pid virt luck rest p w').1.maps } ∧
      MapsOn w.maps (World.attachPages pid virt luck rest p w').1.maps pid virt (frames ++ rest)) ∨
      (World.attachPages pid virt luck rest p w').2 = false ∧
      (World.attachPages pid virt luck rest p w').1 = w := by
  induction rest generalizing w' p frames with
  | nil =>
      refine .inl ⟨rfl, rests, ?_⟩
      rw [List.append_nil]
      exact on
  | cons frame rest ih =>
      subst isP
      unfold World.attachPages
      split
      · have next := @ih (w'.setMap pid (virt + frames.length) (some frame)) (frames.length + 1)
          (frames ++ [frame]) (by rw [rests]; rfl) (on.snoc frame) (by simp)
          fun k bound => absent k (by simp at bound ⊢; omega)
        rwa [List.append_assoc] at next
      · -- what was mapped so far is taken away again, and there was nothing
        refine .inr ⟨rfl, ?_⟩
        obtain ⟨unmapped, maps⟩ := @shmUnmapRange_eq w' pid virt frames.length
        have back : (w'.shmUnmapRange pid virt frames.length).maps = w.maps := by
          funext q page
          rw [maps]
          split
          · next inside =>
            obtain ⟨rfl, k, bound, rfl⟩ := inside
            exact (absent k (by omega)).symm
          · next outside =>
            exact on.others q page fun isPid k bound same => outside ⟨isPid, k, bound, same⟩
        rw [unmapped, back, rests]

theorem findIdx_region {regions : List Region} {test : Region → Bool}
    (found : regions.findIdx? test = some i) (isRegion : regions[i]? = some region) :
    test region = true := by
  obtain ⟨bound, matched, -⟩ := List.findIdx?_eq_some_iff_getElem.mp found
  rw [List.getElem?_eq_getElem bound] at isRegion
  cases isRegion
  exact matched

theorem Sound.join (sound : Sound none w) (running : w.running pid)
    (isRegion : w.regions[i]? = some region) (isUsed : region.inUse = true)
    (outside : pid ∉ region.attachedPids) {maps : Nat → Nat → Option Nat}
    (on : MapsOn w.maps maps pid region.virtAddr region.physPages) : Sound none { w with
      maps := maps
      regions := w.regions.set i { region with attachedPids := region.attachedPids ++ [pid] } } := by
  have bound : i < w.regions.length := (List.getElem?_eq_some_iff.mp isRegion).1
  have ok := sound.regions i region isRegion
  have place := (ok.place isUsed).1
  have cases' : ∀ {j : Nat} {r : Region},
      (w.regions.set i { region with attachedPids := region.attachedPids ++ [pid] })[j]? = some r →
      ∃ old, w.regions[j]? = some old ∧ r.physPages = old.physPages ∧
        (j = i ∧ old = region ∧ r = { region with attachedPids := region.attachedPids ++ [pid] } ∨ j ≠ i ∧ r = old) :=
    fun {j r} isR => by
      by_cases same : j = i
      · subst same
        rw [List.getElem?_set_self bound] at isR
        cases isR
        exact ⟨region, isRegion, rfl, .inl ⟨rfl, rfl, rfl⟩⟩
      · rw [List.getElem?_set_ne (Ne.symm same)] at isR
        exact ⟨r, isR, rfl, .inr ⟨same, rfl⟩⟩
  have there : ∀ {j : Nat} {r : Region}, w.regions[j]? = some r →
      ∃ new, (w.regions.set i { region with attachedPids := region.attachedPids ++ [pid] })[j]? = some new ∧
        new.physPages = r.physPages ∧ r.attachedPids ⊆ new.attachedPids := fun {j r} isR => by
    by_cases same : j = i
    · subst same
      rw [isRegion] at isR
      cases isR
      exact ⟨_, List.getElem?_set_self bound, rfl, List.subset_append_left _ _⟩
    · exact ⟨r, by rw [List.getElem?_set_ne (Ne.symm same)]; exact isR, rfl, fun _ inside => inside⟩
  refine ⟨?_, sound.hint, fun j r isR => ?_, fun j k r r' isR isR' differ f inside => ?_,
    fun f low high used => ?_, sound.others, fun j r isR q attached _ => ?_, fun q page f isMap =>
    ?_, sound.once⟩
  · rw [List.length_set]
    exact sound.length
  · obtain ⟨old, isOld, -, ⟨rfl, rfl, rfl⟩ | ⟨-, rfl⟩⟩ := cases' isR
    · refine ⟨fun unused => absurd isUsed (by rw [unused]; exact nofun), fun _ =>
        List.append_ne_nil_of_right_ne_nil _ (List.cons_ne_nil _ _), ok.place, ok.small, ?_, ok.framesOnce, ok.own⟩
      exact List.nodup_append.mpr ⟨ok.attachedOnce, List.nodup_singleton _, fun a inside b last => by
        rw [List.mem_singleton.mp last]
        rintro rfl
        exact outside inside⟩
    · exact { sound.regions j _ isOld with }
  · obtain ⟨old, isOld, same, -⟩ := cases' isR
    obtain ⟨old', isOld', same', -⟩ := cases' isR'
    rw [same]  at inside
    rw [same']
    exact sound.apart j k old old' isOld isOld' differ f inside
  · refine (sound.kept f low high used).imp_right fun ⟨j, r, isR, inside⟩ => ?_
    obtain ⟨new, isNew, same, -⟩ := there isR
    exact ⟨j, new, isNew, same ▸ inside⟩
  · obtain ⟨old, isOld, same, who⟩ := cases' isR
    have old_ok : ∀ q ∈ old.attachedPids, w.running q ∧ ∀ (k f : Nat), old.physPages[k]? = some f →
        maps q (slotAddr j + k) = some f := fun q inside => by
      obtain ⟨isRun, all⟩ := sound.attached j old isOld q inside nofun
      refine ⟨isRun, fun k f isF => ?_⟩
      rw [on.others q _ fun isPid l inBound samePage => ?_]
      · exact all k f isF
      · have small := (sound.regions j old isOld).small
        have kBound := (List.getElem?_eq_some_iff.mp isF).1
        rw [place] at samePage
        have sameSlot := slotAddr_apart samePage (by omega) (Nat.lt_of_lt_of_le inBound ok.small)
        subst sameSlot
        rw [isRegion] at isOld
        cases isOld
        exact outside (isPid ▸ inside)
    rcases who with ⟨rfl, rfl, rfl⟩ | ⟨-, rfl⟩
    · rcases List.mem_append.mp attached with before | last
      · exact old_ok q before
      · rw [List.mem_singleton.mp last, ← place]
        exact ⟨running, on.self⟩
    · exact old_ok q attached
  · by_cases new : q = pid ∧ ∃ k < region.physPages.length, page = region.virtAddr + k
    · obtain ⟨rfl, k, inside, rfl⟩ := new
      have isFrame := on.self k _ (List.getElem?_eq_getElem inside)
      simp only at isMap
      rw [isFrame] at isMap
      cases isMap
      refine ⟨i, _, List.getElem?_set_self bound, ⟨k, by rw [place], List.getElem?_eq_getElem inside⟩, .inl ?_⟩
      exact List.mem_append_right _ List.mem_cons_self
    · simp only at isMap
      rw [on.others q page fun isPid k inside same => new ⟨isPid, k, inside, same⟩] at isMap
      obtain ⟨j, r, isR, onPage, who⟩ := sound.mapped q page f isMap
      obtain ⟨new, isNew, same, sub⟩ := there isR
      exact ⟨j, new, isNew, same ▸ onPage, who.imp_left fun inside => sub inside⟩

theorem Sound.attach {id : Nat} {family : Bool} {luck : Nat → Bool} (sound : Sound none w)
    (running : w.running pid) : Called w (w.attach pid id family luck) pid := by
  unfold World.attach
  split
  · exact sound.refused .refl
  · next index found =>
    split
    · exact sound.refused .refl
    · next region isRegion =>
      have isUsed : region.inUse = true := by
        have matched := findIdx_region found isRegion
        simp only [Bool.and_eq_true] at matched
        exact matched.1
      have place := (sound.regions index region isRegion).place isUsed
      split
      · exact sound.refused .refl
      · split
        · exact sound.granted
        · next outside =>
          split
          · exact sound.refused .refl
          · split
            · exact sound.refused .refl
            · next isClear =>
              have absent := clear_absent (Decidable.not_not.mp isClear)
              have spec := @attachPages_spec w w pid region.virtAddr 0 luck region.physPages [] rfl ⟨nofun, fun _ _ _ => rfl⟩ rfl
                fun k bound => absent_none (absent k (by simpa [place.2] using bound))
              generalize World.attachPages pid region.virtAddr luck region.physPages 0 w = got at spec
              obtain ⟨g, result⟩ := got
              simp only [List.nil_append] at spec
              rcases spec with ⟨rfl, isG, on⟩ | ⟨rfl, rfl⟩
              · refine Sound.granted ?_
                have joined := sound.join running isRegion isUsed outside on
                rw [isG]
                exact joined
              · exact sound.refused .refl

theorem swapRemove_perm {pids : List Nat} (distinct : pids.Nodup) (inside : pid ∈ pids) :
    (swapRemove pid pids).Perm (pids.erase pid) := by
  obtain ⟨init, last, rfl⟩ := (List.eq_nil_or_concat' pids).resolve_left (List.ne_nil_of_mem inside)
  unfold swapRemove
  have isLast : (init ++ [last]).getLastD 0 = last := by simp
  rw [isLast]
  by_cases before : pid ∈ init
  · have bound : init.idxOf pid < init.length := List.idxOf_lt_length_iff.mpr before
    rw [List.idxOf_append_of_mem before, List.set_append_left _ _ bound, List.dropLast_concat,
      List.erase_append_left _ before]
    refine (List.set_perm_cons_eraseIdx bound last).trans ?_
    rw [← List.erase_eq_eraseIdx_of_idxOf rfl]
    exact (List.perm_append_singleton _ _).symm
  · have isPid : pid = last :=
      (List.mem_append.mp inside).elim (fun is => absurd is before) List.mem_singleton.mp
    subst isPid
    rw [List.idxOf_append_of_notMem before, List.erase_append_right _ before]
    simp

theorem swapRemove_mem {pids : List Nat} {q : Nat} (distinct : pids.Nodup) (inside : pid ∈ pids) :
    q ∈ swapRemove pid pids ↔ q ≠ pid ∧ q ∈ pids :=
  (swapRemove_perm distinct inside).mem_iff.trans distinct.mem_erase_iff

theorem swapRemove_nil {pids : List Nat} (distinct : pids.Nodup) (inside : pid ∈ pids)
    (empty : swapRemove pid pids = []) : pids = [pid] := by
  have erased := (swapRemove_perm distinct inside).symm
  rw [empty, List.perm_nil] at erased
  have whole := List.perm_cons_erase inside
  rw [erased] at whole
  exact List.perm_singleton.mp whole

/-- What one round leaves alone, and that the process is detached. -/
structure Detached (w w' : World) (pid i : Nat) : Prop where
  sound : Sound (some pid) w'
  maps : w'.maps = w.maps
  zombies : w'.zombies = w.zombies
  gone : w'.gone = w.gone
  others : ∀ j, j ≠ i → w'.regions[j]? = w.regions[j]?
  left : ∀ region, w'.regions[i]? = some region → pid ∉ region.attachedPids

theorem Sound.detach (sound : Sound (some pid) w) (isRegion : w.regions[i]? = some region)
    (inside : pid ∈ region.attachedPids)
    (stays : swapRemove pid region.attachedPids ≠ [])
    (loose : ∀ page frame, w.maps pid page = some frame → pid ∈ w.zombies) :
    Detached w { w with regions := w.regions.set i { region with attachedPids := swapRemove pid region.attachedPids } } pid i := by
  have bound : i < w.regions.length := (List.getElem?_eq_some_iff.mp isRegion).1
  have ok := sound.regions i region isRegion
  have remains : ∀ q, q ∈ swapRemove pid region.attachedPids ↔
    q ≠ pid ∧ q ∈ region.attachedPids := fun q =>
    swapRemove_mem ok.attachedOnce inside
  have cases' : ∀ {j : Nat} {r : Region},
      (w.regions.set i { region with attachedPids := swapRemove pid region.attachedPids })[j]? = some r →
        (j = i ∧ r = { region with attachedPids := swapRemove pid region.attachedPids }) ∨ (j ≠ i ∧ w.regions[j]? = some r) :=
    fun {j r} isR => by
      by_cases same : j = i
      · subst same
        rw [List.getElem?_set_self bound] at isR
        exact .inl ⟨rfl, (Option.some.inj isR).symm⟩
      · rw [List.getElem?_set_ne (Ne.symm same)] at isR
        exact .inr ⟨same, isR⟩
  have old : ∀ {j : Nat} {r : Region},
      (w.regions.set i { region with attachedPids := swapRemove pid region.attachedPids })[j]? = some r →
        ∃ before, w.regions[j]? = some before ∧ r.physPages = before.physPages ∧ ∀ q ∈ r.attachedPids, q ∈ before.attachedPids :=
    fun {j r} isR => by
      rcases cases' isR with ⟨rfl, rfl⟩ | ⟨-, isR⟩
      · exact ⟨region, isRegion, rfl, fun q is => ((remains q).mp is).2⟩
      · exact ⟨r, isR, rfl, fun q is => is⟩
  have there : ∀ {j : Nat} {r : Region}, w.regions[j]? = some r →
      ∃ new, (w.regions.set i { region with attachedPids := swapRemove pid region.attachedPids })[j]? = some new ∧
        new.physPages = r.physPages ∧ ∀ q ∈ r.attachedPids, q = pid ∨ q ∈ new.attachedPids := fun {j r} isR => by
    by_cases same : j = i
    · subst same
      rw [isRegion] at isR
      cases isR
      refine ⟨_, List.getElem?_set_self bound, rfl, fun q is => ?_⟩
      by_cases isPid : q = pid
      · exact .inl isPid
      · exact .inr ((remains q).mpr ⟨isPid, is⟩)
    · exact ⟨r, by rw [List.getElem?_set_ne (Ne.symm same)]; exact isR, rfl, fun _ is => .inr is⟩
  refine ⟨⟨?_, sound.hint, fun j r isR => ?_, fun j k r r' isR isR' differ f isF => ?_,
    fun f low high used => ?_, sound.others, fun j r isR q attached notLeaving => ?_,
    fun q page f isMap => ?_, sound.once⟩, rfl, rfl, rfl,
    fun j differ => List.getElem?_set_ne (Ne.symm differ), fun r isR => ?_⟩
  · rw [List.length_set]
    exact sound.length
  · rcases cases' isR with ⟨rfl, rfl⟩ | ⟨-, before⟩
    · refine ⟨fun unused => absurd ((ok.free unused).2 ▸ inside) List.not_mem_nil, fun _ => stays,
        ok.place, ok.small, ?_, ok.framesOnce, ok.own⟩
      exact (swapRemove_perm ok.attachedOnce inside).nodup_iff.mpr (ok.attachedOnce.erase pid)
    · exact { sound.regions j r before with }
  · obtain ⟨b, isB, same, -⟩ := old isR
    obtain ⟨b', isB', same', -⟩ := old isR'
    rw [same] at isF
    rw [same']
    exact sound.apart j k b b' isB isB' differ f isF
  · refine (sound.kept f low high used).imp_right fun ⟨j, r, isR, isF⟩ => ?_
    obtain ⟨new, isNew, same, -⟩ := there isR
    exact ⟨j, new, isNew, same ▸ isF⟩
  · obtain ⟨b, isB, same, who⟩ := old isR
    rw [same]
    exact sound.attached j b isB q (who q attached) notLeaving
  · obtain ⟨j, r, isR, onPage, who⟩ := sound.mapped q page f isMap
    obtain ⟨new, isNew, same, who'⟩ := there isR
    refine ⟨j, new, isNew, same ▸ onPage, ?_⟩
    rcases who with attached | zombie
    · rcases who' q attached with rfl | still
      · exact .inr (loose page f isMap)
      · exact .inl still
    · exact .inr zombie
  · simp only [List.getElem?_set_self bound] at isR
    cases isR
    exact fun still => ((remains pid).mp still).1 rfl

theorem Sound.dropRegion (sound : Sound (some pid) w) (isRegion : w.regions[i]? = some region)
    (freed : Freed w w' region.physPages)
    (quiet : ∀ q page frame, w.maps q page = some frame → frame ∉ region.physPages) :
    Detached w { w' with regions := w'.regions.set i .empty } pid i := by
  obtain ⟨regions, maps, zombies, gone, others⟩ := freed.rest
  have bound : i < w.regions.length := (List.getElem?_eq_some_iff.mp isRegion).1
  have ok := sound.regions i region isRegion
  have cases' : ∀ {j : Nat} {r : Region}, (w'.regions.set i .empty)[j]? = some r →
      (j = i ∧ r = .empty) ∨ (j ≠ i ∧ w.regions[j]? = some r) := fun {j r} isR => by
    rw [regions] at isR
    by_cases same : j = i
    · subst same
      rw [List.getElem?_set_self bound] at isR
      exact .inl ⟨rfl, (Option.some.inj isR).symm⟩
    · rw [List.getElem?_set_ne (Ne.symm same)] at isR
      exact .inr ⟨same, isR⟩
  have there : ∀ {j : Nat} {r : Region}, j ≠ i → w.regions[j]? = some r →
    (w'.regions.set i .empty)[j]? = some r :=
    fun {j r} differ isR => by
      rw [regions, List.getElem?_set_ne (Ne.symm differ)]
      exact isR
  have elsewhere : ∀ {j : Nat} {r : Region}, j ≠ i → w.regions[j]? = some r →
    ∀ f ∈ r.physPages, f ∉ region.physPages :=
    fun {j r} differ isR f isF => sound.apart j i r region isR isRegion differ f isF
  refine ⟨⟨?_, freed.hint sound.hint, fun j r isR => ?_, fun j k r r' isR isR' differ f isF => ?_,
    fun f low high used => ?_, fun f isOther => ?_, fun j r isR q attached notLeaving => ?_,
    fun q page f isMap => ?_,
    freed.once.trans sound.once⟩, maps, zombies, gone, fun j differ => ?_, fun r isR => ?_⟩
  · rw [List.length_set, regions]
    exact sound.length
  · rcases cases' isR with ⟨rfl, rfl⟩ | ⟨differ, before⟩
    · exact ⟨fun _ => ⟨rfl, rfl⟩, nofun, nofun, Nat.zero_le _, List.nodup_nil, List.nodup_nil, nofun⟩
    · have okR := sound.regions j r before
      refine { okR with own := fun f isF => ?_ }
      obtain ⟨used, range, notOther⟩ := okR.own f isF
      refine ⟨?_, ?_, ?_⟩
      · rw [freed.used, used]
        simpa using elsewhere differ before f isF
      · simp only [freed.range.1, freed.range.2]
        exact range
      · simp only [others]
        exact notOther
  · rcases cases' isR with ⟨rfl, rfl⟩ | ⟨-, before⟩ <;>
      rcases cases' isR' with ⟨rfl, rfl⟩ | ⟨-, before'⟩
    · exact absurd rfl differ
    · cases isF
    · exact List.not_mem_nil
    · exact sound.apart j k r r' before before' differ f isF
  · rw [freed.range.1] at low
    rw [freed.range.2] at high
    rw [freed.used] at used
    simp only [Bool.and_eq_true, decide_eq_true_eq] at used
    simp only [others]
    refine (sound.kept f low high used.1).imp_right fun ⟨j, r, isR, isF⟩ =>
      ⟨j, r, there ?_ isR, isF⟩
    rintro rfl
    rw [isRegion] at isR
    cases isR
    exact used.2 isF
  · simp only [others] at isOther
    rw [freed.used, sound.others f isOther]
    simp only [Bool.true_and, decide_eq_true_eq]
    intro isF
    rw [(ok.own f isF).2.2] at isOther
    cases isOther
  · rcases cases' isR with ⟨rfl, rfl⟩ | ⟨-, before⟩
    · cases attached
    · obtain ⟨isRun, all⟩ := sound.attached j r before q attached notLeaving
      refine ⟨?_, fun k f isF => ?_⟩
      · rw [zombies, gone]
        exact isRun
      · simp only [maps]
        exact all k f isF
  · simp only [maps] at isMap
    obtain ⟨j, r, isR, onPage, who⟩ := sound.mapped q page f isMap
    refine ⟨j, r, there ?_ isR, onPage, ?_⟩
    · rintro rfl
      rw [isRegion] at isR
      cases isR
      obtain ⟨k, -, isF⟩ := onPage
      exact quiet q page f isMap (List.mem_of_getElem? isF)
    · simp only [zombies]
      exact who
  · simp only [regions]
    exact List.getElem?_set_ne (Ne.symm differ)
  · simp only [regions, List.getElem?_set_self bound] at isR
    cases isR
    exact List.not_mem_nil

/-- Nobody maps the frames of a region that only this process is attached to. -/
def Quiet (w : World) (pid : Nat) : Prop :=
  ∀ (i : Nat) region, w.regions[i]? = some region → region.attachedPids = [pid] →
    ∀ q page frame, w.maps q page = some frame → frame ∉ region.physPages

theorem Sound.releaseRegion (sound : Sound (some pid) w)
      (quiet : ∀ region, w.regions[i]? = some region →
      region.attachedPids = [pid] → ∀ q page frame, w.maps q page = some frame →
      frame ∉ region.physPages)
    (loose : ∀ page frame, w.maps pid page = some frame → pid ∈ w.zombies) :
    Detached w (w.releaseRegion pid i) pid i := by
  have idle : (∀ region, w.regions[i]? = some region → pid ∉ region.attachedPids) →
    Detached w w pid i := fun left =>
    ⟨sound, rfl, rfl, rfl, fun _ _ => rfl, left⟩
  unfold World.releaseRegion
  split
  · next absent => exact idle fun region isRegion => by rw [absent] at isRegion; cases isRegion
  · next region isRegion =>
    have ok := sound.regions i region isRegion
    split
    · next outside =>
      refine idle fun r isR => ?_
      rw [isRegion] at isR
      cases isR
      rcases outside with unused | outside
      · rw [(ok.free (Bool.not_eq_true _ ▸ unused)).2]
        exact List.not_mem_nil
      · exact outside
    · next both =>
      have inside : pid ∈ region.attachedPids := Decidable.not_not.mp (not_or.mp both).2
      split
      · next empty =>
        have freed := freeFrames ok.framesOnce fun f isF => ⟨(ok.own f isF).1, (ok.own f isF).2.1⟩
        exact sound.dropRegion isRegion freed (quiet region isRegion (swapRemove_nil ok.attachedOnce inside empty))
      · next stays => exact sound.detach isRegion inside stays loose

/-- After the rounds up to `n`. -/
structure DetachedTo (w w' : World) (pid n : Nat) : Prop where
  sound : Sound (some pid) w'
  maps : w'.maps = w.maps
  zombies : w'.zombies = w.zombies
  others : ∀ j, n ≤ j → w'.regions[j]? = w.regions[j]?
  left : ∀ (j : Nat) region, j < n → w'.regions[j]? = some region → pid ∉ region.attachedPids

theorem Sound.releaseRegions (sound : Sound (some pid) w) (quiet : Quiet w pid)
    (loose : ∀ page frame, w.maps pid page = some frame → pid ∈ w.zombies) (n : Nat) :
    DetachedTo w ((List.range n).foldl (fun w index => w.releaseRegion pid index) w) pid n := by
  induction n with
  | zero => exact ⟨sound, rfl, rfl, fun _ _ => rfl,
    fun j region bound => absurd bound (Nat.not_lt_zero j)⟩
  | succ n ih =>
      rw [List.range_succ, List.foldl_append]
      simp only [List.foldl_cons, List.foldl_nil]
      have round := ih.sound.releaseRegion (i := n) (fun region isRegion alone q page f isMap => by
        rw [ih.others n (Nat.le_refl n)] at isRegion
        rw [ih.maps] at isMap
        exact quiet n region isRegion alone q page f isMap) (fun page f isMap => by
          rw [ih.maps] at isMap
          rw [ih.zombies]
          exact loose page f isMap)
      refine ⟨round.sound, round.maps.trans ih.maps, round.zombies.trans ih.zombies,
        fun j bound => ?_, fun j region bound isRegion => ?_⟩
      · rw [round.others j (by omega), ih.others j (by omega)]
      · by_cases isN : j = n
        · exact round.left region (isN ▸ isRegion)
        · rw [round.others j isN] at isRegion
          exact ih.left j region (by omega) isRegion

theorem Sound.releaseOwner (sound : Sound (some pid) w) (quiet : Quiet w pid)
    (loose : ∀ page frame, w.maps pid page = some frame → pid ∈ w.zombies) :
    Sound none (w.releaseOwner pid) := by
  have released := sound.releaseRegions quiet loose shmMaxRegions
  have after := released.sound
  unfold World.releaseOwner
  refine { after with attached := fun i region isRegion q attached _ => after.attached i region isRegion q attached ?_ }
  intro same
  have bound := (List.getElem?_eq_some_iff.mp isRegion).1
  rw [after.length] at bound
  exact released.left i region bound isRegion (Option.some.inj same ▸ attached)

theorem destroyDirectory_maps {q page : Nat}
    (isMap : (w.destroyDirectory pid).maps q page = some frame) :
    q ≠ pid ∧ w.maps q page = some frame := by
  simp only [World.destroyDirectory, update_apply] at isMap
  split at isMap
  · cases isMap
  · next differ => exact ⟨differ, isMap⟩

theorem Sound.exit {onCpu : Bool} (sound : Sound none w) (covered : w.ExitCovered pid onCpu) :
    Sound none (w.exit pid onCpu) := by
  have still : ∀ (i : Nat) region, w.regions[i]? = some region → region.attachedPids = [pid] →
      onCpu = false ∧ ∀ q page f, q ≠ pid → w.maps q page = some f → f ∉ region.physPages :=
      fun i region isRegion alone => by
    have ok := sound.regions i region isRegion
    have isUsed : region.inUse = true := by
      cases used : region.inUse with
      | true => rfl
      | false => rw [(ok.free used).2] at alone; cases alone
    obtain ⟨off, reaped⟩ := covered region (List.mem_of_getElem? isRegion) isUsed alone
    refine ⟨off, fun q page f differ isMap isF => ?_⟩
    obtain ⟨j, r, isR, ⟨k, isPage, isK⟩, who⟩ := sound.mapped q page f isMap
    have same : j = i := by
      by_contra other
      exact sound.apart j i r region isR isRegion other f (List.mem_of_getElem? isK) isF
    subst same
    rw [isRegion] at isR
    cases isR
    rcases who with attached | zombie
    · rw [alone] at attached
      exact differ (List.mem_singleton.mp attached)
    · obtain ⟨place, pages⟩ := ok.place isUsed
      have none := reaped q zombie k (pages ▸ (List.getElem?_eq_some_iff.mp isK).1)
      rw [place, ← isPage, isMap] at none
      cases none
  cases onCpu with
  | true =>
      refine Sound.releaseOwner ?_ (fun i region isRegion alone =>
        absurd (still i region isRegion alone).1 nofun) fun _ _ _ => List.mem_cons_self
      refine { sound with
        regions := fun i region isRegion => { sound.regions i region isRegion with }
        attached := fun i region isRegion q attached notLeaving => ?_
        mapped := fun q page f isMap => ?_ }
      · obtain ⟨isRun, all⟩ := sound.attached i region isRegion q attached nofun
        refine ⟨⟨fun zombie => ?_, isRun.2⟩, all⟩
        rcases List.mem_cons.mp zombie with rfl | before
        · exact notLeaving rfl
        · exact isRun.1 before
      · obtain ⟨i, region, isRegion, onPage, who⟩ := sound.mapped q page f isMap
        exact ⟨i, region, isRegion, onPage, who.imp_right (List.mem_cons_of_mem _)⟩
  | false =>
      refine Sound.releaseOwner ?_ (fun i region isRegion alone q page f isMap => ?_) fun page f isMap => ?_
      · refine { sound with
          regions := fun i region isRegion => { sound.regions i region isRegion with }
          attached := fun i region isRegion q attached notLeaving => ?_
          mapped := fun q page f isMap => ?_ }
        · have differ : q ≠ pid := fun same => notLeaving (congrArg some same)
          obtain ⟨isRun, all⟩ := sound.attached i region isRegion q attached nofun
          refine ⟨⟨isRun.1, fun gone => (List.mem_cons.mp gone).elim differ isRun.2⟩, fun k f isF => ?_⟩
          exact (congrFun (update_of_ne differ _ _) _).trans (all k f isF)
        · exact sound.mapped q page f (destroyDirectory_maps isMap).2
      · obtain ⟨differ, before⟩ := destroyDirectory_maps isMap
        exact (still i region isRegion alone).2 q page f differ before
      · exact absurd rfl (destroyDirectory_maps isMap).1

theorem Sound.reap (sound : Sound none w) (zombie : pid ∈ w.zombies) :
    Sound none { w.destroyDirectory pid with zombies := w.zombies.filter (· ≠ pid) } := by
  refine { sound with
    regions := fun i region isRegion => { sound.regions i region isRegion with }
    attached := fun i region isRegion q attached _ => ?_
    mapped := fun q page f isMap => ?_ }
  · obtain ⟨isRun, all⟩ := sound.attached i region isRegion q attached nofun
    have differ : q ≠ pid := fun same => isRun.1 (same ▸ zombie)
    refine ⟨⟨fun inside => isRun.1 (List.mem_filter.mp inside).1,
      fun gone => (List.mem_cons.mp gone).elim differ isRun.2⟩, fun k f isF => ?_⟩
    exact (congrFun (update_of_ne differ _ _) _).trans (all k f isF)
  · obtain ⟨differ, before⟩ := destroyDirectory_maps isMap
    obtain ⟨i, region, isRegion, onPage, who⟩ := sound.mapped q page f before
    exact ⟨i, region, isRegion, onPage,
      who.imp_right fun inside => List.mem_filter.mpr ⟨inside, by simpa using differ⟩⟩

theorem Sound.take {phys : Phys} (sound : Sound none w)
    (alloc : w.phys.alloc = some (frame, phys)) : Sound none { w with
      phys := phys
      usedPages := w.usedPages + 1
      others := update w.others frame true } := by
  obtain ⟨unused, range, rfl⟩ := w.phys.alloc_spec alloc sound.hint
  have differ : ∀ {i : Nat} {region : Region}, w.regions[i]? = some region →
    ∀ f ∈ region.physPages, f ≠ frame :=
    fun {i region} isRegion f isF same => by
      have used := ((sound.regions i region isRegion).own f isF).1
      rw [same, unused] at used
      cases used
  refine { sound with
    hint := Nat.le_succ_of_le range.1
    regions := fun i region isRegion => ?_
    kept := fun f low high used => ?_
    others := fun f isOther => ?_
    attached := sound.attached }
  · have ok := sound.regions i region isRegion
    refine { ok with own := fun f isF => ?_ }
    obtain ⟨used, inRange, notOther⟩ := ok.own f isF
    have other := differ isRegion f isF
    exact ⟨(update_of_ne other _ _).trans used, inRange, (update_of_ne other _ _).trans notOther⟩
  · by_cases same : f = frame
    · exact .inl (same ▸ update_self _ _ _)
    · refine (sound.kept f low high ((update_of_ne same _ _).symm.trans used)).imp_left fun isOther => ?_
      exact (update_of_ne same _ _).trans isOther
  · by_cases same : f = frame
    · exact same ▸ update_self _ _ _
    · exact (update_of_ne same _ _).trans (sound.others f ((update_of_ne same _ _).symm.trans isOther))

theorem Sound.give (sound : Sound none w) (isOther : w.others frame = true) :
    Sound none { w.pagingFreePhysical frame with others := update w.others frame false } := by
  have differ : ∀ {i : Nat} {region : Region}, w.regions[i]? = some region →
    ∀ f ∈ region.physPages, f ≠ frame :=
    fun {i region} isRegion f isF same => by
      have notOther := ((sound.regions i region isRegion).own f isF).2.2
      rw [same, isOther] at notOther
      cases notOther
  have given : ∀ phys : Phys, phys.first = w.phys.first ∧ phys.total = w.phys.total →
      phys.first ≤ phys.nextFreeHint →
      (∀ f, f ≠ frame → phys.used f = w.phys.used f) →
      (w.phys.first ≤ frame → frame < w.phys.total → phys.used frame = false) → Sound none { w with
        phys := phys
        usedPages := w.usedPages - 1
        others := update w.others frame false } := fun phys range hint same cleared => by
    refine { sound with
      hint := hint
      regions := fun i region isRegion => ?_
      kept := fun f low high used => ?_
      others := fun f other => ?_
      attached := sound.attached }
    · have ok := sound.regions i region isRegion
      refine { ok with own := fun f isF => ?_ }
      obtain ⟨used, inRange, notOther⟩ := ok.own f isF
      have other := differ isRegion f isF
      refine ⟨(same f other).trans used, ?_, (Function.update_of_ne other _ _).trans notOther⟩
      simp only [range.1, range.2]
      exact inRange
    · simp only [range.1, range.2] at low high
      have other : f ≠ frame := by
        rintro rfl
        simp only [cleared low high] at used
        cases used
      refine (sound.kept f low high ((same f other).symm.trans used)).imp_left fun before => ?_
      exact (Function.update_of_ne other _ _).trans before
    · have notFrame : f ≠ frame := by
        rintro rfl
        simp only [Function.update_self] at other
        cases other
      exact (same f notFrame).trans (sound.others f ((Function.update_of_ne notFrame _ _).symm.trans other))
  unfold World.pagingFreePhysical World.physFreePage
  split
  · next outside => exact given w.phys ⟨rfl, rfl⟩ sound.hint (fun _ _ => rfl) fun low high => by omega
  · next inside =>
    rw [if_pos (sound.others frame isOther)]
    exact given (w.phys.clear frame) ⟨rfl, rfl⟩
      (Nat.le_min.mpr ⟨sound.hint, Nat.le_of_not_lt fun low => inside (.inl low)⟩)
      (fun f other => update_of_ne other _ _) fun _ _ => update_self _ _ _

theorem Sound.step {label : Step} (sound : Sound none w) (covered : Covered w label) :
    Sound none (w.step label) := by
  cases label with
  | request pid size memory luck id =>
      simp only [World.step]
      split
      · next may => exact (sound.request may.1 covered).sound
      · exact sound
  | attach pid id family luck =>
      simp only [World.step]
      split
      · next running => exact (sound.attach running).sound
      · exact sound
  | exit pid onCpu =>
      simp only [World.step]
      split
      · exact sound.exit covered
      · exact sound
  | reap pid =>
      simp only [World.step]
      split
      · next zombie => exact sound.reap zombie
      · exact sound
  | take =>
      simp only [World.step]
      split
      · exact sound
      · next alloc => exact sound.take alloc
  | give frame =>
      simp only [World.step]
      split
      · next isOther => exact sound.give isOther
      · exact sound
  | kernelMap page frame =>
    exact sound.alike ⟨rfl, rfl, rfl, rfl, rfl, rfl, rfl, ⟨rfl, rfl⟩, fun hint => hint⟩
  | occupy pid page on =>
      simp only [World.step]
      split
      · exact sound.alike ⟨rfl, rfl, rfl, rfl, rfl, rfl, rfl, ⟨rfl, rfl⟩, fun hint => hint⟩
      · exact sound

theorem Sound.refuses {label : Step} (sound : Sound none w) (covered : Covered w label)
    (refuses : w.Refuses label) : Same w (w.step label) := by
  cases label with
  | request pid size memory luck id =>
      obtain ⟨running, fresh, failed⟩ := refuses
      simp only [World.step, if_pos (And.intro running fresh)] at failed ⊢
      exact (sound.request running covered).refused failed
  | attach pid id family luck =>
      obtain ⟨running, failed⟩ := refuses
      simp only [World.step, if_pos running] at failed ⊢
      exact (sound.attach running).refused failed
  | exit | reap | take | give | kernelMap | occupy => cases refuses

theorem Sound.init (first total : Nat) (used : Nat → Bool) (low : Nat → Option Nat) :
    Sound none (World.init first total used low) := by
  have empty : ∀ {i : Nat} {region : Region}, (World.init first total used low).regions[i]? =
    some region → region = .empty :=
    fun {i region} isRegion => List.eq_of_mem_replicate (List.mem_of_getElem? isRegion)
  refine ⟨List.length_replicate, Nat.le_refl _, fun i region isRegion => ?_,
    fun i j region region' isRegion _ _ f isF => ?_,
    fun f _ _ isUsed => .inl isUsed, fun f isOther => isOther, fun i region isRegion q attached =>
    ?_, nofun, rfl⟩
  · rw [empty isRegion]
    exact ⟨fun _ => ⟨rfl, rfl⟩, nofun, nofun, Nat.zero_le _, List.nodup_nil, List.nodup_nil, nofun⟩
  · rw [empty isRegion] at isF
    cases isF
  · rw [empty isRegion] at attached
    cases attached

theorem Sound.ok (sound : Sound none w) : ShmOk w := by
  have used : ∀ {i : Nat} {region : Region}, w.regions[i]? = some region →
    ∀ f ∈ region.physPages, region.inUse = true :=
    fun {i region} isRegion f isF => by
      cases isUsed : region.inUse with
      | true => rfl
      | false =>
          rw [((sound.regions i region isRegion).free isUsed).1] at isF
          cases isF
  have indexed : ∀ region ∈ w.regions, ∃ i : Nat, w.regions[i]? =
    some region := fun region inside =>
    List.mem_iff_getElem?.mp inside
  refine ⟨fun f low high => ⟨fun isUsed => ?_, ?_⟩,
    fun region inside => ⟨fun isUsed => ?_, fun attached => ?_⟩, sound.once, fun q page f isMap =>
    ?_, sound.apart, fun region inside => ?_⟩
  · refine (sound.kept f low high isUsed).imp_right fun ⟨i, region, isRegion, isF⟩ => ?_
    exact ⟨region, List.mem_of_getElem? isRegion, used isRegion f isF, isF⟩
  · rintro (isOther | ⟨region, inside, -, isF⟩)
    · exact sound.others f isOther
    · obtain ⟨i, isRegion⟩ := indexed region inside
      exact ((sound.regions i region isRegion).own f isF).1
  · obtain ⟨i, isRegion⟩ := indexed region inside
    exact (sound.regions i region isRegion).used isUsed
  · obtain ⟨i, isRegion⟩ := indexed region inside
    cases isUsed : region.inUse with
    | true => rfl
    | false => exact absurd ((sound.regions i region isRegion).free isUsed).2 attached
  · obtain ⟨i, region, isRegion, ⟨k, -, isF⟩, -⟩ := sound.mapped q page f isMap
    have inside := List.mem_of_getElem? isF
    exact ⟨((sound.regions i region isRegion).own f inside).1, region,
      List.mem_of_getElem? isRegion, used isRegion f inside, inside⟩
  · obtain ⟨i, isRegion⟩ := indexed region inside
    have ok := sound.regions i region isRegion
    exact ⟨ok.framesOnce, fun f isF => (ok.own f isF).2.2⟩

/-- The frames of a region are taken as long as a process is attached to it and no longer, nobody
maps a frame that is free, no two regions share one, and a call that fails changes nothing: in every
run in which requests fail at their first page or not at all and the last to leave a region does not
run any more. -/
theorem shm_ok {first total : Nat} {used : Nat → Bool} {low : Nat → Option Nat}
    (reached : Reaches World.step Covered (World.init first total used low) w) :
    ShmOk w ∧ ∀ label, Covered w label → w.Refuses label → Same w (w.step label) :=
  have sound := reached.invariant (Sound.init first total used low) fun _ _ sound covered =>
    sound.step covered
  ⟨sound.ok, fun _ covered refuses => sound.refuses covered refuses⟩

/-- A region of one page is made by one process and attached by another; the first is reaped before
the other exits. -/
def twoProcesses : List Step :=
  [.request 1 4096 true (fun _ => (true, true)) (2 ^ 32), .attach 2 (2 ^ 32) true (fun _ => true),
    .exit 1 true, .reap 1, .exit 2 false]

theorem shm_ok_twoProcesses :
    let w := runSteps World.step (World.init 0 4 (fun _ => false) (fun _ => none)) twoProcesses
    ShmOk w ∧ ∀ label, Covered w label → w.Refuses label → Same w (w.step label) :=
  shm_ok (Reaches.refl.runSteps (by set_option maxRecDepth 100000 in decide))

/-- Frame 257 alone is free: a request for two pages fails at the second, and the frame is no longer
mapped to itself. -/
theorem shm_request_loses_alias :
    ¬ ∀ w, Reaches World.step (fun _ _ => True)
      (World.init 256 260 (fun frame => frame != 257) some) w → ShmOk w ∧ ∀ label, w.Refuses label →
      Same w (w.step label) := fun all => by
  have same := (all _ .refl).2 (.request 1 8192 true (fun _ => (true, true)) (2 ^ 32)) (by
    refine ⟨?_, ?_, ?_⟩ <;> decide)
  have lost : (World.step (World.init 256 260 (fun frame => frame != 257) some)
      (.request 1 8192 true (fun _ => (true, true)) (2 ^ 32))).low 257 = none := by decide
  rw [same.low] at lost
  cases lost

end Cos.Shm
