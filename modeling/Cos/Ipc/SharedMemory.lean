import Cos.Lib.Run
import Mathlib.Logic.Function.Basic
import Mathlib.Algebra.Group.Nat.Defs

/-! # Shared memory in `ipc.c`

The region table, the page tables as translations of pages to frames, and the frame allocator. 
Addresses are page numbers; the lower half that maps frames to themselves is one for all processes.
-/

namespace Cos.Shm

open Cos.Lib
open Function (update)

/-- `SHM_MAX_REGIONS`, `SHM_SLOT_SIZE` in pages, `SHM_VA_BASE` as a page, `SHM_MAX_ATTACH`. -/
def shmMaxRegions : Nat := 128

def shmSlotPages : Nat := 1024

def shmVaBase : Nat := 0x30000000

def shmMaxAttach : Nat := 8

def pageSize : Nat := 4096

inductive Status
  | success
  | notInitialized
  | invalidPid
  | permissionDenied
  | dataTooLarge
  | queueFull
deriving DecidableEq

/-- `shm_region_t`. -/
structure Region where
  inUse : Bool
  id : Nat
  size : Nat
  pages : Nat
  virtAddr : Nat
  ownerPid : Nat
  physPages : List Nat
  attachedPids : List Nat
deriving DecidableEq

def Region.empty : Region := ⟨false, 0, 0, 0, 0, 0, [], []⟩

/-- The bitmap of `memory_physical.c` over the frames from `first` to `total`. -/
structure Phys where
  used : Nat → Bool
  first : Nat
  total : Nat
  nextFreeHint : Nat

structure World where
  regions : List Region
  phys : Phys
  /-- `stats.used_pages` of `paging.c`. -/
  usedPages : Nat
  low : Nat → Option Nat
  maps : Nat → Nat → Option Nat
  /-- Where a process has something else in the window of the regions. -/
  other : Nat → Nat → Bool
  /-- Who has exited: with page tables that wait for the reaper, and without. -/
  zombies : List Nat
  gone : List Nat
  status : Nat → Status
  /-- Auxiliary: the frames of everybody else, and how often a frame was freed that was free. -/
  others : Nat → Bool
  doubleFrees : Nat

/-- `luck` says for each page whether there is memory for the tables of the alias and of the
mapping. -/
inductive Step
  | request (pid size : Nat) (memory : Bool) (luck : Nat → Bool × Bool) (id : Nat)
  | attach (pid id : Nat) (family : Bool) (luck : Nat → Bool)
  /-- `onCpu`: a thread of the process runs, here or on another CPU. -/
  | exit (pid : Nat) (onCpu : Bool)
  | reap (pid : Nat)
  /-- The rest of the kernel: it takes a frame, gives one of its own back, maps in the lower half,
  maps in a process. -/
  | take
  | give (frame : Nat)
  | kernelMap (page : Nat) (frame : Option Nat)
  | occupy (pid page : Nat) (on : Bool)

def Phys.set (p : Phys) (frame : Nat) : Phys :=
  { p with used := update p.used frame true, nextFreeHint := frame + 1 }

/-- `phys_alloc_page`. -/
def Phys.alloc (p : Phys) : Option (Nat × Phys) :=
  let start := if p.nextFreeHint < p.total then p.nextFreeHint else p.first
  match (List.range' start (p.total - start)).find? fun frame => !p.used frame with
  | some frame => some (frame, p.set frame)
  | none =>
      match (List.range' p.first (p.total - p.first)).find? fun frame => !p.used frame with
      | some frame => some (frame, p.set frame)
      | none => none

/-- `phys_free_page` of a frame in use. -/
def Phys.clear (p : Phys) (frame : Nat) : Phys :=
  { p with used := update p.used frame false, nextFreeHint := min p.nextFreeHint frame }

section

variable (w : World)

def World.physFreePage (frame : Nat) : World :=
  if frame < w.phys.first ∨ w.phys.total ≤ frame then w
  else if w.phys.used frame then { w with phys := w.phys.clear frame }
  else { w with doubleFrees := w.doubleFrees + 1 }

def World.pagingFreePhysical (frame : Nat) : World :=
  { w.physFreePage frame with usedPages := w.usedPages - 1 }

def World.setLow (page : Nat) (frame : Option Nat) : World :=
  { w with low := update w.low page frame }

def World.setMap (pid page : Nat) (frame : Option Nat) : World :=
  { w with maps := update w.maps pid (update (w.maps pid) page frame) }

def World.isPresent (pid page : Nat) : Bool := (w.maps pid page).isSome || w.other pid page

def World.pagingAllocPage (tables : Bool) : World × Option Nat :=
  match w.phys.alloc with
  | none => (w, none)
  | some (frame, phys) =>
      let w := { w with phys := phys, usedPages := w.usedPages + 1 }
      match w.low frame with
      | none => if tables then (w.setLow frame (some frame), some frame) else (w.pagingFreePhysical frame, none)
      | some there => if there = frame then (w, some frame) else (w.pagingFreePhysical frame, none)

/-- `paging_free_page` of an address in the lower half. -/
def World.pagingFreePage (page : Nat) : World :=
  match w.low page with
  | none => w
  | some frame => (w.setLow page none).pagingFreePhysical frame

def World.shmRangeIsClear (pid virt pages : Nat) : Bool :=
  decide (pages ≠ 0) && (List.range pages).all fun p => !w.isPresent pid (virt + p)

def World.shmUnmapRange (pid virt : Nat) : Nat → World
  | 0 => w
  | p + 1 => (World.shmUnmapRange pid virt p).setMap pid (virt + p) none

def World.rollback (pid virt : Nat) (physPages : List Nat) : World :=
  physPages.foldl World.physFreePage (w.shmUnmapRange pid virt physPages.length)

/-- One round of the loop in `ipc_request_shared_memory`. -/
def World.requestPage (pid page : Nat) (luck : Bool × Bool) : World × Option Nat :=
  match w.pagingAllocPage luck.1 with
  | (w, none) => (w, none)
  | (w, some frame) =>
      if luck.2 ∧ ¬ w.isPresent pid page then
        let w := w.setMap pid page (some frame)
        (if frame ≠ page then w.setLow frame none else w, some frame)
      else (w.pagingFreePage frame, none)

end

def World.requestPages (pid virt : Nat) :
    List (Bool × Bool) → World → List Nat → World × Option (List Nat)
  | [], w, physPages => (w, some physPages)
  | luck :: rest, w, physPages =>
      match w.requestPage pid (virt + physPages.length) luck with
      | (w, some frame) => World.requestPages pid virt rest w (physPages ++ [frame])
      | (w, none) => (w.rollback pid virt physPages, none)

section

variable (w : World)

def World.return (pid : Nat) (status : Status) : World :=
  { w with status := update w.status pid status }

/-- The checks of `ipc_request_shared_memory`: the slot, or why not. -/
def World.requestSlot (pid size : Nat) (memory : Bool) : Except Status Nat :=
  if size = 0 ∨ shmSlotPages * pageSize < size then .error .dataTooLarge
  else
    match w.regions.findIdx? fun region => !region.inUse with
    | none => .error .queueFull
    | some index =>
        if 4 ≤ w.regions.countP fun region => region.inUse && region.ownerPid == pid then .error .queueFull
        else if ¬ w.shmRangeIsClear pid (shmVaBase + index * shmSlotPages) ((size + pageSize - 1) / pageSize) then
          .error .permissionDenied
        else if ¬ memory then .error .notInitialized
        else .ok index

def World.request (pid size : Nat) (memory : Bool) (luck : Nat → Bool × Bool) (id : Nat) : World :=
  match w.requestSlot pid size memory with
  | .error status => w.return pid status
  | .ok index =>
      let pages := (size + pageSize - 1) / pageSize
      let virt := shmVaBase + index * shmSlotPages
      match World.requestPages pid virt ((List.range pages).map luck) w [] with
      | (w, none) => w.return pid .notInitialized
      | (w, some physPages) =>
          { w with regions := w.regions.set index ⟨true, id, size, pages, virt, pid, physPages, [pid]⟩ }.return pid .success

/-- The loop of `ipc_attach_shared_memory`. -/
def World.attachPages (pid virt : Nat) (luck : Nat → Bool) : List Nat → Nat → World → World × Bool
  | [], _, w => (w, true)
  | frame :: rest, p, w =>
      if luck p ∧ ¬ w.isPresent pid (virt + p) then
        World.attachPages pid virt luck rest (p + 1) (w.setMap pid (virt + p) (some frame))
      else (w.shmUnmapRange pid virt p, false)

def World.attach (pid id : Nat) (family : Bool) (luck : Nat → Bool) : World :=
  match w.regions.findIdx? fun region => region.inUse && region.id == id with
  | none => w.return pid .invalidPid
  | some index =>
      match w.regions[index]? with
      | none => w.return pid .invalidPid
      | some region =>
          if ¬ family then w.return pid .permissionDenied
          else if pid ∈ region.attachedPids then w.return pid .success
          else if shmMaxAttach ≤ region.attachedPids.length then w.return pid .queueFull
          else if ¬ w.shmRangeIsClear pid region.virtAddr region.pages then w.return pid .permissionDenied
          else
            match World.attachPages pid region.virtAddr luck region.physPages 0 w with
            | (w, false) => w.return pid .notInitialized
            | (w, true) =>
                { w with regions := w.regions.set index { region with attachedPids := region.attachedPids ++ [pid] } }.return pid
                  .success

def swapRemove (pid : Nat) (pids : List Nat) : List Nat :=
  (pids.set (pids.idxOf pid) (pids.getLastD 0)).dropLast

/-- One round of the loop in `shm_release_owner`. -/
def World.releaseRegion (pid index : Nat) : World :=
  match w.regions[index]? with
  | none => w
  | some region =>
      if ¬ region.inUse ∨ pid ∉ region.attachedPids then w
      else if swapRemove pid region.attachedPids = [] then
        let w := region.physPages.foldl World.pagingFreePhysical w
        { w with regions := w.regions.set index .empty }
      else { w with regions := w.regions.set index { region with attachedPids := swapRemove pid region.attachedPids } }

def World.releaseOwner (pid : Nat) : World :=
  (List.range shmMaxRegions).foldl (fun w index => w.releaseRegion pid index) w

def World.destroyDirectory (pid : Nat) : World :=
  { w with
    maps := update w.maps pid fun _ => none
    other := update w.other pid fun _ => false
    gone := pid :: w.gone }

/-- `process_exit`, as far as this is concerned. -/
def World.exit (pid : Nat) (onCpu : Bool) : World :=
  (if onCpu then { w with zombies := pid :: w.zombies } else w.destroyDirectory pid).releaseOwner
    pid

end

def World.running (w : World) (pid : Nat) : Prop := pid ∉ w.zombies ∧ pid ∉ w.gone

instance (w : World) (pid : Nat) : Decidable (w.running pid) := inferInstanceAs (Decidable (_ ∧ _))

/-- A number that `ipc_request_shared_memory` keeps. -/
def World.freshId (w : World) (id : Nat) : Bool :=
  decide (2 ^ 32 ≤ id) && w.regions.all fun region => !(region.inUse && region.id == id)

def World.step (w : World) : Step → World
  | .request pid size memory luck id =>
    if w.running pid ∧ w.freshId id then w.request pid size memory luck id else w
  | .attach pid id family luck => if w.running pid then w.attach pid id family luck else w
  | .exit pid onCpu => if w.running pid then w.exit pid onCpu else w
  | .reap pid => if pid ∈ w.zombies then { w.destroyDirectory pid with zombies := w.zombies.filter (· ≠ pid) } else w
  | .take =>
      match w.phys.alloc with
      | none => w
      | some (frame, phys) =>
          { w with phys := phys, usedPages := w.usedPages + 1, others := update w.others frame true }
  | .give frame =>
      if w.others frame then { w.pagingFreePhysical frame with others := update w.others frame false } else w
  | .kernelMap page frame => w.setLow page frame
  | .occupy pid page on =>
      if w.running pid ∧ w.maps pid page = none then
        { w with other := update w.other pid (update (w.other pid) page on) }
      else w

/-- The machine after `ipc_init`: what is used belongs to everybody else. -/
def World.init (first total : Nat) (used : Nat → Bool) (low : Nat → Option Nat) : World where
  regions := List.replicate shmMaxRegions .empty
  phys := ⟨used, first, total, first⟩
  usedPages := 0
  low := low
  maps := fun _ _ => none
  other := fun _ _ => false
  zombies := []
  gone := []
  status := fun _ => .success
  others := used
  doubleFrees := 0

structure ShmOk (w : World) : Prop where
  /-- A frame is taken as long as somebody else or a region has it. -/
  returned : ∀ frame, w.phys.first ≤ frame → frame < w.phys.total →
    (w.phys.used frame = true ↔
    w.others frame = true ∨ ∃ region ∈ w.regions, region.inUse = true ∧ frame ∈ region.physPages)
  /-- A region is there as long as a process is attached. -/
  lives : ∀ region ∈ w.regions, region.inUse = true ↔ region.attachedPids ≠ []
  once : w.doubleFrees = 0
  mapped : ∀ pid page frame, w.maps pid page = some frame →
    w.phys.used frame = true ∧ ∃ region ∈ w.regions, region.inUse = true ∧ frame ∈ region.physPages
  apart : ∀ (i j : Nat) (region region' : Region), w.regions[i]? = some region →
    w.regions[j]? = some region' → i ≠ j → ∀ frame ∈ region.physPages, frame ∉ region'.physPages
  distinct : ∀ region ∈ w.regions, region.physPages.Nodup ∧
    ∀ frame ∈ region.physPages, w.others frame = false

structure Same (w w' : World) : Prop where
  low : w'.low = w.low
  maps : w'.maps = w.maps
  other : w'.other = w.other
  regions : w'.regions = w.regions
  used : w'.phys.used = w.phys.used
  usedPages : w'.usedPages = w.usedPages

def World.Refuses (w : World) : Step → Prop
  | .request pid size memory luck id =>
      w.running pid ∧ w.freshId id ∧ (w.step (.request pid size memory luck id)).status pid ≠ .success
  | .attach pid id family luck =>
    w.running pid ∧ (w.step (.attach pid id family luck)).status pid ≠ .success
  | _ => False

/-- There is a frame for every page, with tables to map it and with no other page at its alias. -/
def Backed (low : Nat → Option Nat) : Phys → List (Bool × Bool) → Prop
  | _, [] => True
  | phys, luck :: rest =>
      match phys.alloc with
      | none => False
      | some (frame, phys) => luck.2 ∧ (low frame = some frame ∨ low frame = none ∧ luck.1) ∧ Backed low phys rest

/-- The first page already fails, and its frame had no alias that could be lost. -/
def FailsFirst (low : Nat → Option Nat) (phys : Phys) : List (Bool × Bool) → Prop
  | [] => False
  | luck :: _ =>
      match phys.alloc with
      | none => True
      | some (frame, _) => low frame = none ∧ ¬ (luck.1 ∧ luck.2) ∨ low frame ≠ none ∧ low frame ≠ some frame

def World.RequestCovered (w : World) (pid size : Nat) (memory : Bool) (luck : Nat → Bool × Bool) :
    Prop :=
  ∀ index, w.requestSlot pid size memory = .ok index →
    Backed w.low w.phys ((List.range ((size + pageSize - 1) / pageSize)).map luck) ∨
      FailsFirst w.low w.phys ((List.range ((size + pageSize - 1) / pageSize)).map luck)

/-- Who leaves a region last does not run any more, and nobody who left it before still has page
tables. -/
def World.ExitCovered (w : World) (pid : Nat) (onCpu : Bool) : Prop :=
  ∀ region ∈ w.regions, region.inUse = true → region.attachedPids = [pid] →
    onCpu = false ∧ ∀ q ∈ w.zombies, ∀ p < region.pages, w.maps q (region.virtAddr + p) = none

def Covered (w : World) : Step → Prop
  | .request pid size memory luck _ => w.RequestCovered pid size memory luck
  | .exit pid onCpu => w.ExitCovered pid onCpu
  | _ => True

instance Backed.decidable (low : Nat → Option Nat) :
    (phys : Phys) → (lucks : List (Bool × Bool)) → Decidable (Backed low phys lucks)
  | _, [] => isTrue trivial
  | phys, luck :: rest =>
      match alloc : phys.alloc with
      | none => isFalse fun backed => by simp only [Backed, alloc] at backed
      | some (frame, phys) =>
          have := Backed.decidable low phys rest
          decidable_of_iff (luck.2 ∧ (low frame = some frame ∨ low frame = none ∧ luck.1) ∧
            Backed low phys rest) (by simp only [Backed, alloc])

instance FailsFirst.decidable (low : Nat → Option Nat) (phys : Phys) :
    (lucks : List (Bool × Bool)) → Decidable (FailsFirst low phys lucks)
  | [] => isFalse id
  | luck :: _ =>
      match alloc : phys.alloc with
      | none => isTrue (by simp only [FailsFirst, alloc])
      | some (frame, _) =>
          decidable_of_iff (low frame = none ∧ ¬ (luck.1 ∧ luck.2) ∨ low frame ≠ none ∧
            low frame ≠ some frame) (by simp only [FailsFirst, alloc])

instance (w : World) (pid size : Nat) (memory : Bool) (luck : Nat → Bool × Bool) :
    Decidable (w.RequestCovered pid size memory luck) :=
  match slot : w.requestSlot pid size memory with
  | .error _ => isTrue fun _ is => by rw [slot] at is; cases is
  | .ok index =>
      decidable_of_iff (Backed w.low w.phys ((List.range ((size + pageSize - 1) / pageSize)).map luck) ∨
          FailsFirst w.low w.phys ((List.range ((size + pageSize - 1) / pageSize)).map luck))
        ⟨fun covered _ _ => covered, fun covered => covered index slot⟩

instance (w : World) (pid : Nat) (onCpu : Bool) : Decidable (w.ExitCovered pid onCpu) :=
  inferInstanceAs (Decidable (∀ region ∈ w.regions, region.inUse = true →
    region.attachedPids = [pid] →
    onCpu = false ∧ ∀ q ∈ w.zombies, ∀ p < region.pages, w.maps q (region.virtAddr + p) = none))

instance (w : World) : (label : Step) → Decidable (Covered w label)
  | .request pid size memory luck _ =>
    inferInstanceAs (Decidable (w.RequestCovered pid size memory luck))
  | .exit pid onCpu => inferInstanceAs (Decidable (w.ExitCovered pid onCpu))
  | .attach _ _ _ _ | .reap _ | .take | .give _ | .kernelMap _ _ | .occupy _ _ _ => isTrue trivial

end Cos.Shm
