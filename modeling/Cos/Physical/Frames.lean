import Mathlib.Data.Finset.Card
import Mathlib.Data.Finset.Range
import Cos.Lib.Run
import Mathlib.Algebra.Group.Nat.Defs

/-! # The physical frame allocator

`src/kernel/memory_physical.c` keeps one bit for each frame from 1 MiB up: set when
the frame is in use or reserved.  `used_physical_pages` counts the set bits and
`next_free_hint` is where the next scan starts.  The first 256 frames are never
managed: they are reserved at boot and cannot be freed.
-/

namespace Cos.Physical

open Cos.Lib

def physMemoryBase : Nat := 0x100000

def physPageSize : Nat := 4096

def physReservedPages : Nat := 256

def physMaxMemorySize : Nat := 64 * 1024 * 1024 * 1024

structure PhysState where
  /-- `physical_bitmap`, a bit for each page. -/
  bitmap : Nat → Bool
  limitBytes : Nat
  totalPages : Nat
  usedPages : Nat
  nextFreeHint : Nat
  /-- The pages that `phys_alloc_page` gave out and that were not freed. -/
  handed : Finset Nat

namespace PhysState

def reservePage (state : PhysState) (page : Nat) : PhysState :=
  if state.totalPages ≤ page then state
  else if state.bitmap page then state
  else { state with
    bitmap := Function.update state.bitmap page true
    usedPages := state.usedPages + 1 }

def reserveRange (state : PhysState) (start : Nat) : Nat → PhysState
  | 0 => state
  | count + 1 => (reserveRange state start count).reservePage (start + count)

def boundedAlignRange (start size : Nat) : Option (Nat × Nat) :=
  if size = 0 then none
  else if start > 2 ^ 64 - 1 - size then none
  else
    let alignedStart := start / physPageSize * physPageSize
    let endUnaligned := start + size
    if endUnaligned > 2 ^ 64 - 1 - (physPageSize - 1) then none
    else
      let alignedEnd := (endUnaligned + physPageSize - 1) / physPageSize * physPageSize
      if alignedEnd ≤ alignedStart then none else some (alignedStart, alignedEnd)

/-- The first page and the number of pages that both range operations come to. -/
def managedRange (state : PhysState) (start size : Nat) : Option (Nat × Nat) :=
  match boundedAlignRange start size with
  | none => none
  | some (alignedStart, alignedEnd) =>
      let alignedStart := if alignedStart < physMemoryBase then physMemoryBase else alignedStart
      if alignedEnd ≤ alignedStart then none
      else if physMemoryBase + state.limitBytes ≤ alignedStart then none
      else
        let alignedEnd := if alignedEnd > physMemoryBase + state.limitBytes then
          physMemoryBase + state.limitBytes else alignedEnd
        if alignedEnd ≤ alignedStart then none
        else some ((alignedStart - physMemoryBase) / physPageSize,
          (alignedEnd - alignedStart) / physPageSize)

def physMemoryReserveRange (state : PhysState) (start size : Nat) : PhysState :=
  match state.managedRange start size with
  | none => state
  | some (firstPage, pageCount) => state.reserveRange firstPage pageCount

/-- A set bit is cleared: the page counts as free and the next scan starts at it or before. -/
def clearPage (state : PhysState) (page : Nat) : PhysState :=
  { state with
    bitmap := Function.update state.bitmap page false
    usedPages := if state.usedPages > 0 then state.usedPages - 1 else state.usedPages
    nextFreeHint := if page < state.nextFreeHint then page else state.nextFreeHint }

/-- The loop of `phys_memory_unreserve_range`. -/
def unreservePages (state : PhysState) (page : Nat) : Nat → PhysState
  | 0 => state
  | count + 1 =>
      if state.totalPages ≤ page then state
      else if state.bitmap page then (state.clearPage page).unreservePages (page + 1) count
      else state.unreservePages (page + 1) count

def physMemoryUnreserveRange (state : PhysState) (start size : Nat) : PhysState :=
  match state.managedRange start size with
  | none => state
  | some (firstPage, pageCount) => state.unreservePages firstPage pageCount

/-- One pass of the scan: the first clear bit from `start` on. -/
def firstClear (state : PhysState) (start : Nat) : Option Nat :=
  (List.range' start (state.totalPages - start)).find? fun page => !state.bitmap page

def takeFrame (state : PhysState) (page : Nat) : PhysState :=
  { state with
    bitmap := Function.update state.bitmap page true
    usedPages := state.usedPages + 1
    nextFreeHint := if page + 1 < physReservedPages then physReservedPages else page + 1
    handed := insert page state.handed }

def frameAddr (page : Nat) : Nat := physMemoryBase + page * physPageSize

/-- `phys_alloc_page`; address 0 when there is no frame. -/
def physAllocPage (state : PhysState) : PhysState × Nat :=
  if state.totalPages ≤ state.usedPages then (state, 0)
  else
    let start := if state.nextFreeHint < state.totalPages then state.nextFreeHint
      else physReservedPages
    match state.firstClear start with
    | some page => (state.takeFrame page, frameAddr page)
    | none =>
        match state.firstClear physReservedPages with
        | some page => (state.takeFrame page, frameAddr page)
        | none => (state, 0)

def physFreePage (state : PhysState) (addr : Nat) : PhysState :=
  if addr % physPageSize ≠ 0 then state
  else if addr < physMemoryBase then state
  else
    let page := (addr - physMemoryBase) / physPageSize
    if state.totalPages ≤ page then state
    else if page < physReservedPages then state
    else if !state.bitmap page then state
    else { state.clearPage page with handed := state.handed.erase page }

end PhysState

structure Region where
  base : Nat
  len : Nat
deriving DecidableEq

def addAvailRegion (regions : List Region) (base len : Nat) : List Region :=
  if len = 0 ∨ 32 ≤ regions.length then regions else regions ++ [⟨base, len⟩]

def Region.limit (region : Region) : Nat := (region.base + region.len) % 2 ^ 64

/-- What `phys_memory_init` finds: `cos_runtime_available_bytes`, the usable regions and
the end of the kernel image. -/
structure MemoryMap where
  available : Nat
  regions : List Region
  kernelEnd : Nat

/-- `runtime_total`: the length of the managed range. -/
def MemoryMap.runtimeTotal (map : MemoryMap) : Nat :=
  let total := if map.available = 0 then physMaxMemorySize else map.available
  let total := if total > physMaxMemorySize then physMaxMemorySize else total
  let total := if total < physMemoryBase + physPageSize then physMemoryBase + physPageSize else total
  let top := map.regions.foldl (fun top region => if region.limit > top then region.limit else top) 0
  if map.regions ≠ [] ∧ top > physMemoryBase + physPageSize then
    if top - physMemoryBase > physMaxMemorySize then physMaxMemorySize else top - physMemoryBase
  else total

/-- The inner loop of the insertion sort, on the sorted part in reverse order. -/
def insertBack (region : Region) : List Region → List Region
  | [] => [region]
  | last :: before =>
      if last.base > region.base then last :: insertBack region before else region :: last :: before

/-- The insertion sort of `phys_memory_init`. -/
def sortRegions (regions : List Region) : List Region :=
  (regions.foldl (fun sorted region => insertBack region sorted) []).reverse

/-- The start of a region, rounded up in 64 bits and clipped to the managed range. -/
def Region.start (region : Region) (limitEnd : Nat) : Nat :=
  let start := (region.base + physPageSize - 1) % 2 ^ 64 / physPageSize * physPageSize
  let start := if start < physMemoryBase then physMemoryBase else start
  if start > limitEnd then limitEnd else start

/-- `reserve_range((from - PHYS_MEMORY_BASE) / PHYS_PAGE_SIZE, (to - from) / PHYS_PAGE_SIZE)`. -/
def PhysState.reserveGap (state : PhysState) (first last : Nat) : PhysState :=
  state.reserveRange ((first - physMemoryBase) / physPageSize) ((last - first) / physPageSize)

def reserveGaps (limitEnd : Nat) : List Region → Nat → PhysState → PhysState × Nat
  | [], cursor, state => (state, cursor)
  | region :: rest, cursor, state =>
      let state := if region.start limitEnd > cursor then
        state.reserveGap cursor (region.start limitEnd) else state
      let regionEnd := region.limit / physPageSize * physPageSize
      reserveGaps limitEnd rest (if regionEnd > cursor then regionEnd else cursor) state

def applyMemoryMap (state : PhysState) (regions : List Region) : PhysState :=
  let limitEnd := physMemoryBase + state.limitBytes
  let (state, cursor) := reserveGaps limitEnd (sortRegions (regions.take 32)) physMemoryBase state
  if cursor < limitEnd then state.reserveGap cursor limitEnd else state

def reserveKernel (state : PhysState) (kernelEnd : Nat) : PhysState :=
  if kernelEnd > physMemoryBase then
    let endPage := (kernelEnd - physMemoryBase + physPageSize - 1) / physPageSize
    if endPage > physReservedPages then
      state.reserveRange physReservedPages (endPage - physReservedPages)
    else state
  else state

def clearBitmap (limitBytes : Nat) : PhysState :=
  let totalPages := if limitBytes / physPageSize = 0 then 1 else limitBytes / physPageSize
  { bitmap := fun _ => false
    limitBytes
    totalPages
    usedPages := 0
    nextFreeHint := if physReservedPages ≥ totalPages then
      (if totalPages > physReservedPages then physReservedPages else 0) else physReservedPages
    handed := ∅ }

def physMemoryInit (map : MemoryMap) : PhysState :=
  let state := (clearBitmap map.runtimeTotal).reserveRange 0 physReservedPages
  let state := if map.regions ≠ [] then applyMemoryMap state map.regions else state
  reserveKernel state map.kernelEnd

end Cos.Physical
