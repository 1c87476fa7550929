import Mathlib.Data.Fintype.Basic
import Cos.Paging.KernelPages
import Cos.Paging.Tables

/-! # Page directories

A process has its own PML4.  Its entries 1..255 are private; entry 0 (the low
identity map) and entries 256..511 (the kernel's half) are copied by value from
`kernel_pml4` when it is created, so the tables below them are shared.  Mapping
creates the tables a page needs and unmapping frees the ones it empties, both in
the directory that is active.
-/

namespace Cos.Paging

/-- The tables, with `kernel_pml4` and `current_directory` (0 is the null pointer). -/
structure SpaceState where
  mem : TableMem
  /-- What each page is in use for: 4 for a PML4, 3 for a PDPT, 2 for a PD and 1 for a
  PT; 0 when the heap has it. -/
  level : U64 → Nat
  /-- How often the heap has been asked for a page. -/
  tick : Nat
  kernelPml4 : U64
  currentDirectory : U64
  /-- `kernel_pml4` and the directories that were created and not destroyed. -/
  dirs : List U64

/-- An address that `kmalloc_pages` can give out. -/
def PageAddress (page : U64) : Prop := page ≠ 0#64 ∧ page &&& fAddrMask = page

instance (page : U64) : Decidable (PageAddress page) :=
  inferInstanceAs (Decidable (_ ∧ _))

def Present (entry : U64) : Prop := entry &&& fPresent ≠ 0#64

instance (entry : U64) : Decidable (Present entry) :=
  inferInstanceAs (Decidable (_ ≠ _))

def Huge (entry : U64) : Prop := entry &&& fPs ≠ 0#64

instance (entry : U64) : Decidable (Huge entry) :=
  inferInstanceAs (Decidable (_ ≠ _))

variable (offer : Nat → U64)

namespace SpaceState

/-- `table->e[index] = entry`. -/
def store (state : SpaceState) (table : U64) (index : Fin 512) (entry : U64) : SpaceState :=
  { state with
    mem := fun page slot => if page = table ∧ slot = index then entry else state.mem page slot }

/-- `kfree` of a table. -/
def kfree (state : SpaceState) (table : U64) : SpaceState :=
  { state with level := fun page => if page = table then 0 else state.level page }

def pagingRoot (state : SpaceState) : U64 :=
  if state.currentDirectory = 0#64 then state.kernelPml4 else state.currentDirectory

def takePage (state : SpaceState) (page : U64) (depth : Nat) : SpaceState :=
  { state with
    mem := fun other => if other = page then fun _ => 0#64 else state.mem other
    level := fun other => if other = page then depth else state.level other
    tick := state.tick + 1 }

/-- `alloc_level`, for a table of the given level.  The heap answers `kmalloc_pages`
with any page that is not in use, or not at all: `offer` is its answer to each request,
and an answer that is no such page stands for the null pointer. -/
def allocLevel (state : SpaceState) (depth : Nat) : SpaceState × Option U64 :=
  let page := offer state.tick
  if PageAddress page ∧ state.level page = 0 then
    (state.takePage page depth, some page)
  else ({ state with tick := state.tick + 1 }, none)

/-- The entry of a new table: the leaf's no-execute bit is not copied into it. -/
def tableEntry (child flags : U64) : U64 :=
  (child &&& fAddrMask) ||| ((flags &&& ~~~pageNx) ||| fPresent ||| fRw)

/-- `walk_get_or_alloc`: the table, and whether it was created. -/
def walkGetOrAlloc (state : SpaceState) (parent : U64) (index : Fin 512) (flags : U64)
    (depth : Nat) : SpaceState × Option U64 × Bool :=
  if ¬Present (state.mem parent index) then
    match allocLevel offer state depth with
    | (state, none) => (state, none, false)
    | (state, some child) =>
        (state.store parent index (tableEntry child flags),
          physToTablePtr (tableEntry child flags), true)
  else
    let entry := state.mem parent index ||| (flags &&& (fUser ||| fRw))
    (state.store parent index entry, physToTablePtr entry, false)

def levelIsEmpty (state : SpaceState) (table : U64) : Prop :=
  ∀ index, state.mem table index = 0#64

instance (state : SpaceState) (table : U64) : Decidable (levelIsEmpty state table) :=
  inferInstanceAs (Decidable (∀ _, _))

/-- The two tests of a walk: the entry is present and its table is not null. -/
def follow (entry : U64) : Option U64 := if Present entry then physToTablePtr entry else none

def freeIfEmptyChild (state : SpaceState) (parent : U64) (index : Fin 512) : SpaceState :=
  match follow (state.mem parent index) with
  | none => state
  | some child =>
      if state.levelIsEmpty child then (state.store parent index 0#64).kfree child else state

/-- `if (created) free_if_empty_child(parent, index)`. -/
def undoCreated (state : SpaceState) (created : Bool) (parent : U64) (index : Fin 512) :
    SpaceState :=
  if created then state.freeIfEmptyChild parent index else state

/-- `paging_map_page`: the new tables, and whether the page was mapped. -/
def pagingMapPage (state : SpaceState) (virt phys flags : U64) : SpaceState × Bool :=
  let root := state.pagingRoot
  if root = 0#64 then (state, false)
  else
    let virt := pageDown virt
    let phys := pageDown phys
    match walkGetOrAlloc offer state root (idx4 virt) flags 3 with
    | (state, none, _) => (state, false)
    | (state, some pdpt, createdPdpt) =>
    match walkGetOrAlloc offer state pdpt (idx3 virt) flags 2 with
    | (state, none, _) => (state.undoCreated createdPdpt root (idx4 virt), false)
    | (state, some pd, createdPd) =>
    if Huge (state.mem pd (idx2 virt)) then (state, false)
    else match walkGetOrAlloc offer state pd (idx2 virt) flags 1 with
    | (state, none, _) =>
        ((state.undoCreated createdPd pdpt (idx3 virt)).undoCreated createdPdpt root (idx4 virt),
          false)
    | (state, some pt, createdPt) =>
    if Present (state.mem pt (idx1 virt)) then
      (((state.undoCreated createdPt pd (idx2 virt)).undoCreated createdPd pdpt
          (idx3 virt)).undoCreated createdPdpt root (idx4 virt), false)
    else (state.store pt (idx1 virt) ((phys &&& fAddrMask) ||| (flags ||| fPresent)), true)

/-- The PDPT, PD and PT on the way to an address: the tests that `paging_unmap_page` and
`prune_empty_page_tables` make in turn. -/
def leafTable (state : SpaceState) (root virt : U64) : Option (U64 × U64 × U64) := do
  let pdpt ← follow (state.mem root (idx4 virt))
  let pd ← follow (state.mem pdpt (idx3 virt))
  let pt ← follow (state.mem pd (idx2 virt))
  return (pdpt, pd, pt)

def pruneEmptyPageTables (state : SpaceState) (root virt : U64) : SpaceState :=
  match state.leafTable root virt with
  | none => state
  | some (pdpt, pd, pt) =>
      if ¬state.levelIsEmpty pt then state
      else
        let state := (state.store pd (idx2 virt) 0#64).kfree pt
        if ¬state.levelIsEmpty pd then state
        else
          let state := (state.store pdpt (idx3 virt) 0#64).kfree pd
          if ¬state.levelIsEmpty pdpt then state
          else (state.store root (idx4 virt) 0#64).kfree pdpt

/-- `paging_unmap_page`.  The walk does not test the page-size bit. -/
def pagingUnmapPage (state : SpaceState) (virt : U64) : SpaceState :=
  let root := state.pagingRoot
  if root = 0#64 then state
  else
    let virt := pageDown virt
    match state.leafTable root virt with
    | none => state
    | some (_, _, pt) => (state.store pt (idx1 virt) 0#64).pruneEmptyPageTables root virt

def pagingSwitchDirectory (state : SpaceState) (dir : U64) : SpaceState :=
  if dir = 0#64 then state else { state with currentDirectory := dir }

/-- `1ULL << 21`. -/
def hugeSize : U64 := 0x200000#64

end SpaceState

end Cos.Paging
