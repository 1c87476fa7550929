import Cos.Lib.Memory
import Mathlib.Data.Nat.Bitwise

/-! # The kernel heap

`src/kernel/memory.c` keeps the blocks of one array as a chain in the order of their
addresses, with a list of the free ones and a cache for each small size.  A request that
finds no room there gets pages of its own.
-/

namespace Cos.Kheap

open Cos.Lib

abbrev headerSize : Nat := 88

abbrev minSplitPayload : Nat := 32

abbrev pageSize : Nat := 4096

def flagZeroed : Nat := 0x02
def flagAligned : Nat := 0x04
def flagExtension : Nat := 0x10
def flagSmallCache : Nat := 0x80

def blockMagic : Nat := 0xCAFEBABE
def guardMagic : Nat := 0xDEADBEEF

def smallClassSizes : List Nat :=
  [16, 32, 48, 64, 96, 128, 192, 256, 384, 512, 768, 1024, 2048, 4096]

def smallCacheMaxPerClass : Nat := 64

def extMaxAllocations : Nat := 128

/-- `ALIGN_UP`, for a power of two. -/
def alignUp (x a : Nat) : Nat := (x + (a - 1)) % 2 ^ 64 / a * a

/-- Where the array lies, and `heap_limit_bytes`.  The kernel image is linked at 1 MiB and the array
has 512 MiB. -/
structure HeapPlace where
  start : Nat
  limit : Nat
  positive : 0 < start
  room : 88 ≤ limit
  low : start + limit ≤ 0xAAAA8000

/-- `memory_block_t`. -/
structure Block where
  addr : Nat
  size : Nat
  isFree : Bool
  flags : Nat
  allocId : Nat

/-- A used slot of `cos_ext_slots`, and the header that lies at its base. -/
structure ExtBlock where
  base : Nat
  pages : Nat
  size : Nat
  flags : Nat
  allocId : Nat

structure Heap where
  /-- The blocks from `heap_head` on. -/
  chain : List Block
  /-- The headers from `free_list_head` on. -/
  free : List Nat
  /-- The headers of each list of `small_free_lists`. -/
  cached : Nat → List Nat
  ext : List ExtBlock
  /-- `cos_ext_total_bytes`. -/
  extTotal : Nat
  /-- What `cos_ext_get_cap` has computed. -/
  extCap : Nat
  nextAllocId : Nat
  /-- `mem_stats.current_usage`. -/
  currentUsage : Nat
  mem : Memory
  /-- A header was followed that the heap has not written. -/
  damaged : Bool

/-- `size <= small_class_sizes[i]`, for the first such class. -/
def smallClassIndex (size : Nat) : Option Nat := smallClassSizes.findIdx? fun most => size ≤ most

/-- The block whose header is at an address, with those before and behind it. -/
def locate (addr : Nat) : List Block → Option (List Block × Block × List Block)
  | [] => none
  | block :: rest =>
      if block.addr = addr then some ([], block, rest)
      else (locate addr rest).map fun (before, found, after) => (block :: before, found, after)

def calculateChecksum (m : Memory) (addr : Nat) : Nat :=
  ((List.range 80).map fun i => (m (addr + i)).toNat).sum ^^^ 0xAAAAAAAA

/-- The tests of `validate_block` on bytes that no block's header is at. -/
def LooksValid (m : Memory) (addr : Nat) : Prop :=
  loadWord m addr 8 = blockMagic ∧ loadWord m (addr + 72) 8 = guardMagic ∧
    loadWord m (addr + 80) 8 = calculateChecksum m addr

instance (m : Memory) (addr : Nat) : Decidable (LooksValid m addr) :=
  inferInstanceAs (Decidable (_ ∧ _))

/-- What a header is found to be.  The headers of the blocks are as the heap has written them;
`forged` bytes only look like one. -/
inductive Found
  | none
  | block (before : List Block) (block : Block) (after : List Block)
  | forged

namespace Heap

/-- `update_memory_stats`, of which the usage is kept. -/
def updateMemoryStats (h : Heap) (size : Nat) (allocated : Bool) : Heap :=
  if allocated then { h with currentUsage := h.currentUsage + size }
    else { h with currentUsage := h.currentUsage - size }

def validateBlock (P : HeapPlace) (h : Heap) (addr : Nat) : Found :=
  if P.start ≤ addr ∧ addr + headerSize ≤ P.start + P.limit then
    match locate addr h.chain with
    | some (before, block, after) => .block before block after
    | none => if LooksValid h.mem addr then .forged else .none
  else .none

def headerOf (ptr : Nat) : Nat := (ptr + 2 ^ 64 - headerSize) % 2 ^ 64

def findBlockFromUserPtr (P : HeapPlace) (h : Heap) (ptr : Nat) : Found :=
  if ptr = 0 then .none
  else match h.validateBlock P (headerOf ptr) with
  | .none =>
      if P.start + 8 ≤ ptr ∧ ptr < P.start + P.limit then
        let raw := loadWord h.mem (ptr - 8) 8
        if raw = 0 then .none else h.validateBlock P (headerOf raw)
      else .none
  | found => found

/-- `memset(user, 0, size)` where the flags ask for it. -/
def zeroed (h : Heap) (flags user size : Nat) : Heap :=
  if flags &&& flagZeroed ≠ 0 then { h with mem := zeroBytes h.mem user size } else h

/-- The first branch of `kmalloc_flags`: a block of the size class is on its list. -/
def takeCached (h : Heap) (size flags : Nat) : Option (Heap × Nat) := do
  let index ← smallClassIndex size
  let addr ← (h.cached index).head?
  let (before, block, after) ← locate addr h.chain
  let h := { h with
    cached := Function.update h.cached index (h.cached index).tail
    chain := before ++ { block with isFree := false, flags, allocId := h.nextAllocId } :: after
    nextAllocId := h.nextAllocId + 1 }
  some ((h.zeroed flags (addr + headerSize) block.size).updateMemoryStats block.size true,
    addr + headerSize)

def firstFit (h : Heap) (size : Nat) : Option (List Block × Block × List Block) :=
  h.free.findSome? fun addr => (locate addr h.chain).filter fun (_, block, _) => block.isFree &&
    size ≤ block.size

/-- `split_block`: the block, and the one that is made of its end. -/
def splitBlock (block : Block) (size : Nat) : Block × Option Block :=
  let remaining := if size < block.size then block.size - size else 0
  if remaining < headerSize + minSplitPayload then (block, none)
  else ({ block with size },
    some ⟨block.addr + headerSize + size, remaining - headerSize, true, 0, 0⟩)

def takeFree (h : Heap) (before : List Block) (block : Block) (after : List Block)
    (size flags : Nat) : Heap × Nat :=
  let free := h.free.erase block.addr
  let (block, rest) := splitBlock block size
  let h := { h with
    chain := before ++ { block with isFree := false, flags, allocId := h.nextAllocId } :: (rest.toList ++ after)
    free := (rest.map Block.addr).toList ++ free
    nextAllocId := h.nextAllocId + 1 }
  ((h.zeroed flags (block.addr + headerSize) size).updateMemoryStats size true,
    block.addr + headerSize)

/-- Pages that `paging_alloc_pages` can give: they keep clear of the array and of what it has given
before, and are at addresses that the processor takes. -/
def FreshPages (P : HeapPlace) (h : Heap) (base bytes : Nat) : Prop :=
  base ≠ 0 ∧ base + bytes ≤ 2 ^ 47 ∧ (base + bytes ≤ P.start ∨ P.start + P.limit ≤ base) ∧
    ∀ e ∈ h.ext, base + bytes ≤ e.base ∨ e.base + e.pages * pageSize ≤ base

instance (P : HeapPlace) (h : Heap) (base bytes : Nat) : Decidable (FreshPages P h base bytes) :=
  inferInstanceAs (Decidable (_ ∧ _))

/-- `cos_ext_alloc`.  `given` is the answer of `paging_alloc_pages`; one that is no fresh range
stands for 0. -/
def cosExtAlloc (P : HeapPlace) (h : Heap) (size flags given : Nat) : Option (Heap × Nat) :=
  if h.extCap = 0 then none
  else
    let needed := alignUp (size + headerSize) pageSize
    if h.extCap < h.extTotal + needed then none
    else if extMaxAllocations ≤ h.ext.length then none
    else if ¬ FreshPages P h given needed then none
    else
      let h' := { h with
        ext := ⟨given, needed / pageSize, needed - headerSize, flags ||| flagExtension, h.nextAllocId⟩ :: h.ext
        extTotal := h.extTotal + needed
        nextAllocId := h.nextAllocId + 1 }
      some (h'.zeroed flags (given + headerSize) (needed - headerSize), given + headerSize)

def kmallocFlags (P : HeapPlace) (h : Heap) (size flags given : Nat) : Heap × Nat :=
  if size = 0 then (h, 0)
  else
    let size := alignUp size 16
    if P.limit < size then (h, 0)
    else match h.takeCached size flags with
    | some result => result
    | none =>
    match h.firstFit size with
    | some (before, block, after) => h.takeFree before block after size flags
    | none =>
    match h.cosExtAlloc P size flags given with
    | some (h, user) => (h.updateMemoryStats size true, user)
    | none => (h, 0)

def kmalloc (P : HeapPlace) (h : Heap) (size given : Nat) : Heap × Nat :=
  h.kmallocFlags P size 0 given

def kmallocAligned (P : HeapPlace) (h : Heap) (size alignment given : Nat) : Heap × Nat :=
  if size = 0 then (h, 0)
  else if alignment = 0 ∨ alignment &&& (alignment - 1) ≠ 0 then (h, 0)
  else
    let alignment := if alignment < 8 then 8 else alignment
    let total := (size + alignment - 1 + 8) % 2 ^ 64
    match h.kmallocFlags P total flagAligned given with
    | (h, raw) =>
        if raw = 0 then (h, 0)
        else
          let aligned := alignUp (raw + 8) alignment
          ({ h with mem := storeWord h.mem (aligned - 8) 8 raw }, aligned)

/-- `memset(user, 0xAA, size)` where the block was not asked for zeroed. -/
def poisoned (h : Heap) (flags user size : Nat) : Heap :=
  if flags &&& flagZeroed = 0 then
    { h with mem := fun x => if user ≤ x ∧ x < user + size then 0xAA else h.mem x }
  else h

def cacheIndex (h : Heap) (block : Block) : Option Nat :=
  if block.flags &&& flagAligned = 0 then
    (smallClassIndex block.size).filter fun index =>
      smallClassSizes[index]? = some block.size && (h.cached index).length < smallCacheMaxPerClass
  else none

/-- A freed block takes in the free block behind it: the two, the blocks behind, and the free
list. -/
def mergeForward (block : Block) (after : List Block) (free : List Nat) :
    Block × List Block × List Nat :=
  match after with
  | next :: rest =>
      if next.isFree then ({ block with size := block.size + (headerSize + next.size) }, rest, free.erase next.addr)
      else (block, after, free)
  | [] => (block, after, free)

/-- A freed block is taken in by the free block before it, or put on the free list. -/
def mergeBackward (before : List Block) (block : Block) (after : List Block) (free : List Nat) :
    List Block × List Nat :=
  match before.getLast? with
  | some prev =>
      if prev.isFree then (before.dropLast ++ { prev with size := prev.size + (headerSize + block.size) } :: after, free)
      else (before ++ block :: after, block.addr :: free)
  | none => (before ++ block :: after, block.addr :: free)

/-- `kfree` of a block that is in use. -/
def freeBlock (h : Heap) (before : List Block) (block : Block) (after : List Block) : Heap :=
  let h := (h.poisoned block.flags (block.addr + headerSize) block.size).updateMemoryStats block.size false
  match h.cacheIndex block with
  | some index =>
      { h with
        chain := before ++ { block with isFree := false, flags := flagSmallCache, allocId := 0 } :: after
        cached := Function.update h.cached index (block.addr :: h.cached index) }
  | none =>
      let (block, after, free) := mergeForward { block with isFree := true, flags := 0, allocId := 0 } after h.free
      let (chain, free) := mergeBackward before block after free
      { h with chain, free }

def cosExtFindBlock (h : Heap) (ptr : Nat) : Option ExtBlock :=
  if ptr = 0 then none else h.ext.find? fun e => e.base = headerOf ptr

/-- `kfree` of an extension block, with `cos_ext_free`. -/
def freeExt (h : Heap) (e : ExtBlock) : Heap :=
  let h := (h.poisoned e.flags (e.base + headerSize) e.size).updateMemoryStats e.size false
  { h with ext := h.ext.filter fun other => other.base ≠ e.base, extTotal := h.extTotal - e.pages * pageSize }

def kfree (P : HeapPlace) (h : Heap) (ptr : Nat) : Heap :=
  if ptr = 0 then h
  else match h.cosExtFindBlock ptr with
  | some e => h.freeExt e
  | none =>
  match h.findBlockFromUserPtr P ptr with
  | .none => h
  | .forged => { h with damaged := true }
  | .block before block after => if block.isFree then h else h.freeBlock before block after

/-- The move of `krealloc`: what it allocates gets the bytes of the block's size from the pointer
on, which is freed. -/
def reallocMove (P : HeapPlace) (h : Heap) (ptr size flags newSize given : Nat) : Heap × Nat :=
  match h.kmallocFlags P newSize flags given with
  | (h, np) =>
      if np = 0 then (h, 0)
      else
        let copySize := if size < newSize then size else newSize
        ({ h with mem := copyBytes h.mem np ptr copySize }.kfree P ptr, np)

def krealloc (P : HeapPlace) (h : Heap) (ptr newSize given : Nat) : Heap × Nat :=
  if ptr = 0 then h.kmalloc P newSize given
  else if newSize = 0 then (h.kfree P ptr, 0)
  else match h.cosExtFindBlock ptr with
  | some e =>
      if newSize ≤ e.size then (h, ptr)
      else h.reallocMove P ptr e.size (e.flags &&& (255 - flagExtension)) newSize given
  | none =>
  match h.findBlockFromUserPtr P ptr with
  | .none => (h, 0)
  | .forged => ({ h with damaged := true }, 0)
  | .block _ block _ =>
      if newSize ≤ block.size then (h, ptr) else h.reallocMove P ptr block.size block.flags newSize given

end Heap

end Cos.Kheap
