import Cos.Lib.Memory
import Cos.Lib.Run
import Mathlib.Data.Nat.Bitwise

/-! # The heap of a user program

`cos_malloc`, `cos_free`, `cos_realloc`, `cos_calloc` and `cos_aligned_alloc` for a
program of one thread without arenas.  Every block lies in memory behind a header of
32 bytes, and the break is moved by `SYS_SBRK`.
-/

namespace Cos.Runtime

open Cos.Lib

structure HeapWindow where
  start : Nat
  limit : Nat
  positive : 0 < start
  aligned : start % 4096 = 0
  order : start ≤ limit
  canonical : limit < 2 ^ 47

structure Heap where
  mem : Memory
  /-- `g_heap_head`. -/
  head : Nat
  /-- `g_heap_cookie`. -/
  cookie : Nat
  heapEnd : Nat
  /-- `cos_exit` was called for a damaged heap. -/
  stopped : Bool
  /-- Auxiliary: what `sbrk` gave, the latest first. -/
  chunks : List Span

def Heap.start (W : HeapWindow) (mem : Memory) : Heap := ⟨mem, 0, 0, W.start, false, []⟩

/-- The increment is signed; pages below the old break are given back. -/
def cosSbrk (W : HeapWindow) (h : Heap) (increment : Nat) (ok : Bool) : Option (Heap × Nat) :=
  if ok = false then none
  else if increment = 0 then some (h, h.heapEnd)
  else if increment < 2 ^ 63 then
    let target := h.heapEnd + increment
    if 2 ^ 64 ≤ target ∨ W.limit < target then none
    else some ({ h with heapEnd := (target + 4095) / 4096 * 4096 }, h.heapEnd)
  else
    let shrink := 2 ^ 64 - increment
    if h.heapEnd - W.start < shrink then none
    else
      let newEnd := (h.heapEnd - shrink + 4095) / 4096 * 4096
      some ({ h with heapEnd := newEnd, mem := zeroBytes h.mem newEnd (h.heapEnd - newEnd) }, h.heapEnd)

abbrev blockHdr : Nat := 32

abbrev mallocAlign : Nat := 16

abbrev sbrkChunk : Nat := 65536

/-- `a` is a power of two. -/
def alignUp (n a : Nat) : Nat := (n + a - 1) % 2 ^ 64 / a * a

def sizeAt (m : Memory) (b : Nat) : Nat := loadWord m b 8

def nextAt (m : Memory) (b : Nat) : Nat := loadWord m (b + 8) 8

def freeAt (m : Memory) (b : Nat) : Bool := loadWord m (b + 16) 1 ≠ 0

def sealAt (m : Memory) (b : Nat) : Nat := loadWord m (b + 24) 8

def setSize (m : Memory) (b size : Nat) : Memory := storeWord m b 8 size

def setNext (m : Memory) (b next : Nat) : Memory := storeWord m (b + 8) 8 next

def setFree (m : Memory) (b : Nat) (free : Bool) : Memory := storeWord m (b + 16) 1 free.toNat

def setSeal (m : Memory) (b value : Nat) : Memory := storeWord m (b + 24) 8 value

def heapCookieInit (random : Nat) : Nat :=
  if random % 2 ^ 64 = 0 then 0x5DEECE66D else random % 2 ^ 64

def blkValue (cookie b size : Nat) (free : Bool) : Nat :=
  cookie ^^^ b ^^^ (size * 0x9E3779B97F4A7C15 % 2 ^ 64) ^^^
    (if free then 0xF5EE0000 else 0xA11C0000)

def blkSeal (cookie : Nat) (m : Memory) (b : Nat) : Memory :=
  setSeal m b (blkValue cookie b (sizeAt m b) (freeAt m b))

def blkCheck (cookie : Nat) (m : Memory) (b : Nat) : Bool :=
  cookie ≠ 0 && sealAt m b = blkValue cookie b (sizeAt m b) (freeAt m b)

inductive Fit
  | none
  | corrupt
  | found (b : Nat)

def findFit (cookie : Nat) (m : Memory) (size : Nat) : Nat → Nat → Fit
  | 0, _ => .corrupt
  | fuel + 1, b =>
      if b = 0 then .none
      else if !blkCheck cookie m b then .corrupt
      else if !freeAt m b || sizeAt m b < size then findFit cookie m size fuel (nextAt m b)
      else .found b

/-- The rest of a block becomes a free block when it can hold a header and an allocation. -/
def carve (cookie : Nat) (m : Memory) (b size : Nat) : Memory :=
  if (size + blockHdr + mallocAlign) % 2 ^ 64 ≤ sizeAt m b then
    let rest := (b + blockHdr + size) % 2 ^ 64
    let m := setSize m rest ((sizeAt m b + 2 ^ 64 - size + 2 ^ 64 - blockHdr) % 2 ^ 64)
    let m := setFree m rest true
    let m := setNext m rest (nextAt m b)
    let m := blkSeal cookie m rest
    let m := setSize m b size
    setNext m b rest
  else m

def walkFuel (W : HeapWindow) (h : Heap) : Nat := (h.heapEnd - W.start) / blockHdr + 2

/-- `cos_malloc_impl`. -/
def cosMalloc (W : HeapWindow) (random : Nat) (h : Heap) (size : Nat) (ok : Bool) : Heap × Nat :=
  if size = 0 then (h, 0)
  else
    let size := alignUp size mallocAlign
    let h := if h.cookie = 0 then { h with cookie := heapCookieInit random } else h
    match findFit h.cookie h.mem size (walkFuel W h) h.head with
    | .corrupt => ({ h with stopped := true }, 0)
    | .found b =>
        let m := setFree (carve h.cookie h.mem b size) b false
        ({ h with mem := blkSeal h.cookie m b }, b + blockHdr)
    | .none =>
        let need := alignUp ((size + blockHdr) % 2 ^ 64) sbrkChunk
        match cosSbrk W h need ok with
        | none => (h, 0)
        | some (h, b) =>
            let m := setSize h.mem b ((need + 2 ^ 64 - blockHdr) % 2 ^ 64)
            let m := setFree m b false
            let m := setNext m b h.head
            let m := carve h.cookie m b size
            ({ h with mem := blkSeal h.cookie m b, head := b, chunks := ⟨b, b + need⟩ :: h.chunks }, b + blockHdr)

abbrev alignedMagic : Nat := 0xA11C0DEDC0FFEE16

def cosIsAlignedBlock (m : Memory) (ptr : Nat) : Bool :=
  loadWord m (ptr - blockHdr) 8 = alignedMagic

/-- The `raw` field of the header below an aligned pointer. -/
def rawAt (m : Memory) (ptr : Nat) : Nat := loadWord m (ptr - blockHdr + 8) 8

def usableAt (m : Memory) (ptr : Nat) : Nat := loadWord m (ptr - blockHdr + 16) 8

def setAlignedHdr (m : Memory) (ptr raw usable : Nat) : Memory :=
  let m := storeWord m (ptr - blockHdr) 8 alignedMagic
  let m := storeWord m (ptr - blockHdr + 8) 8 raw
  storeWord m (ptr - blockHdr + 16) 8 usable

def cosAlignedAlloc (W : HeapWindow) (random : Nat) (h : Heap) (align size : Nat) (ok : Bool) :
    Heap × Nat :=
  if align = 0 ∨ align &&& (align - 1) ≠ 0 then (h, 0)
  else if size = 0 then (h, 0)
  else if align ≤ mallocAlign then cosMalloc W random h size ok
  else if 2 ^ 64 - 1 - align - blockHdr < size then (h, 0)
  else
    let r := cosMalloc W random h (size + align + blockHdr) ok
    if r.2 = 0 then r
    else
      let a := (r.2 + blockHdr + align - 1) / align * align
      ({ r.1 with mem := setAlignedHdr r.1.mem a r.2 size }, a)

def freeBlock (h : Heap) (b : Nat) : Heap :=
  if !blkCheck h.cookie h.mem b then { h with stopped := true }
  else if freeAt h.mem b then { h with stopped := true }
  else
    let m := blkSeal h.cookie (setFree h.mem b true) b
    let n := nextAt m b
    if n ≠ 0 ∧ freeAt m n = true ∧ b + blockHdr + sizeAt m b = n then
      if !blkCheck h.cookie m n then { h with mem := m, stopped := true }
      else
        let m := setSize m b (sizeAt m b + (blockHdr + sizeAt m n))
        let m := setNext m b (nextAt m n)
        { h with mem := blkSeal h.cookie m b }
    else { h with mem := m }

/-- `cos_free_impl`; an aligned block gives its raw pointer to it. -/
def cosFree : Nat → Heap → Nat → Heap
  | 0, h, _ => { h with stopped := true }
  | fuel + 1, h, ptr =>
      if ptr = 0 then h
      else if cosIsAlignedBlock h.mem ptr then
        cosFree fuel { h with mem := storeWord h.mem (ptr - blockHdr) 8 0 } (rawAt h.mem ptr)
      else freeBlock h (ptr - blockHdr)

def cosCalloc (W : HeapWindow) (random : Nat) (h : Heap) (count size : Nat) (ok : Bool) :
    Heap × Nat :=
  if count ≠ 0 ∧ (2 ^ 64 - 1) / count < size then (h, 0)
  else
    let r := cosMalloc W random h (count * size) ok
    if r.2 = 0 then r else ({ r.1 with mem := zeroBytes r.1.mem r.2 (count * size) }, r.2)

/-- `cos_realloc_impl`. -/
def cosRealloc (W : HeapWindow) (random : Nat) (h : Heap) (ptr size : Nat) (ok : Bool) :
    Heap × Nat :=
  if ptr = 0 then cosMalloc W random h size ok
  else if size = 0 then (cosFree 2 h ptr, 0)
  else
    let aligned := cosIsAlignedBlock h.mem ptr
    if !aligned && !blkCheck h.cookie h.mem (ptr - blockHdr) then ({ h with stopped := true }, 0)
    else
      let oldSize := if aligned then usableAt h.mem ptr else sizeAt h.mem (ptr - blockHdr)
      if size ≤ oldSize then (h, ptr)
      else
        let r := cosMalloc W random h size ok
        if r.2 = 0 then r
        else (cosFree 2 { r.1 with mem := copyBytes r.1.mem r.2 ptr oldSize } ptr, r.2)

structure LiveAlloc where
  ptr : Nat
  bytes : Nat
  align : Nat
  /-- Auxiliary: the pointer that `cos_malloc` gave. -/
  raw : Nat
deriving DecidableEq

structure HeapWorld where
  heap : Heap
  live : List LiveAlloc

def HeapWorld.start (W : HeapWindow) (mem : Memory) : HeapWorld := ⟨Heap.start W mem, []⟩

/-- A call, with the outcome of the `sbrk` it may come to, or a store into a live payload. -/
inductive HeapCall
  | malloc (size : Nat) (ok : Bool)
  | calloc (count size : Nat) (ok : Bool)
  | realloc (ptr size : Nat) (ok : Bool)
  | alignedAlloc (align size : Nat) (ok : Bool)
  | free (ptr : Nat)
  | store (ptr offset : Nat) (byte : UInt8)

def rawOf (m : Memory) (ptr : Nat) : Nat := if cosIsAlignedBlock m ptr then rawAt m ptr else ptr

namespace HeapWorld

def take (w : HeapWorld) (r : Heap × Nat) (bytes align : Nat) : HeapWorld :=
  if r.2 = 0 then { w with heap := r.1 }
  else ⟨r.1, ⟨r.2, bytes, align, rawOf r.1.mem r.2⟩ :: w.live⟩

def drop (w : HeapWorld) (ptr : Nat) : HeapWorld :=
  { w with live := w.live.filter fun a => a.ptr ≠ ptr }

variable (W : HeapWindow) (random : Nat)

def step (w : HeapWorld) (call : HeapCall) : HeapWorld :=
  if w.heap.stopped then w
  else
    match call with
    | .malloc size ok => w.take (cosMalloc W random w.heap size ok) size mallocAlign
    | .calloc count size ok => w.take (cosCalloc W random w.heap count size ok) (count * size) mallocAlign
    | .alignedAlloc align size ok => w.take (cosAlignedAlloc W random w.heap align size ok) size align
    | .realloc ptr size ok =>
        let r := cosRealloc W random w.heap ptr size ok
        if ptr = 0 then w.take r size mallocAlign
        else if size = 0 then { w.drop ptr with heap := r.1 }
        else if r.2 = 0 then { w with heap := r.1 }
        else (w.drop ptr).take r size mallocAlign
    | .free ptr => { w.drop ptr with heap := cosFree 2 w.heap ptr }
    | .store ptr offset byte =>
        { w with heap := { w.heap with mem := Function.update w.heap.mem (ptr + offset) byte } }

def Holds (w : HeapWorld) (ptr : Nat) : Prop := ptr = 0 ∨ ∃ a ∈ w.live, a.ptr = ptr

def Proper (w : HeapWorld) : HeapCall → Prop
  | .malloc size _ => size < 2 ^ 64
  | .calloc count size _ => count < 2 ^ 64 ∧ size < 2 ^ 64
  | .realloc ptr size _ => w.Holds ptr ∧ size < 2 ^ 64
  | .alignedAlloc align size _ => align < 2 ^ 64 ∧ size < 2 ^ 64
  | .free ptr => w.Holds ptr
  | .store ptr offset _ => ∃ a ∈ w.live, a.ptr = ptr ∧ offset < a.bytes

end HeapWorld

end Cos.Runtime
