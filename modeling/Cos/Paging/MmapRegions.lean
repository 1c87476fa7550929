import Cos.Lib.Span
import Mathlib.Data.Fintype.Basic
import Mathlib.Data.Nat.Bitwise

/-! # Anonymous memory regions of a native process

`SYS_MMAP`, `SYS_MUNMAP` and `SYS_MPROTECT` on the fixed table of regions, and the page faults that
fill them.  The page table is a map from page numbers to the permissions of the leaf.
-/

namespace Cos.Mmap

def pageSize : Nat := 4096
def mmapMaxRegions : Nat := 16
def mmapBase : Nat := 0x0000028000000000
def mmapMaxTotal : Nat := 1073741824
def mprotectMax : Nat := 1099511627776
/-- One more than the largest `uint64_t`. -/
def word : Nat := 18446744073709551616
/-- `(uint64_t)-1`, what a call that fails returns. -/
def failed : Nat := word - 1

def wrap (n : Nat) : Nat := n % word

def roundUp (length : Nat) : Nat := wrap (length + pageSize - 1) / pageSize * pageSize

/-- `PAGE_RW` and `PAGE_NX` of a leaf; `PAGE_PRESENT` and `PAGE_USER` are always set here. -/
structure Flags where
  rw : Bool
  nx : Bool
deriving DecidableEq, Repr

structure Region where
  start : Nat
  stop : Nat
  used : Bool
  writable : Bool
  executable : Bool
deriving DecidableEq, Repr

abbrev Slot := Fin mmapMaxRegions

structure Proc where
  regions : Slot → Region
  nextOffset : Nat
  pages : Nat → Option Flags

def slots : List Slot := List.finRange mmapMaxRegions

namespace Proc

/-- The leaf a walk for `addr` ends at: bits 12 to 47. -/
def leaf (addr : Nat) : Nat := addr / pageSize % 68719476736

def setRegion (p : Proc) (i : Slot) (region : Region) : Proc :=
  { p with regions := Function.update p.regions i region }

def setProt (p : Proc) (i : Slot) (writable executable : Bool) : Proc :=
  p.setRegion i { p.regions i with writable, executable }

def setPages (p : Proc) (pages : Nat → Option Flags) : Proc := { p with pages }

def free (p : Proc) (i : Slot) : Bool := !(p.regions i).used

def cosMmapAlloc (p : Proc) (length : Nat) (writable : Bool) : Proc × Option Nat :=
  if length = 0 then (p, none)
  else
    let rounded := roundUp length
    if wrap (p.nextOffset + rounded) < p.nextOffset then (p, none)
    else if wrap (p.nextOffset + rounded) > mmapMaxTotal then (p, none)
    else
      match slots.find? p.free with
      | none => (p, none)
      | some slot =>
          let start := wrap (mmapBase + p.nextOffset)
          ({ p.setRegion slot { start, stop := wrap (start + rounded), used := true, writable, executable := false } with
              nextOffset := wrap (p.nextOffset + rounded) }, some start)

def sysMmap (p : Proc) (rdi rsi : Nat) : Proc × Nat :=
  match p.cosMmapAlloc rdi (rsi.testBit 1) with
  | (q, none) => (q, failed)
  | (q, some addr) => (q, addr)

def unmapPage (pages : Nat → Option Flags) (addr : Nat) : Nat → Option Flags :=
  Function.update pages (leaf addr) none

/-- The loop ends at the first address that overflows, and so do all after it. -/
def releaseUserRange (pages : Nat → Option Flags) (virt count : Nat) : Nat → Option Flags :=
  if virt = 0 then pages
  else (List.range count).foldl
    (fun pages i => if virt + i * pageSize < word then unmapPage pages (virt + i * pageSize)
    else pages) pages

def matchesExactly (p : Proc) (addr rounded : Nat) (i : Slot) : Bool :=
  (p.regions i).used && (p.regions i).start == addr &&
    wrap ((p.regions i).stop + word - (p.regions i).start) == rounded

def cosMmapFree (p : Proc) (addr length : Nat) : Proc × Bool :=
  match slots.find? (p.matchesExactly addr (roundUp length)) with
  | none => (p, false)
  | some i =>
      let r := p.regions i
      ({ p.setRegion i { r with used := false } with
          pages := releaseUserRange p.pages r.start (wrap (r.stop + word - r.start) / pageSize) }, true)

def sysMunmap (p : Proc) (rdi rsi : Nat) : Proc × Nat :=
  match p.cosMmapFree rdi rsi with
  | (q, true) => (q, 0)
  | (q, false) => (q, failed)

def pagingProtectPage (pages : Nat → Option Flags) (addr : Nat) (flags : Flags) :
    Nat → Option Flags :=
  match pages (leaf addr) with
  | none => pages
  | some _ => Function.update pages (leaf addr) (some flags)

def protectPages (pages : Nat → Option Flags) (addr count : Nat) (flags : Flags) :
    Nat → Option Flags :=
  (List.range count).foldl
    (fun pages i => pagingProtectPage pages (wrap (addr + i * pageSize)) flags) pages

def surrounds (p : Proc) (addr rounded : Nat) (i : Slot) : Bool :=
  (p.regions i).used && decide ((p.regions i).start ≤ addr) &&
    decide (wrap (addr + rounded) ≤ (p.regions i).stop)

/-- Give the found slot exactly the requested middle; what is left of it on either side goes to a
free slot. -/
def split (p : Proc) (found : Slot) (addr rounded : Nat) : Option Proc :=
  let reg := p.regions found
  let stop := wrap (addr + rounded)
  let front := wrap (addr + word - reg.start)
  let back := wrap (reg.stop + word - stop)
  if front > 0 ∨ back > 0 then
    let frontSlot := if front > 0 then slots.find? fun i => p.free i && i != found else none
    let backSlot := if back > 0 then slots.find? fun i => p.free i && i != found && some i != frontSlot else none
    if (front > 0 ∧ frontSlot = none) ∨ (back > 0 ∧ backSlot = none) then none
    else
      let withFront := match frontSlot with
        | some i => p.setRegion i { reg with stop := addr }
        | none => p
      let withBack := match backSlot with
        | some i => withFront.setRegion i { reg with start := stop }
        | none => withFront
      some (withBack.setRegion found { reg with start := addr, stop })
  else some p

def protFlags (nxAvailable writable executable : Bool) : Flags :=
  ⟨writable, !executable && nxAvailable⟩

/-- Split the region around the range, enter the new permissions and give them to the resident
pages. -/
def protectRange (nxAvailable : Bool) (p : Proc) (addr rounded : Nat) (wantWrite wantExec : Bool) :
    Option Proc := do
  let found ← slots.find? (p.surrounds addr rounded)
  let q ← p.split found addr rounded
  return (q.setProt found wantWrite wantExec).setPages
    (protectPages q.pages addr (rounded / pageSize) (protFlags nxAvailable wantWrite wantExec))

def sysMprotect (nxAvailable : Bool) (p : Proc) (rdi rsi rdx : Nat) : Proc × Nat :=
  let wantWrite := rdx.testBit 1
  let wantExec := rdx.testBit 2
  if wantWrite && wantExec then (p, failed)
  else if rsi = 0 ∨ rsi > mprotectMax ∨ rdi % pageSize ≠ 0 then (p, failed)
  else
    match p.protectRange nxAvailable rdi (roundUp rsi) wantWrite wantExec with
    | none => (p, failed)
    | some q => (q, 0)

def covers (p : Proc) (page : Nat) (i : Slot) : Bool :=
  (p.regions i).used && decide ((p.regions i).start ≤ page) && decide (page < (p.regions i).stop)

/-- `task_alloc_page`; `luck` says whether a frame and the tables were found. -/
def allocPage (pages : Nat → Option Flags) (page : Nat) (flags : Flags) (luck : Bool) :
    Nat → Option Flags :=
  match pages (leaf page) with
  | some _ => pages
  | none => if luck then Function.update pages (leaf page) (some flags) else pages

/-- The part of `task_handle_page_fault` about regions. -/
def handlePageFault (nxAvailable : Bool) (p : Proc) (addr : Nat) (luck : Bool) : Proc :=
  let page := addr / pageSize * pageSize
  match slots.find? (p.covers page) with
  | none => p
  | some i =>
      { p with pages := allocPage p.pages page (protFlags nxAvailable (p.regions i).writable (p.regions i).executable) luck }

end Proc

inductive Step
  | mmap (length prot : BitVec 64)
  | munmap (addr length : BitVec 64)
  | mprotect (addr length prot : BitVec 64)
  | fault (addr : BitVec 64) (luck : Bool)
  /-- Pages of the program, its libraries, its heap and its stack. -/
  | elsewhere (pages : Nat → Option Flags)

/-- The part of the address space that regions may take. -/
def InWindow (page : Nat) : Prop :=
  mmapBase / pageSize ≤ page ∧ page < (mmapBase + mmapMaxTotal) / pageSize

instance (page : Nat) : Decidable (InWindow page) := inferInstanceAs (Decidable (_ ∧ _))

namespace Proc

/-- The state after a step, and the value a call returns. -/
def step (nxAvailable : Bool) (p : Proc) : Step → Proc × Nat
  | .mmap length prot => p.sysMmap length.toNat prot.toNat
  | .munmap addr length => p.sysMunmap addr.toNat length.toNat
  | .mprotect addr length prot => p.sysMprotect nxAvailable addr.toNat length.toNat prot.toNat
  | .fault addr luck => (p.handlePageFault nxAvailable addr.toNat luck, 0)
  | .elsewhere pages =>
    ({ p with pages := fun page => if InWindow page then p.pages page else pages page }, 0)

def run (nxAvailable : Bool) (p : Proc) (steps : List Step) : Proc :=
  steps.foldl (fun p s => (p.step nxAvailable s).1) p

/-- `process_create` for a user process: `slide` is `cos_random_u64() % 16384`. -/
def create (slide : Nat) : Proc where
  regions _ := ⟨0, 0, false, false, false⟩
  nextOffset := slide % 16384 * pageSize
  pages _ := none

end Proc

end Cos.Mmap
