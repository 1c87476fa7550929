import Mathlib.Logic.Function.Basic
import Cos.Elf.Relocate

/-! # ELF files and how they are mapped

`validate_loads` accepts or rejects the program headers of a file and computes the span of
its addresses; `cos_elf_map` maps every `PT_LOAD` segment at a bias and copies its bytes in.
Addresses and sizes are 64-bit words, written as natural numbers with the wrap spelled out.
-/

namespace Cos.Elf

inductive PhType where
  | load
  | dynamic
  | interp
  | tls
  | gnuRelro
  | other
deriving DecidableEq, Repr

/-- `elf64_phdr_t`. -/
structure Phdr where
  type : PhType
  offset : Nat
  vaddr : Nat
  filesz : Nat
  memsz : Nat
  align : Nat
deriving DecidableEq, Repr

inductive EType where
  | exec
  | dyn
deriving DecidableEq, Repr

/-- A file whose ELF header `validate_header` accepts.  `dynamicOk` says whether the dynamic
section and its string table lie inside the file, `dynamicReadable` whether `scan_dynamic`
can read it once mapped; the names are those `cos_elf_inspect` copies out. -/
structure ElfImage where
  eType : EType
  entry : Nat
  length : Nat
  bytes : Nat → UInt8
  phdrs : List Phdr
  dynamicOk : Bool
  dynamicReadable : Bool
  needed : List CString
  soname : CString
  nodelete : Bool
  dyn : DynInfo

def pageDown (v : Nat) : Nat := 4096 * (v / 4096)

/-- `page_up`, which leaves an address in the last page alone. -/
def pageUp (v : Nat) : Nat := if 4095 + v ≥ 2 ^ 64 then v else 4096 * ((4095 + v) / 4096)

def sub64 (a b : Nat) : Nat := (a + 2 ^ 64 - b) % 2 ^ 64

def rangeOk (base add limit : Nat) : Bool :=
  base ≤ limit && base + add < 2 ^ 64 && base + add ≤ limit

/-- `user_range_ok` outside kernel mode. -/
def userSpanOk (start len : Nat) : Bool :=
  len == 0 || (start + len < 2 ^ 64 && 0x8000000000 ≤ start && start + len ≤ 0x800000000000)

/-- `COS_ELF_MAX_SEGMENT`, `COS_ELF_MAX_TOTAL`, `COS_ELF_MAX_LOAD`. -/
def maxSegmentBytes : Nat := 256 * 1024 * 1024
def maxTotalBytes : Nat := 512 * 1024 * 1024
def maxLoad : Nat := 16

def Seg.meets (a b : Seg) : Bool := a.start < b.stop && b.start < a.stop

/-- What `validate_loads` has seen so far. -/
structure LoadBounds where
  total : Nat
  minV : Nat
  maxV : Nat
  count : Nat
deriving DecidableEq, Repr

def Phdr.overlaps (a b : Phdr) : Bool :=
  b.type == .load && b.memsz != 0 && a.vaddr < b.vaddr + b.memsz && b.vaddr < a.vaddr + a.memsz

/-- The loop of `validate_loads` over the remaining headers. -/
def validateFrom (length : Nat) : List Phdr → LoadBounds → Option LoadBounds
  | [], bounds => some bounds
  | ph :: rest, bounds =>
      if ph.type ≠ .load then validateFrom length rest bounds
      else if ph.filesz > ph.memsz ∨ ph.memsz > maxSegmentBytes ∨ !rangeOk ph.offset ph.filesz
          length ∨ ph.vaddr + ph.memsz ≥ 2 ^ 64 ∨ bounds.total + ph.memsz > maxTotalBytes then none
      else if ph.memsz = 0 then validateFrom length rest { bounds with total := bounds.total + ph.memsz }
      else if bounds.count + 1 > maxLoad ∨ rest.any ph.overlaps then none
      else validateFrom length rest {
        total := bounds.total + ph.memsz
        minV := min ph.vaddr bounds.minV
        maxV := max (ph.vaddr + ph.memsz) bounds.maxV
        count := bounds.count + 1 }

/-- `validate_loads`: the lowest and the highest address of the segments. -/
def validateLoads (image : ElfImage) : Option (Nat × Nat) :=
  match validateFrom image.length image.phdrs ⟨0, 2 ^ 64 - 1, 0, 0⟩ with
  | none => none
  | some bounds => if bounds.count = 0 then none else some (bounds.minV, bounds.maxV)

/-- `cos_elf_info_t`, as far as the linker reads it. -/
structure ElfInfo where
  minVaddr : Nat
  span : Nat
deriving DecidableEq, Repr

def cosElfInspect (image : ElfImage) : Option ElfInfo :=
  match validateLoads image with
  | none => none
  | some (minV, maxV) =>
      if image.phdrs.any (fun ph => ph.type == .dynamic) ∧ !image.dynamicOk then none
      else some ⟨pageDown minV, sub64 (pageUp maxV) (pageDown minV)⟩

/-- The user pages that are mapped, their bytes, how many allocations have been made and,
for the record, the page ranges that segment bytes were copied into. -/
structure UserPages where
  mapped : Nat → Bool
  bytes : Nat → UInt8
  tick : Nat
  copied : List Seg

def UserPages.allocate (memory : Nat → Bool) (pages : UserPages) : Bool × UserPages :=
  (memory pages.tick, { pages with tick := pages.tick + 1 })

/-- `map_range_rw` over `count` pages from page number `first` on: a page that is mapped
already is left alone, a fresh one is zeroed. -/
def mapRangeRw (memory : Nat → Bool) : Nat → Nat → UserPages → Bool × UserPages
  | _, 0, pages => (true, pages)
  | first, count + 1, pages =>
      if pages.mapped first then mapRangeRw memory (first + 1) count pages
      else
        match pages.allocate memory with
        | (false, pages) => (false, pages)
        | (true, pages) =>
            mapRangeRw memory (first + 1) count { pages with
              mapped := Function.update pages.mapped first true
              bytes := fun a => if a / 4096 = first then 0 else pages.bytes a }

def UserPages.userMem (pages : UserPages) : UserMem := fun a =>
  if pages.mapped (a.toNat / 4096) then some (pages.bytes a.toNat) else none

def UserPages.withMem (pages : UserPages) (mem : UserMem) : UserPages :=
  { pages with bytes := fun a => (mem (BitVec.ofNat 64 a)).getD (pages.bytes a) }

/-- `drop_page` over the pages of the given ranges. -/
def UserPages.unmap (pages : UserPages) (segs : List Seg) : UserPages :=
  { pages with mapped := fun p =>
      pages.mapped p && !segs.any fun seg => seg.start / 4096 ≤ p && p < seg.stop / 4096 }

/-- The bytes of a segment, its `.bss` tail zeroed, into its pages `seg`. -/
def copySegment (image : ElfImage) (ph : Phdr) (v0 : Nat) (seg : Seg) (pages : UserPages) :
    UserPages :=
  { pages with
    bytes := fun a =>
      if v0 ≤ a ∧ a < v0 + ph.filesz then image.bytes (ph.offset + (a - v0))
      else if v0 ≤ a ∧ a < v0 + ph.memsz then 0
      else pages.bytes a
    copied := pages.copied ++ [seg] }

/-- The segment loop of `cos_elf_map`. -/
def mapSegments (memory : Nat → Bool) (image : ElfImage) (bias : Nat) :
    List Phdr → List Seg → UserPages → Option (List Seg) × UserPages
  | [], segs, pages => (some segs, pages)
  | ph :: rest, segs, pages =>
      if ph.type ≠ .load ∨ ph.memsz = 0 then mapSegments memory image bias rest segs pages
      else
        let v0 := (bias + ph.vaddr) % 2 ^ 64
        let v1 := (v0 + ph.memsz) % 2 ^ 64
        let s := pageDown v0
        let e := pageUp v1
        if !userSpanOk s (sub64 e s) then (none, pages)
        else
          match mapRangeRw memory (s / 4096) ((e - s) / 4096) pages with
          | (false, pages) => (none, pages)
          | (true, pages) =>
              mapSegments memory image bias rest (segs ++ [⟨s, e⟩])
                (copySegment image ph v0 ⟨s, e⟩ pages)

/-- The checks of `cos_elf_map` on `PT_TLS` and `PT_GNU_RELRO`. -/
def tailOk (bias : Nat) (segs : List Seg) (ph : Phdr) : Bool :=
  match ph.type with
  | .tls => ph.filesz ≤ ph.memsz
  | .gnuRelro =>
      let r0 := (bias + ph.vaddr) % 2 ^ 64
      r0 + ph.memsz < 2 ^ 64 && (ph.memsz == 0 || segs.any fun seg =>
        seg.start ≤ pageDown r0 && pageUp (r0 + ph.memsz) ≤ seg.stop)
  | _ => true

/-- The `PT_TLS` header that counts: each one overwrites what the one before it said. -/
def ElfImage.tlsHeader (image : ElfImage) : Option Phdr :=
  image.phdrs.reverse.find? fun ph => ph.type == .tls

def ElfImage.isDynamic (image : ElfImage) : Bool := image.phdrs.any fun ph => ph.type == .dynamic

/-- The record `cos_elf_map` fills in. -/
def mappedObject (image : ElfImage) (bias minV maxV : Nat) (segs : List Seg) : ElfObject where
  base := BitVec.ofNat 64 bias
  mapStart := (bias + pageDown minV) % 2 ^ 64
  mapEnd := (bias + pageUp maxV) % 2 ^ 64
  segs := segs
  dynamic := image.isDynamic
  hasTls := image.tlsHeader.isSome
  nodelete := image.isDynamic && image.nodelete
  tlsMemsz := image.tlsHeader.elim 0 Phdr.memsz
  tlsAlign := image.tlsHeader.elim 0 fun ph => if ph.align = 0 then 1 else ph.align
  tlsModid := 0
  tlsOffset := 0
  dyn := if image.isDynamic then image.dyn else .empty

def cosElfPieBase (random : Nat) : Nat := 0x8000000000 + 2 ^ 21 * (random % 512)

/-- The bias `cos_elf_map` works with: an `ET_DYN` file without one gets the PIE base. -/
def effectiveBias (pie : Nat) (image : ElfImage) (bias : Nat) : Nat :=
  if image.eType = .dyn ∧ bias = 0 then pie else bias

/-- `cos_elf_map` at the given bias; `pie` is what `cos_elf_pie_base` returns. -/
def cosElfMap (memory : Nat → Bool) (pie : Nat) (image : ElfImage) (bias : Nat)
    (pages : UserPages) : Option ElfObject × UserPages :=
  match validateLoads image with
  | none => (none, pages)
  | some (minV, maxV) =>
      let loadBias := effectiveBias pie image bias
      if (image.eType = .exec ∧ bias ≠ 0) ∨ (image.eType = .dyn ∧ loadBias % 4096 ≠ 0) ∨
          !userSpanOk ((loadBias + pageDown minV) % 2 ^ 64) (sub64 (pageUp maxV) (pageDown minV)) then
        (none, pages)
      else
        match mapSegments memory image loadBias image.phdrs [] pages with
        | (none, pages) => (none, pages)
        | (some segs, pages) =>
            if !image.phdrs.all (tailOk loadBias segs) ∨ (image.isDynamic ∧ !image.dynamicReadable) then
              (none, pages)
            else (some (mappedObject image loadBias minV maxV segs), pages)

theorem cosElfMap_some {memory : Nat → Bool} {pie bias : Nat} {image : ElfImage}
    {pages after : UserPages} {obj : ElfObject}
    (mapped : cosElfMap memory pie image bias pages = (some obj, after)) : ∃ minV maxV segs, validateLoads image = some (minV, maxV) ∧
      userSpanOk ((effectiveBias pie image bias + pageDown minV) % 2 ^ 64)
        (sub64 (pageUp maxV) (pageDown minV)) = true ∧
      mapSegments memory image (effectiveBias pie image bias) image.phdrs [] pages = (some segs,
      after) ∧ obj = mappedObject image (effectiveBias pie image bias) minV maxV segs := by
  rw [cosElfMap] at mapped
  cases bounds : validateLoads image with
  | none => simp [bounds] at mapped
  | some pair =>
      obtain ⟨minV, maxV⟩ := pair
      simp only [bounds] at mapped
      split at mapped
      · cases mapped
      · rename_i accepted
        cases ran : mapSegments memory image (effectiveBias pie image bias) image.phdrs [] pages with
        | mk result middle =>
            simp only [ran] at mapped
            cases result with
            | none => cases mapped
            | some segs =>
                simp only at mapped
                split at mapped
                · cases mapped
                · obtain ⟨isObj, rfl⟩ := Prod.mk.inj mapped
                  obtain ⟨_, fits⟩ := not_or.mp (not_or.mp accepted).2
                  exact ⟨minV, maxV, segs, rfl, by simpa using fits, rfl, (Option.some.inj isObj).symm⟩

end Cos.Elf
