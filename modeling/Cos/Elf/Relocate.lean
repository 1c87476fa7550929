import Cos.Elf.Object

/-! # Relocation

`cos_elf_relocate` works through an object's relocation tables.  A relocation that
names a symbol is bound by `resolve_for_reloc`: to the object's own definition if its
symbol table entry is defined, and otherwise to what the caller's resolver answers.
The resolver is a parameter with a state `σ` of its own.
-/

namespace Cos.Elf

abbrev UserMem := Addr → Option UInt8

/-- `COS_ELF_PIE_BASE`, `COS_ELF_USER_LIMIT`. -/
def pieBase : Addr := 0x8000000000#64
def userLimit : Addr := 0x800000000000#64

/-- `user_range_ok` outside kernel mode. -/
def userRangeOk (start len : Addr) : Bool :=
  len == 0 || (start ≤ start + len && pieBase ≤ start && start + len ≤ userLimit)

def userRead (mem : UserMem) (addr : Addr) (len : Nat) : Option (List UInt8) :=
  if userRangeOk addr (BitVec.ofNat 64 len) then
    (List.range len).mapM fun i => mem (addr + BitVec.ofNat 64 i)
  else none

def userWrite (mem : UserMem) (addr : Addr) (bytes : List UInt8) : Option UserMem :=
  if userRangeOk addr (BitVec.ofNat 64 bytes.length) ∧
      ∀ i < bytes.length, (mem (addr + BitVec.ofNat 64 i)).isSome then
    some fun at_ => (bytes[(at_ - addr).toNat]?).or (mem at_)
  else none

/-- What `user_write` has stored when it stops at a page that is not mapped. -/
def userWrittenPart (mem : UserMem) (addr : Addr) (bytes : List UInt8) : UserMem :=
  if userRangeOk addr (BitVec.ofNat 64 bytes.length) then
    let mapped := (List.range bytes.length).takeWhile fun i => (mem (addr + BitVec.ofNat 64 i)).isSome
    fun at_ => ((bytes.take mapped.length)[(at_ - addr).toNat]?).or (mem at_)
  else mem

def leBytes (value : Addr) (width : Nat) : List UInt8 :=
  (List.range width).map fun i => UInt8.ofBitVec ((value >>> (8 * i)).setWidth 8)

def ofLeBytes (bytes : List UInt8) : Addr :=
  bytes.foldr (fun byte value => (value <<< 8) ||| byte.toBitVec.setWidth 64) 0

/-- `cos_elf_symreq_t`; `requester` is the slot of the object that asks. -/
structure SymReq where
  name : CString
  version : Option CString
  requester : Nat
  copy : Bool
deriving DecidableEq, Repr

/-- A relocation of the object in `slot` and the symbol value it was given. -/
structure Binding where
  slot : Nat
  reloc : Reloc
  value : SymVal
deriving DecidableEq, Repr

/-- The memory, the resolver's state, the IFUNC work left to the program, the words
changed by the current `RELR` table and, for the record, the bindings made so far. -/
structure RelocState (σ : Type u) where
  mem : UserMem
  scope : σ
  ifuncs : List (Nat × Addr × Addr)
  applied : Nat
  bindings : List Binding

variable {σ : Type u} (resolver : SymReq → σ → Option SymVal × σ)

/-- `resolve_for_reloc`: the value, whether the symbol is weak and whether it is an IFUNC. -/
def resolveForReloc (slot : Nat) (obj : ElfObject) (symIndex : Nat) (type : RelocType) (scope : σ) :
    Option (SymVal × Bool × Bool) × σ :=
  if symIndex = 0 then
    (some ({ SymVal.zero with isTls := true, tlsModid := obj.tlsModid }, false, false), scope)
  else
    match readSym obj symIndex with
    | none => (none, scope)
    | some sym =>
        let isWeak := sym.bind == .weak
        let isIfunc := sym.type == .gnuIfunc
        if sym.shndx ≠ .undef ∧ type ≠ .copy then (some (fillSymval obj sym, isWeak, isIfunc), scope)
        else
          match sym.name with
          | none => (none, scope)
          | some name =>
              let version := if obj.dyn.hasVersym then versionNameForIndex obj sym.versym else none
              match resolver ⟨name, version, slot, type == .copy⟩ scope with
              | (some value, scope) => (some (value, isWeak, isIfunc), scope)
              | (none, scope) =>
                  if sym.bind = .weak then (some (.zero, isWeak, isIfunc), scope) else (none, scope)

/-- A store into user memory that fails the relocation when it fails. -/
def RelocState.store (state : RelocState σ) (target : Addr) (bytes : List UInt8) :
    Except (RelocState σ) (RelocState σ) :=
  match userWrite state.mem target bytes with
  | some mem => .ok { state with mem := mem }
  | none => .error { state with mem := userWrittenPart state.mem target bytes }

/-- The overflow checks of `write_sized`. -/
def fitsWidth (value : Addr) (width : Nat) (signed : Bool) : Bool :=
  if width = 4 then
    if signed then -2147483648 ≤ value.toInt && value.toInt ≤ 2147483647 else value ≤ 0xFFFFFFFF#64
  else if width = 2 then !(0xFFFF#64 < value && value.toInt < -32768)
  else true

def writeSized (state : RelocState σ) (target value : Addr) (width : Nat) (signed : Bool) :
    Except (RelocState σ) (RelocState σ) :=
  if fitsWidth value width signed then state.store target (leBytes value width) else .error state

def maxIfunc : Nat := 192

def deferIfunc (slot : Nat) (state : RelocState σ) (target fn : Addr) :
    Except (RelocState σ) (RelocState σ) :=
  if (state.ifuncs.filter fun entry => entry.1 = slot).length ≥ maxIfunc then .error state
  else { state with ifuncs := state.ifuncs ++ [(slot, target, fn)] }.store target (leBytes 0 8)

/-- The chunks of 256 bytes in which `R_X86_64_COPY` copies. -/
def copyChunks (target source : Addr) :
    Nat → Nat → RelocState σ → Except (RelocState σ) (RelocState σ)
  | 0, _, state => .ok state
  | chunks + 1, left, state =>
      let n := min left 256
      match userRead state.mem source n with
      | none => .error state
      | some bytes =>
          match state.store target bytes with
          | .error state => .error state
          | .ok state =>
              copyChunks (target + BitVec.ofNat 64 n) (source + BitVec.ofNat 64 n) chunks (left - n) state

def maxSegment : Nat := 256 * 1024 * 1024

/-- The `R_X86_64_COPY` case of `apply_reloc`. -/
def applyCopy (obj : ElfObject) (state : RelocState σ) (target : Addr) (value : SymVal) :
    Except (RelocState σ) (RelocState σ) :=
  if value.size = 0 then .ok state
  else if value.size.toNat > maxSegment ∨ !userRangeOk target value.size ∨
      !userRangeOk value.address value.size ∨ (target + value.size).toNat > obj.mapEnd then .error state
  else copyChunks target value.address (value.size.toNat / 256 + 1) value.size.toNat state

/-- The types whose slot holds the address of a function or datum. -/
def RelocType.isPointer : RelocType → Bool
  | .abs64 | .globDat | .jumpSlot => true
  | _ => false

/-- `apply_reloc`, once the symbol is bound. -/
def applyBound (slot : Nat) (obj : ElfObject) (rel : Reloc) (value : SymVal) (isWeak isIfunc : Bool)
    (state : RelocState σ) : Except (RelocState σ) (RelocState σ) :=
  let target := obj.base + rel.offset
  if isIfunc ∧ value.address ≠ 0 ∧ rel.type.isPointer then
    deferIfunc slot state target value.address
  else
    match rel.type with
    | .abs64 | .globDat | .jumpSlot => writeSized state target (value.address + rel.addend) 8 false
    | .pc32 | .plt32 => writeSized state target (value.address + rel.addend - target) 4 true
    | .pc64 => writeSized state target (value.address + rel.addend - target) 8 false
    | .abs32 => writeSized state target (value.address + rel.addend) 4 false
    | .abs32s => writeSized state target (value.address + rel.addend) 4 true
    | .abs16 => writeSized state target (value.address + rel.addend) 2 false
    | .pc16 => writeSized state target (value.address + rel.addend - target) 2 true
    | .abs8 => writeSized state target (value.address + rel.addend) 1 false
    | .pc8 => writeSized state target (value.address + rel.addend - target) 1 true
    | .size32 => writeSized state target (value.size + rel.addend) 4 false
    | .size64 => writeSized state target (value.size + rel.addend) 8 false
    | .copy => applyCopy obj state target value
    | .dtpmod64 =>
        writeSized state target
          (if value.isTls ∧ value.tlsModid > 0 then BitVec.ofNat 64 value.tlsModid else 0) 8 false
    | .dtpoff64 =>
        if value.isTls ∨ isWeak then writeSized state target (value.tlsOffset + rel.addend) 8 false
        else .error state
    | .tpoff64 =>
        if value.isTls ∨ isWeak then writeSized state target (value.tlsTpOffset + rel.addend) 8 false
        else .error state
    | .none | .relative | .irelative | .refused => .error state

def applyReloc (slot : Nat) (obj : ElfObject) (rel : Reloc) (state : RelocState σ) :
    Except (RelocState σ) (RelocState σ) :=
  let target := obj.base + rel.offset
  if rel.type = .none then .ok state
  else if !userRangeOk target 8 ∨ target.toNat < obj.mapStart ∨ obj.mapEnd ≤ target.toNat then
    .error state
  else
    match rel.type with
    | .relative => state.store target (leBytes (obj.base + rel.addend) 8)
    | .irelative => deferIfunc slot state target (obj.base + rel.addend)
    | type =>
        match resolveForReloc resolver slot obj rel.sym type state.scope with
        | (none, scope) => .error { state with scope := scope }
        | (some (value, isWeak, isIfunc), scope) =>
            applyBound slot obj rel value isWeak isIfunc { state with
              scope := scope
              bindings := state.bindings ++ [⟨slot, rel, value⟩] }

def maxRelocs : Nat := 2 ^ 21

/-- The entries of a `RELA` table. -/
def applyEntries (slot : Nat) (obj : ElfObject) :
    List Reloc → RelocState σ → Except (RelocState σ) (RelocState σ)
  | [], state => .ok state
  | rel :: rest, state =>
      match applyReloc resolver slot obj rel state with
      | .error state => .error state
      | .ok state => applyEntries slot obj rest state

/-- The entries of a `REL` table: the addend lies in the target. -/
def applyImplicit (slot : Nat) (obj : ElfObject) :
    List Reloc → RelocState σ → Except (RelocState σ) (RelocState σ)
  | [], state => .ok state
  | rel :: rest, state =>
      let target := obj.base + rel.offset
      if !userRangeOk target 8 ∨ target.toNat < obj.mapStart ∨ obj.mapEnd ≤ target.toNat then
        .error state
      else
        match userRead state.mem target 8 with
        | none => .error state
        | some bytes =>
            match applyReloc resolver slot obj { rel with addend := ofLeBytes bytes } state with
            | .error state => .error state
            | .ok state => applyImplicit slot obj rest state

def applyRelocTable (slot : Nat) (obj : ElfObject) (isRela : Bool) (table : List Reloc)
    (state : RelocState σ) : Except (RelocState σ) (RelocState σ) :=
  if table.length > maxRelocs then .error state
  else if isRela then applyEntries resolver slot obj table state
  else applyImplicit resolver slot obj table state

/-- Adds the load bias to the word at `at_`. -/
def addBias (obj : ElfObject) (state : RelocState σ) (at_ : Addr) :
    Except (RelocState σ) (RelocState σ) :=
  if at_.toNat < obj.mapStart ∨ obj.mapEnd < (at_ + 8).toNat then .error state
  else
    match userRead state.mem at_ 8 with
    | none => .error state
    | some bytes =>
        match state.store at_ (leBytes (ofLeBytes bytes + obj.base) 8) with
        | .error state => .error state
        | .ok state =>
            if state.applied + 1 > maxRelocs then .error state
            else .ok { state with applied := state.applied + 1 }

/-- The bits of one `RELR` bitmap. -/
def applyBitmap (obj : ElfObject) (bits : Addr) :
    Nat → Addr → RelocState σ → Except (RelocState σ) (RelocState σ)
  | 0, _, state => .ok state
  | left + 1, at_, state =>
      if bits.getLsbD (62 - left) then
        match addBias obj state at_ with
        | .error state => .error state
        | .ok state => applyBitmap obj bits left (at_ + 8) state
      else applyBitmap obj bits left (at_ + 8) state

/-- `apply_relr_table`: even words are addresses, odd ones bitmaps of what follows. -/
def applyRelrTable (obj : ElfObject) : List (BitVec 64) → Addr → RelocState σ →
    Except (RelocState σ) (RelocState σ)
  | [], _, state => .ok state
  | entry :: rest, at_, state =>
      if entry &&& 1#64 = 0 then
        match addBias obj state (obj.base + entry) with
        | .error state => .error state
        | .ok state => applyRelrTable obj rest (obj.base + entry + 8) state
      else
        match applyBitmap obj (entry >>> 1) 63 at_ state with
        | .error state => .error state
        | .ok state => applyRelrTable obj rest (at_ + 63 * 8) state

def cosElfRelocate (slot : Nat) (obj : ElfObject) (state : RelocState σ) :
    Except (RelocState σ) (RelocState σ) :=
  if !obj.dynamic then .ok state
  else do
    let state ← applyRelocTable resolver slot obj true obj.dyn.rela state
    let state ← applyRelocTable resolver slot obj false obj.dyn.rel state
    let state ← if obj.dyn.relr.length > maxRelocs then .error state
      else applyRelrTable obj obj.dyn.relr 0 { state with applied := 0 }
    applyRelocTable resolver slot obj (!obj.dyn.pltRel) obj.dyn.jmprel state

end Cos.Elf
