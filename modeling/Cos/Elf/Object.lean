import Mathlib.Data.List.Basic
import Mathlib.Algebra.Group.Nat.Defs

/-! # Loaded ELF objects

What the loader knows of an object once it is mapped: where it lies, its dynamic
symbol table with versions and hash tables, and its relocation tables.  The tables are
given decoded; an entry that could not be read is absent.
-/

namespace Cos.Elf

abbrev Addr := BitVec 64

abbrev CString := List UInt8

inductive SymBind where
  | localBind
  | global
  | weak
  | other
deriving DecidableEq, Repr

inductive SymType where
  | notype
  | object
  | func
  | tls
  | gnuIfunc
  | other
deriving DecidableEq, Repr

inductive Shndx where
  | undef
  | abs
  | sec (index : Nat)
deriving DecidableEq, Repr

/-- `elf64_sym_t`, with the string its `st_name` leads to and its `DT_VERSYM` entry. -/
structure ElfSym where
  name : Option CString
  bind : SymBind
  type : SymType
  shndx : Shndx
  value : Addr
  size : Addr
  versym : BitVec 16
deriving DecidableEq, Repr

inductive RelocType where
  | none
  | abs64
  | pc32
  | plt32
  | copy
  | globDat
  | jumpSlot
  | relative
  | irelative
  | abs32
  | abs32s
  | abs16
  | pc16
  | abs8
  | pc8
  | pc64
  | size32
  | size64
  | dtpmod64
  | dtpoff64
  | tpoff64
  /-- `TLSDESC`, the types that only a static linker resolves, and unknown ones. -/
  | refused
deriving DecidableEq, Repr

/-- `reloc_t`; the addend of a `REL` entry is read from the target instead. -/
structure Reloc where
  offset : Addr
  type : RelocType
  sym : Nat
  addend : Addr
deriving DecidableEq, Repr

/-- `DT_GNU_HASH`; `chains` starts at symbol `symoffset`. -/
structure GnuHash where
  symoffset : Nat
  bloomShift : Nat
  bloom : List (BitVec 64)
  buckets : List Nat
  chains : List (BitVec 32)
deriving DecidableEq, Repr

/-- `DT_HASH`. -/
structure SysvHash where
  buckets : List Nat
  chain : List Nat
deriving DecidableEq, Repr

/-- What `PT_DYNAMIC` leads to. -/
structure DynInfo where
  symbols : List ElfSym
  hasVersym : Bool
  /-- Version index and name of the versions defined here and of those required. -/
  verdef : List (BitVec 16 × CString)
  verneed : List (BitVec 16 × CString)
  gnuHash : Option GnuHash
  hash : Option SysvHash
  rela : List Reloc
  rel : List Reloc
  relr : List (BitVec 64)
  jmprel : List Reloc
  /-- `DT_PLTREL` is `DT_REL`. -/
  pltRel : Bool
  runpath : CString
  rpath : CString
deriving DecidableEq, Repr

/-- An object without `PT_DYNAMIC`. -/
def DynInfo.empty : DynInfo := ⟨[], false, [], [], none, none, [], [], [], [], false, [], []⟩

structure Seg where
  start : Nat
  stop : Nat
deriving DecidableEq, Repr

/-- `cos_elf_object_t`, as far as loading, lookup and relocation use it. -/
structure ElfObject where
  base : Addr
  mapStart : Nat
  mapEnd : Nat
  segs : List Seg
  /-- `COS_ELF_F_DYNAMIC`, `COS_ELF_F_HAS_TLS` and `COS_ELF_F_NODELETE`. -/
  dynamic : Bool
  hasTls : Bool
  nodelete : Bool
  tlsMemsz : Nat
  tlsAlign : Nat
  tlsModid : Nat
  tlsOffset : Addr
  dyn : DynInfo
deriving DecidableEq, Repr

/-- `cos_elf_symval_t`. -/
structure SymVal where
  address : Addr
  size : Addr
  isTls : Bool
  tlsModid : Nat
  tlsOffset : Addr
  tlsTpOffset : Addr
deriving DecidableEq, Repr

def SymVal.zero : SymVal := ⟨0, 0, false, 0, 0, 0⟩

def maxSymbols : Nat := 2 ^ 18

def readSym (obj : ElfObject) (index : Nat) : Option ElfSym :=
  if index < maxSymbols then obj.dyn.symbols[index]? else none

/-- `version_name_for_index`: the name of a version defined here or required from
elsewhere; none for the indices of local and unversioned symbols. -/
def versionNameForIndex (obj : ElfObject) (versym : BitVec 16) : Option CString :=
  let index := versym &&& 0x7fff#16
  if index ≤ 1#16 then none
  else
    match obj.dyn.verdef.find? (fun entry => entry.1 &&& 0x7fff#16 == index) with
    | some entry => some entry.2
    | none => (obj.dyn.verneed.find? (fun entry => entry.1 &&& 0x7fff#16 == index)).map Prod.snd

/-- `version_matches`: a request without version takes a default (not hidden) definition
only, a request for a version exactly that one. -/
def versionMatches (obj : ElfObject) (sym : ElfSym) : Option CString → Bool
  | none => !obj.dyn.hasVersym || sym.versym &&& 0x8000#16 == 0#16
  | some version => obj.dyn.hasVersym && versionNameForIndex obj sym.versym == some version

def fillSymval (obj : ElfObject) (sym : ElfSym) : SymVal :=
  if sym.type = .tls then
    { SymVal.zero with
      size := sym.size
      isTls := true
      tlsModid := obj.tlsModid
      tlsOffset := sym.value
      tlsTpOffset := sym.value - obj.tlsOffset }
  else if sym.shndx = .abs then { SymVal.zero with size := sym.size, address := sym.value }
  else { SymVal.zero with size := sym.size, address := obj.base + sym.value }

def elfHash (name : CString) : BitVec 32 :=
  name.foldl (fun h c =>
    let h := (h <<< 4) + c.toBitVec.setWidth 32
    let g := h &&& 0xf0000000#32
    (if g = 0 then h else h ^^^ (g >>> 24)) &&& ~~~g) 0

def gnuHashName (name : CString) : BitVec 32 :=
  name.foldl (fun h c => h * 33 + c.toBitVec.setWidth 32) 5381

def symAnswers (obj : ElfObject) (name : CString) (version : Option CString) (sym : ElfSym) :
    Bool :=
  sym.shndx != .undef && sym.name == some name && versionMatches obj sym version

/-- The chain walk of `lookup_gnu_hash`, from symbol `n` on. -/
def gnuChainWalk (obj : ElfObject) (name : CString) (version : Option CString) (table : GnuHash)
    (h1 : BitVec 32) : Nat → Nat → Option SymVal
  | 0, _ => none
  | guard + 1, n =>
      match table.chains[n - table.symoffset]? with
      | none => none
      | some h2 =>
          let here :=
            if (h1 ^^^ h2) >>> 1 = 0 then (readSym obj n).filter (symAnswers obj name version) else none
          match here with
          | some sym => some (fillSymval obj sym)
          | none =>
              if h2 &&& 1#32 = 1#32 then none
              else gnuChainWalk obj name version table h1 guard (n + 1)

/-- `lookup_gnu_hash`: the Bloom filter, then one bucket's chain. -/
def lookupGnuHash (obj : ElfObject) (name : CString) (version : Option CString) (table : GnuHash) :
    Option SymVal :=
  if table.buckets.length = 0 ∨ table.bloom.length = 0 ∨ table.buckets.length > maxSymbols ∨
      table.bloom.length > maxSymbols ∨ table.bloomShift ≥ 64 then none
  else
    let h1 := gnuHashName name
    let word := table.bloom.getD (h1.toNat / 64 % table.bloom.length) 0
    let mask := 1#64 <<< (h1.toNat % 64) ||| 1#64 <<< ((h1.toNat >>> table.bloomShift) % 64)
    if word &&& mask ≠ mask then none
    else
      let n := table.buckets.getD (h1.toNat % table.buckets.length) 0
      if n < table.symoffset then none
      else gnuChainWalk obj name version table h1 maxSymbols n

/-- The chain walk of `lookup_sysv_hash`. -/
def sysvChainWalk (obj : ElfObject) (name : CString) (version : Option CString) (table : SysvHash) :
    Nat → Nat → Option SymVal
  | 0, _ => none
  | guard + 1, index =>
      if index = 0 then none
      else
        match (readSym obj index).filter (symAnswers obj name version) with
        | some sym => some (fillSymval obj sym)
        | none =>
            match table.chain[index]? with
            | none => none
            | some next =>
                if next ≥ table.chain.length then none
                else sysvChainWalk obj name version table guard next

def lookupSysvHash (obj : ElfObject) (name : CString) (version : Option CString)
    (table : SysvHash) : Option SymVal :=
  if table.buckets.length = 0 ∨ table.buckets.length > maxSymbols ∨ table.chain.length = 0 ∨
      table.chain.length > maxSymbols then none
  else sysvChainWalk obj name version table table.chain.length
    (table.buckets.getD ((elfHash name).toNat % table.buckets.length) 0)

/-- `lookup_linear`, for an object without any hash table. -/
def lookupLinear (obj : ElfObject) (name : CString) (version : Option CString) : Option SymVal :=
  ((obj.dyn.symbols.take 16384).find? (symAnswers obj name version)).map (fillSymval obj)

def cosElfLookup (obj : ElfObject) (name : CString) (version : Option CString) : Option SymVal :=
  match obj.dyn.gnuHash, obj.dyn.hash with
  | some gnu, some sysv =>
    (lookupGnuHash obj name version gnu).or (lookupSysvHash obj name version sysv)
  | some gnu, none => lookupGnuHash obj name version gnu
  | none, some sysv => lookupSysvHash obj name version sysv
  | none, none => lookupLinear obj name version

end Cos.Elf
