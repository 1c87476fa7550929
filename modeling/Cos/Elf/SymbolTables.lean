import Cos.Elf.Relocate

/-! # Symbol tables in memory

The lookups of `src/kernel/cos_elf.c` read the tables of an object out of user memory: the
hash tables, the symbol table, the string table and the version tables.  `compute_nsyms`
finds the number of symbols from the hash tables.
-/

namespace Cos.Elf.Symtab

def maxSymname : Nat := 255

def maxPath : Nat := 256

def linearSymbols : Nat := 16384

/-- The fields of `cos_elf_object_t` that the lookups read. -/
structure SymObject where
  base : Addr
  symtab : Addr
  syment : Addr
  strtab : Addr
  strsz : Addr
  hash : Addr
  gnuHash : Addr
  versym : Addr
  verdef : Addr
  verdefnum : Nat
  verneed : Addr
  verneednum : Nat
  tlsModid : Nat
  tlsOffset : Addr
  nsyms : Nat

def field (bytes : List UInt8) (offset width : Nat) : Nat :=
  (ofLeBytes ((bytes.drop offset).take width)).toNat

def readWord (mem : UserMem) (addr : Addr) (width : Nat) : Option Nat :=
  (userRead mem addr width).map fun bytes => field bytes 0 width

def readByte (mem : UserMem) (addr : Addr) : Option UInt8 := (userRead mem addr 1).bind List.head?

/-- `a + b * i`, in 64 bits. -/
def slot (table : Addr) (width index : Nat) : Addr :=
  table + BitVec.ofNat 64 index * BitVec.ofNat 64 width

/-- `user_strncpy_from`, into so many bytes. -/
def userStrncpyFrom (mem : UserMem) : Addr → Nat → Option CString
  | _, 0 => none
  | _, 1 => none
  | addr, room + 2 => do
      let c ← readByte mem addr
      if c = 0 then some [] else (userStrncpyFrom mem (addr + 1) (room + 1)).map (c :: ·)

def cosElfString (mem : UserMem) (obj : SymObject) (offset room : Nat) : Option CString :=
  if obj.strtab = 0 then none
  else if obj.strsz ≠ 0 ∧ obj.strsz.toNat ≤ offset then none
  else userStrncpyFrom mem (obj.strtab + BitVec.ofNat 64 offset) room

/-- `elf64_sym_t`. -/
structure Sym where
  name : Nat
  info : Nat
  shndx : Nat
  value : Addr
  size : Addr
deriving DecidableEq

def symEntry (mem : UserMem) (obj : SymObject) (index : Nat) : Option Sym :=
  (userRead mem (obj.symtab + BitVec.ofNat 64 index * obj.syment) 24).map fun bytes =>
    ⟨field bytes 0 4, field bytes 4 1, field bytes 6 2, BitVec.ofNat 64 (field bytes 8 8),
      BitVec.ofNat 64 (field bytes 16 8)⟩

def readSym (mem : UserMem) (obj : SymObject) (index : Nat) : Option Sym :=
  if obj.symtab = 0 ∨ obj.syment.toNat < 24 then none
  else if maxSymbols ≤ index then none
  else if obj.nsyms ≠ 0 ∧ obj.nsyms ≤ index then none
  else symEntry mem obj index

/-- The loop of `strtab_equals`. -/
def sameFrom (mem : UserMem) : Nat → Addr → CString → Bool
  | 0, _, _ => false
  | todo + 1, addr, want =>
      match readByte mem addr with
      | none => false
      | some c =>
          match want with
          | [] => c == 0
          | w :: rest => if w ≠ c then false else if c = 0 then true else sameFrom mem todo (addr + 1) rest

def strtabEquals (mem : UserMem) (obj : SymObject) (stName : Nat) (want : CString) : Bool :=
  if obj.strsz ≠ 0 ∧ obj.strsz.toNat ≤ stName then false
  else sameFrom mem (maxSymname + 1) (obj.strtab + BitVec.ofNat 64 stName) want

/-- `gnu_hash_hdr_t`. -/
structure GnuHashHdr where
  nbuckets : Nat
  symoffset : Nat
  bloomSize : Nat
  bloomShift : Nat
deriving DecidableEq

def readGnuHashHdr (mem : UserMem) (addr : Addr) : Option GnuHashHdr :=
  (userRead mem addr 16).map fun bytes =>
    ⟨field bytes 0 4, field bytes 4 4, field bytes 8 4, field bytes 12 4⟩

def GnuHashHdr.bloom (_ : GnuHashHdr) (obj : SymObject) : Addr := obj.gnuHash + 16

def GnuHashHdr.buckets (gh : GnuHashHdr) (obj : SymObject) : Addr :=
  slot (gh.bloom obj) 8 gh.bloomSize

def GnuHashHdr.chains (gh : GnuHashHdr) (obj : SymObject) : Addr :=
  slot (gh.buckets obj) 4 gh.nbuckets

@[irreducible] def add32 (a b : Nat) : Nat := (a + b) % 2 ^ 32
@[irreducible] def sub32 (a b : Nat) : Nat := (a + (2 ^ 32 - b % 2 ^ 32)) % 2 ^ 32

def GnuHashHdr.chainWord (gh : GnuHashHdr) (obj : SymObject) (index : Nat) : Addr :=
  slot (gh.chains obj) 4 (sub32 index gh.symoffset)

def lastBucket (mem : UserMem) (obj : SymObject) (gh : GnuHashHdr) : Option Nat :=
  (List.range gh.nbuckets).foldlM
    (fun last i => (readWord mem (slot (gh.buckets obj) 4 i) 4).map fun b => if last < b then b
    else last) 0

/-- The walk to the end of the chain that the highest bucket starts. -/
def chainEnd (mem : UserMem) (obj : SymObject) (gh : GnuHashHdr) : Nat → Nat → Option Nat
  | 0, last => some last
  | guard + 1, last => do
      let c ← readWord mem (gh.chainWord obj last) 4
      let next := add32 last 1
      if c % 2 = 1 then some next else chainEnd mem obj gh guard next

/-- `compute_nsyms`, from `DT_GNU_HASH`. -/
def gnuNsyms (mem : UserMem) (obj : SymObject) : Option Nat := do
  let gh ← readGnuHashHdr mem obj.gnuHash
  if gh.nbuckets = 0 ∨ maxSymbols < gh.nbuckets then none
  else if gh.bloomSize = 0 ∨ maxSymbols < gh.bloomSize then none
  else
    let last ← lastBucket mem obj gh
    if last < gh.symoffset then
      -- nothing is hashed: the string table is taken to follow the symbol table
      let d := (obj.strtab - obj.symtab).toNat / obj.syment.toNat
      if obj.symtab < obj.strtab ∧ 24 ≤ obj.syment.toNat ∧ (obj.strtab - obj.symtab).toNat %
          obj.syment.toNat = 0 ∧ gh.symoffset < d ∧ d ≤ maxSymbols then some d
      else some gh.symoffset
    else chainEnd mem obj gh maxSymbols last

/-- The header of `DT_HASH`: the numbers of buckets and of chain words. -/
def readSysvHdr (mem : UserMem) (addr : Addr) : Option (Nat × Nat) :=
  (userRead mem addr 8).map fun bytes => (field bytes 0 4, field bytes 4 4)

def computeNsyms (mem : UserMem) (obj : SymObject) : Nat :=
  let sysv := if obj.hash = 0 then none else (readSysvHdr mem obj.hash).filter fun (_, nchain) => nchain ≠ 0 ∧ nchain ≤ maxSymbols
  match sysv with
  | some (_, nchain) => nchain
  | none => if obj.gnuHash = 0 then 0 else (gnuNsyms mem obj).getD 0

/-- The walk of `version_name_for_index` along `DT_VERDEF`: whether a definition has the version,
and its name. -/
def verdefWalk (mem : UserMem) (obj : SymObject) (vidx : Nat) : Nat → Addr → Option (Option CString)
  | 0, _ => none
  | todo + 1, p =>
      match userRead mem p 20 with
      | none => none
      | some vd =>
          let aux := if field vd 4 2 &&& 0x7fff = vidx ∧ 1 ≤ field vd 6 2 then userRead mem (p + BitVec.ofNat 64 (field vd 12 4)) 8 else none
          match aux with
          | some bytes => some (cosElfString mem obj (field bytes 0 4) maxPath)
          | none => if field vd 16 4 = 0 then none else verdefWalk mem obj vidx todo (p + BitVec.ofNat 64 (field vd 16 4))

/-- The walk along the versions that are required from one object. -/
def vernauxWalk (mem : UserMem) (obj : SymObject) (vidx : Nat) :
    Nat → Addr → Option (Option CString)
  | 0, _ => none
  | todo + 1, a =>
      match userRead mem a 16 with
      | none => none
      | some va =>
          if field va 6 2 &&& 0x7fff = vidx then some (cosElfString mem obj (field va 8 4) maxPath)
          else if field va 12 4 = 0 then none
          else vernauxWalk mem obj vidx todo (a + BitVec.ofNat 64 (field va 12 4))

/-- The walk along `DT_VERNEED`. -/
def verneedWalk (mem : UserMem) (obj : SymObject) (vidx : Nat) :
    Nat → Addr → Option (Option CString)
  | 0, _ => none
  | todo + 1, p =>
      match userRead mem p 16 with
      | none => none
      | some vn =>
          match vernauxWalk mem obj vidx (min (field vn 2 2) 1024) (p + BitVec.ofNat 64 (field vn 8 4)) with
          | some found => some found
          | none => if field vn 12 4 = 0 then none else verneedWalk mem obj vidx todo (p + BitVec.ofNat 64 (field vn 12 4))

def versionNameForIndex (mem : UserMem) (obj : SymObject) (versym : Nat) : Option CString :=
  let vidx := versym &&& 0x7fff
  if vidx ≤ 1 then none
  else
    let defined := if obj.verdef ≠ 0 then verdefWalk mem obj vidx (min obj.verdefnum 1024) obj.verdef else none
    match defined with
    | some found => found
    | none => (if obj.verneed ≠ 0 then verneedWalk mem obj vidx (min obj.verneednum 1024) obj.verneed else none).join

def versionMatches (mem : UserMem) (obj : SymObject) (index : Nat) (want : Option CString) : Bool :=
  if obj.versym = 0 then want.isNone
  else
    match readWord mem (slot obj.versym 2 index) 2 with
    | none => false
    | some vs =>
        match want with
        | none => vs &&& 0x8000 == 0
        | some version => versionNameForIndex mem obj vs == some version

def fillSymval (obj : SymObject) (sym : Sym) : SymVal :=
  if sym.info &&& 0xf = 6 then
    { SymVal.zero with
      size := sym.size
      isTls := true
      tlsModid := obj.tlsModid
      tlsOffset := sym.value
      tlsTpOffset := sym.value - obj.tlsOffset }
  else if sym.shndx = 0xfff1 then { SymVal.zero with size := sym.size, address := sym.value }
  else { SymVal.zero with size := sym.size, address := obj.base + sym.value }

/-- A symbol that is defined, has the name and matches the version. -/
def answers (mem : UserMem) (obj : SymObject) (name : CString) (version : Option CString)
    (index : Nat) (sym : Sym) : Bool :=
  sym.shndx != 0 && strtabEquals mem obj sym.name name && versionMatches mem obj index version

/-- What the lookups do with an index: the value of its symbol, where that answers. -/
def answer (mem : UserMem) (obj : SymObject) (name : CString) (version : Option CString)
    (index : Nat) : Option SymVal :=
  ((readSym mem obj index).filter (answers mem obj name version index)).map (fillSymval obj)

/-- A symbol of the chain, where the hash in its chain word is that of the name. -/
def gnuAnswer (mem : UserMem) (obj : SymObject) (name : CString) (version : Option CString)
    (h1 h2 n : Nat) : Option SymVal :=
  if (h1 ^^^ h2) >>> 1 = 0 then answer mem obj name version n else none

/-- The chain walk of `lookup_gnu_hash`. -/
def gnuChainWalk (mem : UserMem) (obj : SymObject) (name : CString) (version : Option CString)
    (gh : GnuHashHdr) (h1 : Nat) : Nat → Nat → Option SymVal
  | 0, _ => none
  | guard + 1, n =>
      match readWord mem (gh.chainWord obj n) 4 with
      | none => none
      | some h2 =>
          match gnuAnswer mem obj name version h1 h2 n with
          | some value => some value
          | none => if h2 % 2 = 1 then none else gnuChainWalk mem obj name version gh h1 guard (add32 n 1)

def lookupGnuHash (mem : UserMem) (obj : SymObject) (name : CString) (version : Option CString) :
    Option SymVal := do
  let gh ← readGnuHashHdr mem obj.gnuHash
  if gh.nbuckets = 0 ∨ gh.bloomSize = 0 ∨ maxSymbols < gh.nbuckets ∨ maxSymbols < gh.bloomSize ∨
    64 ≤ gh.bloomShift then none
  else
    let h1 := (gnuHashName name).toNat
    let word ← readWord mem (slot (gh.bloom obj) 8 (h1 / 64 % gh.bloomSize)) 8
    let mask := 1 <<< (h1 % 64) ||| 1 <<< ((h1 >>> gh.bloomShift) % 64)
    if word &&& mask ≠ mask then none
    else
      let n ← readWord mem (slot (gh.buckets obj) 4 (h1 % gh.nbuckets)) 4
      if n < gh.symoffset then none else gnuChainWalk mem obj name version gh h1 maxSymbols n

/-- The chain walk of `lookup_sysv_hash`. -/
def sysvChainWalk (mem : UserMem) (obj : SymObject) (name : CString) (version : Option CString)
    (chain : Addr) (nchain : Nat) : Nat → Nat → Option SymVal
  | 0, _ => none
  | guard + 1, index =>
      if index = 0 then none
      else
        match answer mem obj name version index with
        | some value => some value
        | none =>
            match readWord mem (slot chain 4 index) 4 with
            | none => none
            | some next => if nchain ≤ next then none else sysvChainWalk mem obj name version chain nchain guard next

def lookupSysvHash (mem : UserMem) (obj : SymObject) (name : CString) (version : Option CString) :
    Option SymVal := do
  let (nbucket, nchain) ← readSysvHdr mem obj.hash
  if nbucket = 0 ∨ maxSymbols < nbucket then none
  else if nchain = 0 ∨ maxSymbols < nchain then none
  else
    let index ← readWord mem (slot (obj.hash + 8) 4 ((elfHash name).toNat % nbucket)) 4
    sysvChainWalk mem obj name version (slot (obj.hash + 8) 4 nbucket) nchain nchain index

/-- The walk of `lookup_linear`, from an index on. -/
def linearWalk (mem : UserMem) (obj : SymObject) (name : CString) (version : Option CString) :
    Nat → Nat → Option SymVal
  | 0, _ => none
  | todo + 1, index =>
      match symEntry mem obj index with
      | none => none
      | some sym =>
          if sym.name = 0 ∨ sym.shndx = 0 then linearWalk mem obj name version todo (index + 1)
          else if obj.strsz ≠ 0 ∧ obj.strsz.toNat ≤ sym.name then
            if obj.nsyms = 0 then none else linearWalk mem obj name version todo (index + 1)
          else if strtabEquals mem obj sym.name name ∧ versionMatches mem obj index version then some (fillSymval obj sym)
          else linearWalk mem obj name version todo (index + 1)

def lookupLinear (mem : UserMem) (obj : SymObject) (name : CString) (version : Option CString) :
    Option SymVal :=
  let span := if obj.symtab < obj.strtab then (obj.strtab - obj.symtab).toNat / obj.syment.toNat else 0
  let limit := if obj.nsyms ≠ 0 then obj.nsyms else if span ≠ 0 ∧ span < linearSymbols then span else linearSymbols
  linearWalk mem obj name version limit 0

def cosElfLookup (mem : UserMem) (obj : SymObject) (name : CString) (version : Option CString) :
    Option SymVal :=
  if obj.symtab = 0 ∨ obj.strtab = 0 ∨ obj.syment = 0 then none
  else
    let found := if obj.gnuHash ≠ 0 then lookupGnuHash mem obj name version else none
    let found := found.or (if obj.hash ≠ 0 then lookupSysvHash mem obj name version else none)
    found.or (if obj.gnuHash = 0 ∧ obj.hash = 0 then lookupLinear mem obj name version else none)

end Cos.Elf.Symtab
