import Cos.Elf.UserMemory

/-! # Static thread-local storage

`cos_elf_tls_layout` gives each module with thread-local data the distance of its block
below the thread pointer; `cos_elf_tls_init` fills a region with the blocks, the control
block at the thread pointer and the vector of block addresses behind it.  All numbers are
64-bit words and their sums wrap.
-/

namespace Cos.Elf

def tcbSize : Nat := 64

/-- What `cos_elf_map` has taken from an object's `PT_TLS` header; it has checked that the
file part is not the longer one. -/
structure TlsObject where
  hasTls : Bool
  vaddr : Addr
  filesz : Nat
  memsz : Nat
  align : Nat
  filled : filesz ≤ memsz
  words : memsz < 2 ^ 64 ∧ align < 2 ^ 64

/-- An object with its `tls_modid`, zero for none, and `tls_offset`. -/
structure TlsSlot where
  obj : TlsObject
  modid : Nat
  offset : Nat

/-- `align_up`. -/
def alignUpWord (v a : Nat) : Nat :=
  if a ≤ 1 then v else if a &&& (a - 1) ≠ 0 then v else (v + a - 1) % 2 ^ 64 / a * a

def TlsObject.alignment (o : TlsObject) : Nat :=
  let a := if o.align = 0 then 8 else o.align
  if a &&& (a - 1) ≠ 0 then 8 else a

/-- The loop of `cos_elf_tls_layout`: the slots, the last offset and the largest alignment. -/
def tlsLayoutFrom : List TlsObject → Nat → Nat → Nat → Option (List TlsSlot × Nat × Nat)
  | [], offset, maxAlign, _ => some ([], offset, maxAlign)
  | o :: rest, offset, maxAlign, modid =>
      if !o.hasTls ∨ o.memsz = 0 then
        match tlsLayoutFrom rest offset maxAlign modid with
        | none => none
        | some (slots, last) => some (⟨o, 0, 0⟩ :: slots, last)
      else if o.alignment > 2 ^ 16 then none
      else
        let next := alignUpWord ((offset + o.memsz) % 2 ^ 64) o.alignment
        if next > maxSegment then none
        else
          match tlsLayoutFrom rest next (if o.alignment > maxAlign then o.alignment else maxAlign) (modid + 1) with
          | none => none
          | some (slots, last) => some (⟨o, modid + 1, next⟩ :: slots, last)

/-- `cos_elf_tls_layout`: the slots, the size of all blocks and their alignment. -/
def cosElfTlsLayout (objs : List TlsObject) : Option (List TlsSlot × Nat × Nat) :=
  match tlsLayoutFrom objs 0 8 0 with
  | none => none
  | some (slots, offset, maxAlign) => some (slots, alignUpWord offset maxAlign, maxAlign)

def cosElfTlsRegionSize (blockSize modules : Nat) : Nat :=
  alignUpWord ((blockSize + tcbSize + (modules + 1) * 8) % 2 ^ 64) 64

/-- The chunks of 256 bytes in which an initialisation image is copied. -/
def copyImage (dest source : Addr) : Nat → Nat → UserMem → Option UserMem
  | 0, _, mem => some mem
  | chunks + 1, left, mem =>
      let n := min left 256
      match userRead mem source n with
      | none => none
      | some bytes =>
          match userWrite mem dest bytes with
          | none => none
          | some mem => copyImage (dest + BitVec.ofNat 64 n) (source + BitVec.ofNat 64 n) chunks (left - n) mem

/-- The body of the loop over the modules: the image and the module's entry in the vector. -/
def initModule (region tp dtv : Nat) (slot : TlsSlot) (mem : UserMem) : Option UserMem :=
  let dest := (2 ^ 64 + tp - slot.offset) % 2 ^ 64
  if dest < region ∨ (dest + slot.obj.memsz) % 2 ^ 64 > tp then none
  else
    match copyImage (BitVec.ofNat 64 dest) slot.obj.vaddr ((slot.obj.filesz + 255) / 256) slot.obj.filesz mem with
    | none => none
    | some mem => userWrite mem (BitVec.ofNat 64 (dtv + slot.modid * 8)) (leBytes (BitVec.ofNat 64 dest) 8)

def initModules (region tp dtv : Nat) : List TlsSlot → UserMem → Option UserMem
  | [], mem => some mem
  | slot :: rest, mem =>
      if slot.modid = 0 then initModules region tp dtv rest mem
      else
        match initModule region tp dtv slot mem with
        | none => none
        | some mem => initModules region tp dtv rest mem

/-- `cos_elf_tls_t`, with the objects as the layout has left them. -/
structure TlsBlock where
  slots : List TlsSlot
  tp : Nat
  dtv : Nat
  modules : Nat

/-- `cos_elf_tls_init`: the memory afterwards and what it reports. -/
def cosElfTlsInit (mem : UserMem) (region regionSize : Addr) (objs : List TlsObject) :
    Option (UserMem × TlsBlock) :=
  match cosElfTlsLayout objs with
  | none => none
  | some (slots, blockSize, align) =>
      let modules := slots.countP fun slot => slot.modid > 0
      let need := cosElfTlsRegionSize blockSize modules
      let tp := alignUpWord ((region.toNat + blockSize) % 2 ^ 64) align
      let dtv := (tp + tcbSize) % 2 ^ 64
      if regionSize.toNat < need ∨ !userRangeOk region (BitVec.ofNat 64 need) then none
      else do
        let mem ← userWrite mem region (List.replicate need 0)
        if (tp + tcbSize + (modules + 1) * 8) % 2 ^ 64 > (region.toNat + regionSize.toNat) % 2 ^ 64 then none
        let mem ← initModules region.toNat tp dtv slots mem
        let mem ← userWrite mem (BitVec.ofNat 64 tp) (leBytes (BitVec.ofNat 64 tp) 8)
        let mem ← userWrite mem (BitVec.ofNat 64 (tp + 8)) (leBytes (BitVec.ofNat 64 dtv) 8)
        let mem ← userWrite mem (BitVec.ofNat 64 dtv) (leBytes (BitVec.ofNat 64 modules) 8)
        return (mem, ⟨slots, tp, dtv, modules⟩)

end Cos.Elf
