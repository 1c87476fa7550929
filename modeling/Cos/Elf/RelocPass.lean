import Cos.Elf.RelrDecode

/-! # The relocation pass over the tables in memory

`cos_elf_relocate` reads an entry when its turn comes, from memory as the entries before it
have left it.  A table that stays as it was is applied like the list of its entries.
-/

namespace Cos.Elf

/-- `R_X86_64_*`. -/
def relocType : Nat → RelocType
  | 0 => .none
  | 1 => .abs64
  | 2 => .pc32
  | 4 => .plt32
  | 5 => .copy
  | 6 => .globDat
  | 7 => .jumpSlot
  | 8 | 38 => .relative
  | 10 => .abs32
  | 11 => .abs32s
  | 12 => .abs16
  | 13 => .pc16
  | 14 => .abs8
  | 15 => .pc8
  | 16 => .dtpmod64
  | 17 => .dtpoff64
  | 18 => .tpoff64
  | 24 => .pc64
  | 32 => .size32
  | 33 => .size64
  | 37 => .irelative
  | _ => .refused

/-- `elf64_rela_t`, or an `elf64_rel_t`, which ends before the addend. -/
def decodeReloc (bytes : List UInt8) : Reloc :=
  let info := ofLeBytes ((bytes.drop 8).take 8)
  ⟨ofLeBytes (bytes.take 8), relocType (info.setWidth 32).toNat, (info >>> 32).toNat,
    ofLeBytes (bytes.drop 16)⟩

def minEntry (isRela : Bool) : Nat := if isRela then 24 else 16

def readReloc (mem : UserMem) (isRela : Bool) (addr : Addr) : Option Reloc :=
  (userRead mem addr (minEntry isRela)).map decodeReloc

/-- Where the tables lie: `DT_RELA` to `DT_PLTREL`. -/
structure RelocSpans where
  rela : Addr
  relasz : Addr
  relaent : Addr
  rel : Addr
  relsz : Addr
  relent : Addr
  relr : Addr
  relrsz : Addr
  relrent : Addr
  jmprel : Addr
  pltrelsz : Addr
  pltRel : Bool

variable {σ : Type u} (resolver : SymReq → σ → Option SymVal × σ) (slot : Nat)
  -- what the symbol, string and version tables in memory say
  (symbols : UserMem → DynInfo) (obj : ElfObject)

def applyRelocList (isRela : Bool) (entries : List Reloc) (state : RelocState σ) :
    Except (RelocState σ) (RelocState σ) :=
  if isRela then applyEntries resolver slot obj entries state
    else applyImplicit resolver slot obj entries state

def relocLoop (isRela : Bool) (addr entsize : Addr) :
    Nat → Nat → RelocState σ → Except (RelocState σ) (RelocState σ)
  | 0, _, state => .ok state
  | left + 1, i, state =>
      match readReloc state.mem isRela (addr + BitVec.ofNat 64 i * entsize) with
      | none => .error state
      | some rel =>
          match applyRelocList resolver slot { obj with dyn := symbols state.mem } isRela [rel] state with
          | .error state => .error state
          | .ok state => relocLoop isRela addr entsize left (i + 1) state

/-- `apply_reloc_table`. -/
def applyRelocTableAt (isRela : Bool) (addr size entsize : Addr) (state : RelocState σ) :
    Except (RelocState σ) (RelocState σ) :=
  if addr = 0 ∨ size = 0 then .ok state
  else if entsize.toNat < minEntry isRela then .error state
  else if (size / entsize).toNat > maxRelocs then .error state
  else relocLoop resolver slot symbols obj isRela addr entsize (size / entsize).toNat 0 state

/-- `cos_elf_relocate`. -/
def cosElfRelocateAt (spans : RelocSpans) (state : RelocState σ) :
    Except (RelocState σ) (RelocState σ) :=
  if !obj.dynamic then .ok state
  else do
    let state ← applyRelocTableAt resolver slot symbols obj true spans.rela spans.relasz spans.relaent state
    let state ← applyRelocTableAt resolver slot symbols obj false spans.rel spans.relsz spans.relent state
    let state ← applyRelrAt obj spans.relr spans.relrsz spans.relrent state
    applyRelocTableAt resolver slot symbols obj (!spans.pltRel) spans.jmprel spans.pltrelsz
      (if spans.pltRel then spans.relent else spans.relaent) state

/-- `holds` of what the loop reads each time, in memory as it is then. -/
def LoopReads (holds : Nat → Option Reloc → Prop) (isRela : Bool) (addr entsize : Addr) :
    Nat → Nat → RelocState σ → Prop
  | 0, _, _ => True
  | left + 1, i, state =>
      holds i (readReloc state.mem isRela (addr + BitVec.ofNat 64 i * entsize)) ∧
        ∀ rel after, readReloc state.mem isRela (addr + BitVec.ofNat 64 i * entsize) = some rel →
          applyRelocList resolver slot { obj with dyn := symbols state.mem } isRela [rel] state =
            .ok after → LoopReads holds isRela addr entsize left (i + 1) after

def TableReads (holds : Reloc → Prop) (isRela : Bool) (addr size entsize : Addr)
    (state : RelocState σ) : Prop :=
  ¬(addr = 0 ∨ size = 0) → ¬entsize.toNat < minEntry isRela → ¬(size / entsize).toNat > maxRelocs →
    LoopReads resolver slot symbols obj (fun _ read => ∀ rel ∈ read, holds rel) isRela addr entsize
      (size / entsize).toNat 0 state

/-- `holds` of every entry that the pass comes to. -/
def PassReads (holds : Reloc → Prop) (spans : RelocSpans) (state : RelocState σ) : Prop :=
  TableReads resolver slot symbols obj holds true spans.rela spans.relasz spans.relaent state ∧
    ∀ first, applyRelocTableAt resolver slot symbols obj true spans.rela spans.relasz spans.relaent state = .ok first →
      TableReads resolver slot symbols obj holds false spans.rel spans.relsz spans.relent first ∧
        ∀ second, applyRelocTableAt resolver slot symbols obj false spans.rel spans.relsz spans.relent first = .ok second →
          ∀ third, applyRelrAt obj spans.relr spans.relrsz spans.relrent second = .ok third →
            TableReads resolver slot symbols obj holds (!spans.pltRel) spans.jmprel spans.pltrelsz
              (if spans.pltRel then spans.relent else spans.relaent) third

variable {resolver slot symbols obj} {state : RelocState σ} {isRela : Bool}
  {addr size entsize : Addr} {rel : Reloc}

theorem applyRelocList_cons {rest : List Reloc} :
    applyRelocList resolver slot obj isRela (rel :: rest) state =
      match applyRelocList resolver slot obj isRela [rel] state with
      | .error state => .error state
      | .ok state => applyRelocList resolver slot obj isRela rest state := by
  cases isRela with
  | true =>
      simp only [applyRelocList, if_true, applyEntries]
      cases applyReloc resolver slot obj rel state <;> rfl
  | false =>
      simp only [applyRelocList, Bool.false_eq_true, if_false, applyImplicit]
      split
      · rfl
      · split
        · rfl
        · next bytes _ =>
          cases applyReloc resolver slot obj { rel with addend := ofLeBytes bytes } state <;> rfl

theorem relocLoop_eq {table : List Reloc} {left i : Nat} (fixed : ∀ mem, symbols mem = obj.dyn)
    (count : i + left = table.length)
    (stays : LoopReads resolver slot symbols obj (fun k read => read = table[k]?) isRela addr entsize left i state) :
    relocLoop resolver slot symbols obj isRela addr entsize left i state =
      applyRelocList resolver slot obj isRela (table.drop i) state := by
  induction left generalizing i state with
  | zero =>
      rw [List.drop_eq_nil_of_le (by omega)]
      cases isRela <;> rfl
  | succ left ih =>
      obtain ⟨read, later⟩ := stays
      have less : i < table.length := by omega
      rw [List.getElem?_eq_getElem less] at read
      have step := later table[i]
      have same : { obj with dyn := symbols state.mem } = obj := by rw [fixed]
      rw [same] at step
      rw [relocLoop, read, List.drop_eq_getElem_cons less, applyRelocList_cons]
      dsimp only
      rw [same]
      cases applied : applyRelocList resolver slot obj isRela [table[i]] state with
      | error failed => rfl
      | ok after => exact ih (by omega) (step after read applied)

/-- A table that is still as it was decoded each time an entry is read. -/
theorem applyRelocTableAt_eq {table : List Reloc} (fixed : ∀ mem, symbols mem = obj.dyn)
    (nonzero : addr ≠ 0) (wide : minEntry isRela ≤ entsize.toNat)
    (count : (size / entsize).toNat = table.length)
    (stays : LoopReads resolver slot symbols obj (fun k read => read = table[k]?) isRela addr entsize table.length 0
      state) :
    applyRelocTableAt resolver slot symbols obj isRela addr size entsize state =
      applyRelocTable resolver slot obj isRela table state := by
  rw [applyRelocTableAt, applyRelocTable, if_neg (Nat.not_lt.mpr wide), count]
  by_cases empty : size = 0
  · have none : table = [] := by
      rw [← List.length_eq_zero_iff, ← count, empty, BitVec.toNat_udiv]
      exact Nat.zero_div _
    rw [if_pos (.inr empty), none]
    cases isRela <;> rfl
  · rw [if_neg (not_or.mpr ⟨nonzero, empty⟩), relocLoop_eq fixed (Nat.zero_add _) stays]
    rfl

theorem LoopReads.imp {holds holds' : Nat → Option Reloc → Prop} {left i : Nat}
    (reads : LoopReads resolver slot symbols obj holds isRela addr entsize left i state)
    (weaker : ∀ i read, holds i read → holds' i read) :
    LoopReads resolver slot symbols obj holds' isRela addr entsize left i state := by
  induction left generalizing i state with
  | zero => trivial
  | succ left ih => exact ⟨weaker _ _ reads.1,
    fun rel after read applied => ih (reads.2 rel after read applied)⟩

theorem TableReads.imp {holds holds' : Reloc → Prop}
    (reads : TableReads resolver slot symbols obj holds isRela addr size entsize state)
    (weaker : ∀ rel, holds rel → holds' rel) :
    TableReads resolver slot symbols obj holds' isRela addr size entsize state :=
  fun present wide short =>
  (reads present wide short).imp fun _ _ every rel read => weaker rel (every rel read)

theorem PassReads.imp {holds holds' : Reloc → Prop} {spans : RelocSpans}
    (reads : PassReads resolver slot symbols obj holds spans state)
    (weaker : ∀ rel, holds rel → holds' rel) :
    PassReads resolver slot symbols obj holds' spans state := by
  refine ⟨reads.1.imp weaker, fun first isFirst => ?_⟩
  obtain ⟨rel, later⟩ := reads.2 first isFirst
  exact ⟨rel.imp weaker,
    fun second isSecond third isThird => (later second isSecond third isThird).imp weaker⟩

theorem relocType_surjective (type : RelocType) :
    ∃ number, relocType number = type ∧ number < 2 ^ 32 := by
  cases type with
  | none => exact ⟨0, rfl, by decide⟩
  | abs64 => exact ⟨1, rfl, by decide⟩
  | pc32 => exact ⟨2, rfl, by decide⟩
  | plt32 => exact ⟨4, rfl, by decide⟩
  | copy => exact ⟨5, rfl, by decide⟩
  | globDat => exact ⟨6, rfl, by decide⟩
  | jumpSlot => exact ⟨7, rfl, by decide⟩
  | relative => exact ⟨8, rfl, by decide⟩
  | abs32 => exact ⟨10, rfl, by decide⟩
  | abs32s => exact ⟨11, rfl, by decide⟩
  | abs16 => exact ⟨12, rfl, by decide⟩
  | pc16 => exact ⟨13, rfl, by decide⟩
  | abs8 => exact ⟨14, rfl, by decide⟩
  | pc8 => exact ⟨15, rfl, by decide⟩
  | dtpmod64 => exact ⟨16, rfl, by decide⟩
  | dtpoff64 => exact ⟨17, rfl, by decide⟩
  | tpoff64 => exact ⟨18, rfl, by decide⟩
  | pc64 => exact ⟨24, rfl, by decide⟩
  | size32 => exact ⟨32, rfl, by decide⟩
  | size64 => exact ⟨33, rfl, by decide⟩
  | refused => exact ⟨36, rfl, by decide⟩
  | irelative => exact ⟨37, rfl, by decide⟩

/-- The bytes of an `elf64_rela_t`. -/
def relaBytes (rel : Reloc) (number : Nat) : List UInt8 :=
  leBytes rel.offset 8 ++
    (leBytes (BitVec.ofNat 64 (rel.sym * 2 ^ 32 + number)) 8 ++ leBytes rel.addend 8)

theorem relaBytes_length {number : Nat} : (relaBytes rel number).length = 24 := by
  rw [relaBytes, List.length_append, List.length_append, leBytes_length, leBytes_length,
    leBytes_length]

theorem decodeReloc_relaBytes {number : Nat} (type : relocType number = rel.type)
    (small : number < 2 ^ 32) (sym : rel.sym < 2 ^ 32) :
    decodeReloc (relaBytes rel number) = rel := by
  have word (value : Addr) : ofLeBytes (leBytes value 8) = value := by
    rw [ofLeBytes_leBytes, BitVec.setWidth_eq, BitVec.setWidth_eq]
  have first : (relaBytes rel number).take 8 = leBytes rel.offset 8 :=
    List.take_left' leBytes_length
  have behind : (relaBytes rel number).drop 8 =
      leBytes (BitVec.ofNat 64 (rel.sym * 2 ^ 32 + number)) 8 ++ leBytes rel.addend 8 :=
    List.drop_left' leBytes_length
  have last : (relaBytes rel number).drop 16 = leBytes rel.addend 8 := by
    rw [← List.drop_drop (i := 8) (j := 8), behind]
    exact List.drop_left' leBytes_length
  have info : (BitVec.ofNat 64 (rel.sym * 2 ^ 32 + number)).toNat = rel.sym * 2 ^ 32 + number := by
    rw [BitVec.toNat_ofNat]
    omega
  have lower : ((BitVec.ofNat 64 (rel.sym * 2 ^ 32 + number)).setWidth 32).toNat = number := by
    rw [BitVec.toNat_setWidth, info]
    omega
  have upper : (BitVec.ofNat 64 (rel.sym * 2 ^ 32 + number) >>> 32).toNat = rel.sym := by
    rw [BitVec.toNat_ushiftRight, info, Nat.shiftRight_eq_div_pow]
    omega
  rw [decodeReloc, first, behind, last, List.take_left' leBytes_length]
  simp only [word, lower, upper, type]

end Cos.Elf
