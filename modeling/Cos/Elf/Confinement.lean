import Cos.Elf.RelocPass
import Mathlib

/-! # Relocation stays inside the object

`apply_reloc` checks where a field starts, `R_X86_64_COPY` and `RELR` also where it ends.
A field that starts inside the object and ends behind it reaches into the mapping that
follows; no other write leaves the object.
-/

namespace Cos.Elf

variable {σ : Type u} {resolver : SymReq → σ → Option SymVal × σ} {slot : Nat}
  {symbols : UserMem → DynInfo} {obj : ElfObject} {state : RelocState σ} {target : Addr}
  {bytes : List UInt8} {origin : UserMem} {rel : Reloc}

/-- The bytes a relocation writes without a look at where they end. -/
def RelocType.width : RelocType → Nat
  | .abs64 | .globDat | .jumpSlot | .relative | .irelative | .pc64 | .size64 | .dtpmod64 | .dtpoff64 | .tpoff64 => 8
  | .pc32 | .plt32 | .abs32 | .abs32s | .size32 => 4
  | .abs16 | .pc16 => 2
  | .abs8 | .pc8 => 1
  | .none | .copy | .refused => 0

/-- The field starts inside the object and its first byte behind the object is written. -/
structure Straddles (obj : ElfObject) (mapped : Addr → Bool) (type : RelocType) (offset : Addr) :
    Prop where
  dynamic : obj.dynamic = true
  range : userRangeOk (obj.base + offset) 8 = true
  starts : obj.mapStart ≤ (obj.base + offset).toNat
  inside : (obj.base + offset).toNat < obj.mapEnd
  ends : obj.mapEnd < (obj.base + offset).toNat + type.width
  mapped : ∀ i, (obj.base + offset).toNat + i ≤ obj.mapEnd →
    mapped (obj.base + offset + BitVec.ofNat 64 i) = true

/-- Starting from `origin`, only bytes of the object have been changed. -/
structure Contained (obj : ElfObject) (origin : UserMem) (state : RelocState σ) : Prop where
  changes : ChangesWithin obj.mapStart obj.mapEnd origin state.mem
  mapped : ∀ place, (state.mem place).isSome = (origin place).isSome

theorem Contained.of_mem {state' : RelocState σ} (contained : Contained obj origin state)
    (same : state'.mem = state.mem) : Contained obj origin state' := by
  constructor
  · rw [same]
    exact contained.changes
  · rw [same]
    exact contained.mapped

theorem Contained.store (contained : Contained obj origin state) (small : bytes.length < 2 ^ 64)
    (starts : obj.mapStart ≤ target.toNat)
    (ends : target.toNat + bytes.length ≤ obj.mapEnd ∨
      ∃ i, target.toNat + i ≤ obj.mapEnd ∧ (origin (target + BitVec.ofNat 64 i)).isSome = false) :
    Contained obj origin (stopped (state.store target bytes)) := by
  have hole (i : Nat) (unmapped : (origin (target + BitVec.ofNat 64 i)).isSome = false) :
      state.mem (target + BitVec.ofNat 64 i) = none := by
    rw [← contained.mapped] at unmapped
    exact Option.isNone_iff_eq_none.mp (by rw [← Option.not_isSome, unmapped]; rfl)
  unfold RelocState.store
  split
  · rename_i mem written
    have within : target.toNat + bytes.length ≤ obj.mapEnd := by
      rcases ends with short | ⟨i, atEnd, unmapped⟩
      · exact short
      · by_contra long
        unfold userWrite at written
        split at written
        · rename_i allowed
          have here := allowed.2 i (by omega)
          rw [hole i unmapped] at here
          contradiction
        · contradiction
    exact ⟨contained.changes.trans ((userWrite_changes written small).widen starts within),
      fun place => (userWrite_mapped written place).trans (contained.mapped place)⟩
  · refine ⟨contained.changes.trans ?_,
      fun place => (userWrittenPart_mapped place).trans (contained.mapped place)⟩
    by_cases short : target.toNat + bytes.length ≤ obj.mapEnd
    · exact (userWrittenPart_changes small).widen starts short
    · rcases ends with within | ⟨i, atEnd, unmapped⟩
      · exact absurd within short
      · exact (userWrittenPart_stops small (by omega) (hole i unmapped)).widen starts atEnd

theorem Contained.field (contained : Contained obj origin state) (dynamic : obj.dynamic = true)
    (range : userRangeOk (obj.base + rel.offset) 8 = true)
    (starts : obj.mapStart ≤ (obj.base + rel.offset).toNat)
    (inside : (obj.base + rel.offset).toNat < obj.mapEnd)
    (clear : ¬Straddles obj (fun place => (origin place).isSome) rel.type rel.offset)
    (width : bytes.length = rel.type.width) :
    Contained obj origin (stopped (state.store (obj.base + rel.offset) bytes)) := by
  have small : rel.type.width ≤ 8 := by
    cases rel.type <;> decide
  refine contained.store (by omega) starts ?_
  by_contra leaves
  rw [not_or, not_exists] at leaves
  refine clear ⟨dynamic, range, starts, inside, by omega, fun i atEnd => ?_⟩
  exact Bool.not_eq_false _ ▸ fun unmapped => leaves.2 i ⟨atEnd, unmapped⟩

theorem Contained.writeSized (contained : Contained obj origin state) {value : Addr} {width : Nat}
    {signed : Bool}
    (stores : ∀ bytes : List UInt8, bytes.length = width →
    Contained obj origin (stopped (state.store target bytes))) :
    Contained obj origin (stopped (writeSized state target value width signed)) := by
  unfold Elf.writeSized
  split
  · exact stores _ leBytes_length
  · exact contained

theorem Contained.deferIfunc (contained : Contained obj origin state) {fn : Addr}
    (stores : ∀ state : RelocState σ, Contained obj origin state →
      ∀ bytes : List UInt8, bytes.length = 8 →
      Contained obj origin (stopped (state.store target bytes))) :
    Contained obj origin (stopped (deferIfunc slot state target fn)) := by
  unfold Elf.deferIfunc
  split
  · exact contained
  · refine stores _ ?_ _ leBytes_length
    exact contained.of_mem rfl

theorem Contained.copyChunks {source : Addr} {chunks left : Nat}
    (contained : Contained obj origin state) (starts : obj.mapStart ≤ target.toNat)
    (ends : target.toNat + left ≤ obj.mapEnd) (room : target.toNat + left ≤ userLimit.toNat) :
    Contained obj origin (stopped (copyChunks target source chunks left state)) := by
  induction chunks generalizing target source left state with
  | zero => exact contained
  | succ chunks ih =>
      simp only [Elf.copyChunks]
      split
      · exact contained
      · rename_i bytes read
        have length := (userRead_iff.mp read).2.1
        have stored := @Contained.store _ _ _ target bytes _ contained (by omega) starts (.inl (by omega))
        have next : (target + BitVec.ofNat 64 (min left 256)).toNat = target.toNat + min left 256 :=
          toNat_add_ofNat (by omega)
        split
        · rename_i failed isFailed
          rw [isFailed] at stored
          exact stored
        · rename_i after isAfter
          rw [isAfter] at stored
          exact ih stored (by omega) (by omega) (by omega)

theorem Contained.applyCopy {value : SymVal} (contained : Contained obj origin state)
    (starts : obj.mapStart ≤ target.toNat) :
    Contained obj origin (stopped (applyCopy obj state target value)) := by
  unfold Elf.applyCopy
  split
  · exact contained
  · rename_i some_
    split
    · exact contained
    · rename_i allowed
      simp only [not_or, Bool.not_eq_true, Bool.not_eq_false', Nat.not_lt] at allowed
      obtain ⟨_, range, _, ends⟩ := allowed
      have positive : 0 < value.size.toNat := by
        rw [Nat.pos_iff_ne_zero]
        exact fun zero => some_ (BitVec.eq_of_toNat_eq zero)
      have sized : BitVec.ofNat 64 value.size.toNat = value.size := by
        rw [BitVec.ofNat_toNat, BitVec.setWidth_eq]
      rw [← sized] at range
      have bounds := (userRangeOk_iff positive value.size.isLt).mp range
      have sum : (target + value.size).toNat = target.toNat + value.size.toNat := by
        rw [BitVec.toNat_add, Nat.mod_eq_of_lt (by omega)]
      exact contained.copyChunks starts (by omega) (by omega)

theorem Contained.applyBound {value : SymVal} {isWeak isIfunc : Bool}
    (contained : Contained obj origin state)
      (stores : ∀ state : RelocState σ, Contained obj origin state → ∀ bytes : List UInt8,
      bytes.length = rel.type.width →
      Contained obj origin (stopped (state.store (obj.base + rel.offset) bytes)))
    (starts : obj.mapStart ≤ (obj.base + rel.offset).toNat) :
    Contained obj origin (stopped (applyBound slot obj rel value isWeak isIfunc state)) := by
  have writes (value : Addr) (signed : Bool) (width : Nat) (same : width = rel.type.width) :
      Contained obj origin
      (stopped (Elf.writeSized state (obj.base + rel.offset) value width signed)) :=
    contained.writeSized fun bytes length => stores state contained bytes (length.trans same)
  rw [Elf.applyBound]
  split
  · rename_i isPointer
    refine contained.deferIfunc fun state contained bytes length => stores state contained bytes ?_
    rw [length]
    revert isPointer
    cases rel.type <;> simp [RelocType.isPointer, RelocType.width]
  · split
    all_goals
      rename_i type
      first
        | exact contained
        | exact contained.applyCopy starts
        | exact writes _ _ _ (by rw [type]; rfl)
        | (split
           · exact writes _ _ _ (by rw [type]; rfl)
           · exact contained)

theorem Contained.applyReloc (contained : Contained obj origin state)
    (clear : ¬Straddles obj (fun place => (origin place).isSome) rel.type rel.offset)
    (dynamic : obj.dynamic = true) :
    Contained obj origin (stopped (applyReloc resolver slot obj rel state)) := by
  rw [Elf.applyReloc]
  split
  · exact contained
  · split
    · exact contained
    · rename_i allowed
      simp only [not_or, Bool.not_eq_true, Bool.not_eq_false', Nat.not_lt, Nat.not_le] at allowed
      obtain ⟨range, starts, inside⟩ := allowed
      have stores (state : RelocState σ) (contained : Contained obj origin state)
          (bytes : List UInt8) (length : bytes.length = rel.type.width) :
          Contained obj origin (stopped (state.store (obj.base + rel.offset) bytes)) :=
        contained.field dynamic range starts inside clear length
      split
      · rename_i isRelative
        exact stores state contained _ (by rw [leBytes_length, isRelative]; rfl)
      · rename_i isIrelative
        exact contained.deferIfunc fun state contained bytes length =>
          stores state contained bytes (by rw [length, isIrelative]; rfl)
      · split
        · exact contained.of_mem rfl
        · refine Contained.applyBound ?_ stores starts
          exact contained.of_mem rfl

theorem Contained.addBias (contained : Contained obj origin state) :
    Contained obj origin (stopped (addBias obj state target)) := by
  unfold Elf.addBias
  split
  · exact contained
  · rename_i allowed
    rw [not_or, Nat.not_lt, Nat.not_lt] at allowed
    split
    · exact contained
    · rename_i bytes read
      have bounds := (userRangeOk_iff (by decide) (by decide)).mp (userRead_iff.mp read).1
      have sum : (target + 8).toNat = target.toNat + 8 := @toNat_add_ofNat target 8 (by omega)
      have stored := @Contained.store _ _ _ target (leBytes (ofLeBytes bytes + obj.base) 8) _ contained
        (by rw [leBytes_length]; decide) allowed.1 (.inl (by rw [leBytes_length]; omega))
      split
      · rename_i failed isFailed
        rw [isFailed] at stored
        exact stored
      · rename_i after isAfter
        rw [isAfter] at stored
        split
        · exact stored
        · exact stored.of_mem rfl

theorem Contained.applyBitmap {bits : Addr} {left : Nat} {at_ : Addr}
    (contained : Contained obj origin state) :
    Contained obj origin (stopped (applyBitmap obj bits left at_ state)) := by
  induction left generalizing at_ state with
  | zero => exact contained
  | succ left ih =>
      rw [Elf.applyBitmap]
      split
      · have added := @Contained.addBias _ _ _ at_ _ contained
        split
        · rename_i failed isFailed
          rw [isFailed] at added
          exact added
        · rename_i after isAfter
          rw [isAfter] at added
          exact ih added
      · exact ih contained

theorem Contained.applyRelrWords {addr entsize at_ : Addr} {left i : Nat}
    (contained : Contained obj origin state) :
    Contained obj origin (stopped (applyRelrWords obj addr entsize left i at_ state)) := by
  induction left generalizing i at_ state with
  | zero => exact contained
  | succ left ih =>
      rw [Elf.applyRelrWords]
      split
      · exact contained
      · rename_i bytes _
        dsimp only
        split
        · have added := @Contained.addBias _ _ _ (obj.base + ofLeBytes bytes) _ contained
          split
          · rename_i failed isFailed
            rw [isFailed] at added
            exact added
          · rename_i after isAfter
            rw [isAfter] at added
            exact ih added
        · have added := @Contained.applyBitmap _ _ _ _ (ofLeBytes bytes >>> 1) 63 at_ contained
          split
          · rename_i failed isFailed
            rw [isFailed] at added
            exact added
          · rename_i after isAfter
            rw [isAfter] at added
            exact ih added

theorem Contained.applyRelrAt {addr size entsize : Addr} (contained : Contained obj origin state) :
    Contained obj origin (stopped (applyRelrAt obj addr size entsize state)) := by
  unfold Elf.applyRelrAt
  split_ifs
  · exact contained
  · exact contained
  · exact contained
  · refine Contained.applyRelrWords ?_
    exact contained.of_mem rfl

theorem Contained.applyRelocList {isRela : Bool} (contained : Contained obj origin state)
    (clear : ¬Straddles obj (fun place => (origin place).isSome) rel.type rel.offset)
    (dynamic : obj.dynamic = true) :
    Contained obj origin (stopped (applyRelocList resolver slot obj isRela [rel] state)) := by
  rw [Elf.applyRelocList]
  split
  · have applied := @Contained.applyReloc _ resolver slot _ _ _ _ contained clear dynamic
    rw [applyEntries]
    split
    · rename_i failed isFailed
      rw [isFailed] at applied
      exact applied
    · rename_i after isAfter
      rw [isAfter] at applied
      exact applied
  · rw [applyImplicit]
    split
    · exact contained
    · split
      · exact contained
      · rename_i bytes _
        have applied := @Contained.applyReloc _ resolver slot
          _ _ _ { rel with addend := ofLeBytes bytes } contained clear dynamic
        split
        · rename_i failed isFailed
          rw [isFailed] at applied
          exact applied
        · rename_i after isAfter
          rw [isAfter] at applied
          exact applied

theorem Contained.relocLoop {isRela : Bool} {addr entsize : Addr} {left i : Nat}
    (contained : Contained obj origin state) (clear : LoopReads resolver slot symbols obj
      (fun _ read => ∀ rel ∈ read,
      ¬Straddles obj (fun place => (origin place).isSome) rel.type rel.offset)
      isRela addr entsize left i state) (dynamic : obj.dynamic = true) :
    Contained obj origin
    (stopped (relocLoop resolver slot symbols obj isRela addr entsize left i state)) := by
  induction left generalizing i state with
  | zero => exact contained
  | succ left ih =>
      obtain ⟨here, later⟩ := clear
      rw [Elf.relocLoop]
      split
      · exact contained
      · rename_i rel read
        -- what the tables of symbols say has no part in where an entry writes
        have applied : Contained obj origin (stopped (Elf.applyRelocList resolver slot
            { obj with dyn := symbols state.mem } isRela [rel] state)) := by
          have same := @Contained.applyRelocList _ resolver slot { obj with dyn := symbols state.mem } state origin rel
            isRela ⟨contained.changes, contained.mapped⟩
            (fun straddles => here rel read ⟨straddles.dynamic, straddles.range, straddles.starts,
              straddles.inside, straddles.ends, straddles.mapped⟩) dynamic
          exact ⟨same.changes, same.mapped⟩
        split
        · rename_i failed isFailed
          rw [isFailed] at applied
          exact applied
        · rename_i after isAfter
          rw [isAfter] at applied
          exact ih applied (later rel after read isAfter)

theorem Contained.applyRelocTableAt {isRela : Bool} {addr size entsize : Addr}
    (contained : Contained obj origin state) (clear : TableReads resolver slot symbols obj
      (fun rel => ¬Straddles obj (fun place => (origin place).isSome) rel.type rel.offset) isRela
      addr size entsize state)
    (dynamic : obj.dynamic = true) :
    Contained obj origin
    (stopped (applyRelocTableAt resolver slot symbols obj isRela addr size entsize state)) := by
  unfold Elf.applyRelocTableAt
  split_ifs with absent narrow long
  · exact contained
  · exact contained
  · exact contained
  · exact contained.relocLoop (clear absent narrow long) dynamic

theorem Contained.bind {first : Except (RelocState σ) (RelocState σ)}
    {second : RelocState σ → Except (RelocState σ) (RelocState σ)}
    (one : Contained obj origin (stopped first))
    (two : ∀ state, first = .ok state → Contained obj origin state →
    Contained obj origin (stopped (second state))) :
    Contained obj origin (stopped (first >>= second)) := by
  cases first with
  | error failed => exact one
  | ok state => exact two state rfl one

theorem Contained.cosElfRelocateAt {spans : RelocSpans} (contained : Contained obj origin state)
    (clear : PassReads resolver slot symbols obj
      (fun rel => ¬Straddles obj (fun place => (origin place).isSome) rel.type rel.offset) spans
      state) :
    Contained obj origin (stopped (cosElfRelocateAt resolver slot symbols obj spans state)) := by
  rw [Elf.cosElfRelocateAt]
  split
  · exact contained
  · rename_i isDynamic
    have dynamic : obj.dynamic = true := by
      rwa [Bool.not_eq_true', Bool.not_eq_false] at isDynamic
    obtain ⟨clearRela, later⟩ := clear
    refine Contained.bind (contained.applyRelocTableAt clearRela dynamic)
      fun first isFirst contained => ?_
    obtain ⟨clearRel, later⟩ := later first isFirst
    refine Contained.bind (contained.applyRelocTableAt clearRel dynamic)
      fun second isSecond contained => ?_
    refine Contained.bind contained.applyRelrAt fun third isThird contained => ?_
    exact contained.applyRelocTableAt (later second isSecond third isThird) dynamic

theorem store_reaches {i : Nat} (less : i < bytes.length) (small : bytes.length < 2 ^ 64)
    (range : userRangeOk target (BitVec.ofNat 64 bytes.length) = true)
    (mapped : ∀ j ≤ i, (state.mem (target + BitVec.ofNat 64 j)).isSome = true) :
    (stopped (state.store target bytes)).mem (target + BitVec.ofNat 64 i) = bytes[i]? := by
  have offset := @offset_of_add target i (by omega)
  unfold RelocState.store
  split
  · rename_i mem written
    rw [userWrite_eq written]
    change (bytes[_]?).or _ = _
    rw [offset, List.getElem?_eq_getElem less, Option.some_or]
  · have reaches : i < ((List.range bytes.length).takeWhile fun i =>
        (state.mem (target + BitVec.ofNat 64 i)).isSome).length := by
      rw [List.takeWhile_eq_take_findIdx_not, List.length_take, List.length_range]
      refine Nat.lt_min.mpr ⟨List.lt_findIdx_of_not (by rwa [List.length_range]) fun j upto => ?_, less⟩
      simp [mapped j upto]
    unfold userWrittenPart
    rw [if_pos range]
    change ((bytes.take _)[_]?).or _ = _
    rw [offset, List.getElem?_take_of_lt reaches, List.getElem?_eq_getElem less, Option.some_or]

theorem applyReloc_stores {type : RelocType} {offset : Addr} (scope : σ) (writes : 0 < type.width)
    (range : userRangeOk (obj.base + offset) 8 = true)
    (starts : obj.mapStart ≤ (obj.base + offset).toNat)
    (inside : (obj.base + offset).toNat < obj.mapEnd) :
      ∃ (addend : Addr) (bytes : List UInt8), bytes.length = type.width ∧ ∀ (dyn : DynInfo) (mem : UserMem), ∃ state : RelocState σ, state.mem = mem ∧
        applyReloc resolver slot { obj with dyn := dyn } ⟨offset, type, 0, addend⟩
          ⟨mem, scope, [], 0, []⟩ = state.store (obj.base + offset) bytes := by
  have allowed : ¬((!userRangeOk (obj.base + offset) 8) = true ∨
      (obj.base + offset).toNat < obj.mapStart ∨ obj.mapEnd ≤ (obj.base + offset).toNat) := by
    rw [range]
    exact not_or.mpr ⟨Bool.false_ne_true, not_or.mpr ⟨Nat.not_lt.mpr starts, Nat.not_le.mpr inside⟩⟩
  -- symbol 0 stands for the value 0, in this object's own TLS block
  let zero : SymVal := { SymVal.zero with isTls := true, tlsModid := obj.tlsModid }
  have sized (addend value : Addr) (signed : Bool) (fits : fitsWidth value type.width signed = true)
      (same : ∀ (dyn : DynInfo) (state : RelocState σ), applyReloc resolver slot { obj with dyn := dyn } ⟨offset, type, 0, addend⟩ state =
        writeSized { state with bindings := state.bindings ++ [⟨slot, ⟨offset, type, 0, addend⟩, zero⟩] }
          (obj.base + offset) value type.width signed) :
      ∃ (addend : Addr) (bytes : List UInt8), bytes.length = type.width ∧
        ∀ (dyn : DynInfo) (mem : UserMem), ∃ state : RelocState σ, state.mem = mem ∧
          applyReloc resolver slot { obj with dyn := dyn } ⟨offset, type, 0, addend⟩
            ⟨mem, scope, [], 0, []⟩ = state.store (obj.base + offset) bytes := by
    refine ⟨addend, leBytes value type.width, leBytes_length, fun dyn mem =>
      ⟨⟨mem, scope, [], 0, [⟨slot, ⟨offset, type, 0, addend⟩, zero⟩]⟩, rfl, ?_⟩⟩
    rw [same, writeSized, if_pos fits]
    rfl
  have bound (dyn : DynInfo) (state : RelocState σ) (addend : Addr)
      (symbolic : type ≠ .none ∧ type ≠ .relative ∧ type ≠ .irelative) : applyReloc resolver slot { obj with dyn := dyn } ⟨offset, type, 0, addend⟩ state =
        applyBound slot { obj with dyn := dyn } ⟨offset, type, 0, addend⟩ zero false false
          { state with bindings := state.bindings ++ [⟨slot, ⟨offset, type, 0, addend⟩, zero⟩] } := by
    rw [applyReloc, if_neg symbolic.1, if_neg allowed]
    cases type <;> first
      | rfl
      | exact absurd rfl symbolic.2.1
      | exact absurd rfl symbolic.2.2
  have wide (value : Addr) : fitsWidth value 8 false = true := rfl
  have self : zero.address + (obj.base + offset) - (obj.base + offset) = 0 := by
    rw [BitVec.add_sub_cancel]
    rfl
  cases type
  case none => exact absurd writes (by decide)
  case copy => exact absurd writes (by decide)
  case refused => exact absurd writes (by decide)
  case relative =>
    refine ⟨0, leBytes (obj.base + 0) 8, leBytes_length,
      fun dyn mem => ⟨⟨mem, scope, [], 0, []⟩, rfl, ?_⟩⟩
    rw [applyReloc, if_neg RelocType.noConfusion, if_neg allowed]
  case irelative =>
    refine ⟨0, leBytes 0 8, leBytes_length,
      fun dyn mem => ⟨⟨mem, scope, [(slot, obj.base + offset, obj.base + 0)], 0, []⟩, rfl, ?_⟩⟩
    rw [applyReloc, if_neg RelocType.noConfusion, if_neg allowed]
    rfl
  case pc32 | plt32 | pc16 | pc8 =>
    refine sized (obj.base + offset) (zero.address + (obj.base + offset) - (obj.base + offset)) true
      (by rw [self]; rfl) fun dyn state => ?_
    rw [bound dyn state _ (by decide), applyBound, if_neg (fun claim => Bool.false_ne_true claim.1)]
    rfl
  case pc64 =>
    refine sized 0 (zero.address + 0 - (obj.base + offset)) false (wide _) fun dyn state => ?_
    rw [bound dyn state _ (by decide), applyBound, if_neg (fun claim => Bool.false_ne_true claim.1)]
    rfl
  case dtpmod64 =>
    refine sized 0 (if zero.isTls ∧ zero.tlsModid > 0 then BitVec.ofNat 64 zero.tlsModid else 0)
      false (wide _) fun dyn state => ?_
    rw [bound dyn state _ (by decide), applyBound, if_neg (fun claim => Bool.false_ne_true claim.1)]
    rfl
  case abs32s =>
    refine sized 0 0 true rfl fun dyn state => ?_
    rw [bound dyn state _ (by decide), applyBound, if_neg (fun claim => Bool.false_ne_true claim.1)]
    rfl
  all_goals
    refine sized 0 0 false rfl fun dyn state => ?_
    rw [bound dyn state _ (by decide), applyBound, if_neg (fun claim => Bool.false_ne_true claim.1)]
    rfl

def pageOf (place : Addr) : Nat := place.toNat / 4096

/-- A `RELA` table of one entry, and no other. -/
def oneRela (table : Addr) : RelocSpans := ⟨table, 24, 24, 0, 0, 0, 0, 0, 0, 0, 0, false⟩

/-- The bytes of an entry at `table`, and `byte` elsewhere. -/
def oneEntry (pages : Nat → Bool) (table : Addr) (entry : List UInt8) (byte : UInt8) :
    UserMem := fun place =>
  if pages (pageOf place) then some ((entry[(place - table).toNat]?).getD byte) else none

theorem loop_first (table entsize : Addr) : table + BitVec.ofNat 64 0 * entsize = table := by
  rw [BitVec.zero_mul, BitVec.add_zero]

theorem cosElfRelocateAt_single {table : Addr} (dynamic : obj.dynamic = true) (nonzero : table ≠ 0)
    (read : readReloc state.mem true table = some rel) :
    (stopped (cosElfRelocateAt resolver slot symbols obj (oneRela table) state)).mem =
      (stopped (applyReloc resolver slot { obj with dyn := symbols state.mem } rel state)).mem := by
  have first : applyRelocTableAt resolver slot symbols obj true table 24 24 state =
      applyReloc resolver slot { obj with dyn := symbols state.mem } rel state := by
    rw [applyRelocTableAt, if_neg (not_or.mpr ⟨nonzero, by decide⟩), if_neg (by decide),
      if_neg (by decide), show ((24 : Addr) / 24).toNat =
      1 from by decide, relocLoop, loop_first, read]
    simp only [applyRelocList, if_true, applyEntries, relocLoop]
    cases applyReloc resolver slot { obj with dyn := symbols state.mem } rel state <;> rfl
  have isDynamic : ¬(!obj.dynamic) = true := by
    rw [dynamic]
    exact Bool.false_ne_true
  rw [cosElfRelocateAt, if_neg isDynamic]
  change (stopped (applyRelocTableAt resolver slot symbols obj true table 24 24 state >>= _)).mem =
    _
  rw [first]
  cases applyReloc resolver slot { obj with dyn := symbols state.mem } rel state <;> rfl

theorem passReads_single {table : Addr} {holds : Reloc → Prop}
    (read : readReloc state.mem true table = some rel) (here : holds rel) :
    PassReads resolver slot symbols obj holds (oneRela table) state := by
  refine ⟨fun _ _ _ => ?_,
    fun _ _ => ⟨fun absent => absurd (.inl rfl) absent,
    fun _ _ _ _ absent => absurd (.inl rfl) absent⟩⟩
  rw [show ((oneRela table).relasz / (oneRela table).relaent).toNat =
    1 from (by decide : ((24 : Addr) / 24).toNat = 1)]
  refine ⟨fun other isOther => ?_, fun _ _ _ _ => trivial⟩
  rw [oneRela, loop_first, read] at isOther
  cases isOther
  exact here

theorem oneEntry_read {pages : Nat → Bool} {table : Addr} {byte : UInt8} {number : Nat} {page : Nat}
    (isMapped : pages page = true) (range : userRangeOk table 24 = true)
    (inPage : ∀ i < 24, pageOf (table + BitVec.ofNat 64 i) = page)
    (type : relocType number = rel.type) (small : number < 2 ^ 32) (sym : rel.sym < 2 ^ 32) :
    readReloc (oneEntry pages table (relaBytes rel number) byte) true table = some rel := by
  have read : userRead (oneEntry pages table (relaBytes rel number) byte) table 24 =
    some (relaBytes rel number) := by
    refine userRead_iff.mpr ⟨range, relaBytes_length, fun i less => ?_⟩
    have inside : i < (relaBytes rel number).length := by
      rw [relaBytes_length]
      exact less
    rw [oneEntry, inPage i less, if_pos isMapped, offset_of_add (by omega),
      List.getElem?_eq_getElem inside, Option.getD_some]
  rw [readReloc]
  change (userRead _ table 24).map decodeReloc = _
  rw [read, Option.map_some, decodeReloc_relaBytes type small sym]

theorem room_beside (first other : Nat) :
    ∃ start, first ≤ start ∧ start + 24 ≤ first + 4096 ∧ (other < start ∨ start + 24 ≤ other) := by
  by_cases early : other < first + 24
  · exact ⟨first + 4072, by omega, by omega, by omega⟩
  · exact ⟨first, by omega, by omega, by omega⟩

/-- A page holds an entry that leaves out one of its bytes. -/
theorem entry_beside (page other : Nat) (low : 0x8000000000 ≤ page * 4096)
    (high : page * 4096 + 4096 ≤ 0x800000000000) :
      ∃ table : Addr, userRangeOk table 24 = true ∧
      (∀ i < 24, pageOf (table + BitVec.ofNat 64 i) = page) ∧
      (other < table.toNat ∨ table.toNat + 24 ≤ other) := by
  have bottom : pieBase.toNat = 0x8000000000 := rfl
  have limit : userLimit.toNat = 0x800000000000 := rfl
  obtain ⟨start, after, before, beside⟩ := room_beside (page * 4096) other
  have isStart : (BitVec.ofNat 64 start).toNat = start := by
    rw [BitVec.toNat_ofNat]
    omega
  refine ⟨BitVec.ofNat 64 start, (@userRangeOk_iff 24 _ (by decide) (by decide)).mpr (by omega),
    fun i less => ?_, by omega⟩
  rw [pageOf, toNat_add_ofNat (by omega), isStart]
  omega

/-- Which entries keep every relocation inside the object: those that do not name a field that
starts inside the object and whose bytes are written past its end. -/
theorem relocation_confined (scope : σ) (obj : ElfObject) (pages : Nat → Bool)
    (kinds : RelocType → Addr → Prop) :
    (∀ (resolver : SymReq → σ → Option SymVal × σ) (slot : Nat) (symbols : UserMem → DynInfo) (spans : RelocSpans)
      (state : RelocState σ), (∀ place, (state.mem place).isSome = pages (pageOf place)) →
        PassReads resolver slot symbols obj (fun rel => kinds rel.type rel.offset) spans state →
          ChangesWithin obj.mapStart obj.mapEnd state.mem
            (stopped (cosElfRelocateAt resolver slot symbols obj spans state)).mem) ↔
      ∀ type offset, kinds type offset →
      ¬Straddles obj (fun place => pages (pageOf place)) type offset := by
  constructor
  · intro confined type offset kind straddles
    have range := straddles.range
    have inside := straddles.inside
    have ends := straddles.ends
    have small : type.width ≤ 8 := by
      cases type <;> decide
    obtain ⟨addend, bytes, width, stores⟩ :=
      @applyReloc_stores _ (fun _ scope => (none, scope)) 0 obj type offset
      scope (by omega) range straddles.starts inside
    let gap := obj.mapEnd - (obj.base + offset).toNat
    have bounds := (@userRangeOk_iff 8 _ (by decide) (by decide)).mp range
    have bottom : pieBase.toNat = 0x8000000000 := rfl
    have limit : userLimit.toNat = 0x800000000000 := rfl
    have behind : (obj.base + offset + BitVec.ofNat 64 gap).toNat = obj.mapEnd := by
      rw [toNat_add_ofNat] <;> omega
    have room : userRangeOk (obj.base + offset) (BitVec.ofNat 64 bytes.length) = true :=
      (userRangeOk_iff (by omega) (by omega)).mpr ⟨bounds.1, by omega⟩
    have isMapped : pages (pageOf (obj.base + offset)) = true := by
      have first := straddles.mapped 0 (by omega)
      rwa [BitVec.add_zero] at first
    -- the table lies in the page that the field starts in
    obtain ⟨table, tableRange, inPage, beside⟩ :=
      entry_beside (pageOf (obj.base + offset)) obj.mapEnd
      (by unfold pageOf; omega) (by unfold pageOf; omega)
    have nonzero : table ≠ 0 := by
      rintro rfl
      exact absurd tableRange (by decide)
    obtain ⟨number, isNumber, few⟩ := relocType_surjective type
    -- the same bytes are stored whatever lay there
    have kept (byte : UInt8) : bytes[gap]? = some byte := by
      let mem := oneEntry pages table (relaBytes ⟨offset, type, 0, addend⟩ number) byte
      have areMapped (place : Addr) : (mem place).isSome = pages (pageOf place) := by
        change (if pages (pageOf place) then _ else none).isSome = _
        cases pages (pageOf place) <;> rfl
      have read : readReloc mem true table = some ⟨offset, type, 0, addend⟩ :=
        oneEntry_read isMapped tableRange inPage isNumber few (Nat.two_pow_pos 32)
      obtain ⟨state, isMem, stored⟩ := stores DynInfo.empty mem
      have unchanged := confined (fun _ scope => (none, scope)) 0 (fun _ => DynInfo.empty)
        (oneRela table) ⟨mem, scope, [], 0, []⟩ areMapped (passReads_single read kind)
        (obj.base + offset + BitVec.ofNat 64 gap) (.inr (Nat.le_of_eq behind.symm))
      have reached := @store_reaches _ state (obj.base + offset) bytes gap (by omega) (by omega) room fun j upto => by
        rw [isMem, areMapped]
        exact straddles.mapped j (by omega)
      rw [cosElfRelocateAt_single straddles.dynamic nonzero read, stored, reached] at unchanged
      rw [unchanged]
      change (if pages (pageOf _) then some _ else none) = _
      rw [if_pos (straddles.mapped gap (by omega)), List.getElem?_eq_none, Option.getD_none]
      rw [relaBytes_length]
      rcases beside with below | above
      · rw [place_offset_wrapped (by omega)]
        omega
      · rw [place_offset (by omega)]
        omega
    have clash : some (0 : UInt8) = some 1 := (kept 0).symm.trans (kept 1)
    exact absurd clash (by decide)
  · intro clear resolver slot symbols spans state areMapped finds
    have same : (fun place => (state.mem place).isSome) = fun place => pages (pageOf place) :=
      funext areMapped
    refine (@Contained.cosElfRelocateAt _ resolver slot symbols obj state state.mem spans
      ⟨ChangesWithin.refl, fun _ => rfl⟩ (finds.imp fun rel kind => ?_)).changes
    rw [same]
    exact clear rel.type rel.offset kind

/-- A library of one page at `pieBase`, and another page mapped behind it. -/
def edgeObject : ElfObject :=
  ⟨pieBase, pieBase.toNat, pieBase.toNat + 0x1000, [⟨pieBase.toNat, pieBase.toNat + 0x1000⟩], true,
    false, false, 0, 0, 0, 0, DynInfo.empty⟩

/-- A `R_X86_64_RELATIVE` entry that names the last four bytes of the library. -/
def edgeMem : UserMem :=
  oneEntry (fun _ => true) (pieBase + 0x100#64) (relaBytes ⟨0xFFC, .relative, 0, 0⟩ 8) 0

theorem relocation_leaves_object : ¬ChangesWithin edgeObject.mapStart edgeObject.mapEnd edgeMem
    (stopped (cosElfRelocateAt (fun _ scope => (none, scope)) 0 (fun _ => DynInfo.empty) edgeObject
      (oneRela (pieBase + 0x100#64)) ⟨edgeMem, (), [], 0, []⟩)).mem := by
  intro confined
  have here := confined (pieBase + 0x1000#64) (.inr (by decide))
  exact absurd here (by decide)

end Cos.Elf
