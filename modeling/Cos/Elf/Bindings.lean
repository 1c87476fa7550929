import Cos.Elf.UserMemory

/-! # What a relocation pass binds

A pass that succeeds goes through every entry of the object's tables.  Each entry that
names a symbol leaves exactly one binding on record, with the value `resolve_for_reloc`
gave it; nothing else touches the record or the state of the resolver.
-/

namespace Cos.Elf

variable {σ : Type u} {resolver : SymReq → σ → Option SymVal × σ} {slot : Nat} {obj : ElfObject}
  {rel : Reloc} {table : List Reloc} {state after : RelocState σ}

structure SameRecord (before after : RelocState σ) : Prop where
  scope : after.scope = before.scope
  bindings : after.bindings = before.bindings

theorem SameRecord.refl (state : RelocState σ) : SameRecord state state := ⟨rfl, rfl⟩

theorem SameRecord.trans {middle : RelocState σ} (first : SameRecord state middle)
    (second : SameRecord middle after) : SameRecord state after :=
  ⟨second.scope.trans first.scope, second.bindings.trans first.bindings⟩

theorem store_same {target : Addr} {bytes : List UInt8}
    (stored : state.store target bytes = .ok after) : SameRecord state after := by
  unfold RelocState.store at stored
  split at stored
  · obtain rfl := Except.ok.inj stored
    exact ⟨rfl, rfl⟩
  · contradiction

theorem writeSized_same {target value : Addr} {width : Nat} {signed : Bool}
    (written : writeSized state target value width signed = .ok after) :
    SameRecord state after := by
  unfold writeSized at written
  split at written
  · exact store_same written
  · contradiction

theorem deferIfunc_same {target fn : Addr}
    (deferred : deferIfunc slot state target fn = .ok after) : SameRecord state after := by
  unfold deferIfunc at deferred
  split at deferred
  · contradiction
  · obtain ⟨scope, bindings⟩ := store_same deferred
    exact ⟨scope, bindings⟩

theorem copyChunks_same {target source : Addr} {chunks left : Nat}
    (copied : copyChunks target source chunks left state = .ok after) : SameRecord state after := by
  induction chunks generalizing target source left state with
  | zero =>
      obtain rfl := Except.ok.inj copied
      exact .refl _
  | succ chunks ih =>
      rw [copyChunks] at copied
      split at copied
      · contradiction
      · split at copied
        · contradiction
        · rename_i stored
          exact (store_same stored).trans (ih copied)

theorem applyCopy_same {target : Addr} {value : SymVal}
    (copied : applyCopy obj state target value = .ok after) : SameRecord state after := by
  unfold applyCopy at copied
  split at copied
  · obtain rfl := Except.ok.inj copied
    exact .refl _
  · split at copied
    · contradiction
    · exact copyChunks_same copied

theorem applyBound_same {value : SymVal} {isWeak isIfunc : Bool}
    (applied : applyBound slot obj rel value isWeak isIfunc state = .ok after) :
    SameRecord state after := by
  rw [applyBound] at applied
  split at applied
  · exact deferIfunc_same applied
  · split at applied
    all_goals first
      | exact writeSized_same applied
      | exact applyCopy_same applied
      | contradiction
      | skip
    all_goals
      split at applied
      · exact writeSized_same applied
      · contradiction

def RelocType.NamesSymbol (type : RelocType) : Prop :=
  type ≠ .none ∧ type ≠ .relative ∧ type ≠ .irelative

theorem applyReloc_cases (applied : applyReloc resolver slot obj rel state = .ok after) :
    (¬ rel.type.NamesSymbol ∧ SameRecord state after) ∨
      (rel.type.NamesSymbol ∧ ∃ value isWeak isIfunc scope,
        resolveForReloc resolver slot obj rel.sym rel.type state.scope =
          (some (value, isWeak, isIfunc), scope) ∧
        after.scope = scope ∧ after.bindings = state.bindings ++ [⟨slot, rel, value⟩]) := by
  rw [applyReloc] at applied
  split at applied
  · rename_i isNone
    obtain rfl := Except.ok.inj applied
    exact .inl ⟨fun names => names.1 isNone, .refl _⟩
  rename_i notNone
  split at applied
  · contradiction
  split at applied
  · rename_i isRelative
    exact .inl ⟨fun names => names.2.1 isRelative, store_same applied⟩
  · rename_i isIrelative
    exact .inl ⟨fun names => names.2.2 isIrelative, deferIfunc_same applied⟩
  · rename_i notRelative notIrelative
    split at applied
    · contradiction
    · rename_i value isWeak isIfunc scope resolved
      obtain ⟨sameScope, sameBindings⟩ := applyBound_same applied
      exact .inr ⟨⟨notNone, notRelative, notIrelative⟩, value, isWeak, isIfunc, scope, resolved,
        sameScope, sameBindings⟩

theorem store_holds {target : Addr} {bytes : List UInt8} (small : bytes.length < 2 ^ 64)
    (stored : state.store target bytes = .ok after) :
    userRead after.mem target bytes.length = some bytes ∧ after.ifuncs = state.ifuncs := by
  unfold RelocState.store at stored
  split at stored
  · rename_i mem written
    obtain rfl := Except.ok.inj stored
    exact ⟨userRead_userWrite written small, rfl⟩
  · contradiction

/-- The binding on record is the one that the slot has been given: it holds the sum, or it is
left to the program as IFUNC work. -/
theorem applyReloc_pointer (pointer : rel.type.isPointer = true)
    (applied : applyReloc resolver slot obj rel state = .ok after) :
    ∃ value, after.bindings = state.bindings ++ [⟨slot, rel, value⟩] ∧
      (userRead after.mem (obj.base + rel.offset) 8 = some (leBytes (value.address + rel.addend) 8) ∨
        after.ifuncs = state.ifuncs ++ [(slot, obj.base + rel.offset, value.address)]) := by
  rw [applyReloc] at applied
  split at applied
  · rename_i isNone
    rw [isNone] at pointer
    contradiction
  split at applied
  · contradiction
  split at applied
  · rename_i isRelative
    rw [isRelative] at pointer
    contradiction
  · rename_i isIrelative
    rw [isIrelative] at pointer
    contradiction
  split at applied
  · contradiction
  rename_i value isWeak isIfunc scope _
  refine ⟨value, (applyBound_same applied).bindings, ?_⟩
  rw [applyBound] at applied
  split at applied
  · unfold deferIfunc at applied
    split at applied
    · contradiction
    · exact .inr (store_holds (by rw [leBytes_length]; decide) applied).2
  · have written : writeSized { state with scope := scope, bindings := state.bindings ++ [⟨slot, rel, value⟩] }
        (obj.base + rel.offset) (value.address + rel.addend) 8 false = .ok after := by
      revert pointer applied
      cases rel.type <;> first
        | exact fun _ applied => applied
        | exact fun pointer => absurd pointer (by decide)
    have stored := (store_holds (by rw [leBytes_length]; decide) written).1
    rw [leBytes_length] at stored
    exact .inl stored

def ElfObject.relocs (obj : ElfObject) : List Reloc :=
  if obj.dynamic then obj.dyn.rela ++ obj.dyn.rel ++ obj.dyn.jmprel else []

def Listed (obj : ElfObject) (rel : Reloc) : Prop :=
  ∃ entry ∈ obj.relocs, entry.sym = rel.sym ∧ entry.type = rel.type

structure RecordInvariant (resolver : SymReq → σ → Option SymVal × σ) (slot : Nat) (obj : ElfObject)
    (holds : RelocState σ → Prop) : Prop where
  same : ∀ {state after : RelocState σ}, SameRecord state after → holds state → holds after
  bind : ∀ {state after : RelocState σ} {rel : Reloc} {value : SymVal} {isWeak isIfunc : Bool}
    {scope : σ}, Listed obj rel → rel.type.NamesSymbol →
    resolveForReloc resolver slot obj rel.sym rel.type state.scope =
      (some (value, isWeak, isIfunc), scope) →
    after.scope = scope → after.bindings = state.bindings ++ [⟨slot, rel, value⟩] →
    holds state → holds after

variable {holds : RelocState σ → Prop}

theorem RecordInvariant.applyReloc (invariant : RecordInvariant resolver slot obj holds)
    (listed : Listed obj rel) (applied : Elf.applyReloc resolver slot obj rel state = .ok after)
    (before : holds state) : holds after := by
  rcases applyReloc_cases applied with ⟨_, same⟩ | ⟨names, value, isWeak, isIfunc, scope, resolved,
    newScope, newBindings⟩
  · exact invariant.same same before
  · exact invariant.bind listed names resolved newScope newBindings before

theorem RecordInvariant.applyEntries (invariant : RecordInvariant resolver slot obj holds)
    (listed : ∀ rel ∈ table, rel ∈ obj.relocs)
    (applied : Elf.applyEntries resolver slot obj table state = .ok after) (before : holds state) :
    holds after := by
  induction table generalizing state with
  | nil =>
      obtain rfl := Except.ok.inj applied
      exact before
  | cons rel rest ih =>
      rw [Elf.applyEntries] at applied
      split at applied
      · contradiction
      · rename_i middle one
        have here : Listed obj rel := ⟨rel, listed rel (by simp), rfl, rfl⟩
        exact ih (fun other member => listed other (by simp [member])) applied
          (invariant.applyReloc here one before)

theorem RecordInvariant.applyImplicit (invariant : RecordInvariant resolver slot obj holds)
    (listed : ∀ rel ∈ table, rel ∈ obj.relocs)
    (applied : Elf.applyImplicit resolver slot obj table state = .ok after) (before : holds state) :
    holds after := by
  induction table generalizing state with
  | nil =>
      obtain rfl := Except.ok.inj applied
      exact before
  | cons rel rest ih =>
      rw [Elf.applyImplicit] at applied
      split at applied
      · contradiction
      · split at applied
        · contradiction
        · split at applied
          · contradiction
          · rename_i middle one
            refine ih (fun other member => listed other (by simp [member])) applied
              (invariant.applyReloc ?_ one before)
            exact ⟨rel, listed rel (by simp), rfl, rfl⟩

theorem RecordInvariant.applyRelocTable {isRela : Bool}
    (invariant : RecordInvariant resolver slot obj holds)
    (listed : ∀ rel ∈ table, rel ∈ obj.relocs)
    (applied : Elf.applyRelocTable resolver slot obj isRela table state = .ok after)
    (before : holds state) : holds after := by
  rw [Elf.applyRelocTable] at applied
  split at applied
  · contradiction
  · split at applied
    · exact invariant.applyEntries listed applied before
    · exact invariant.applyImplicit listed applied before

theorem addBias_same {at_ : Addr} (added : addBias obj state at_ = .ok after) :
    SameRecord state after := by
  rw [addBias] at added
  split at added
  · contradiction
  · split at added
    · contradiction
    · split at added
      · contradiction
      · rename_i middle stored
        split at added
        · contradiction
        · obtain rfl := Except.ok.inj added
          obtain ⟨scope, bindings⟩ := store_same stored
          exact ⟨scope, bindings⟩

theorem applyBitmap_same {bits at_ : Addr} {left : Nat}
    (applied : applyBitmap obj bits left at_ state = .ok after) : SameRecord state after := by
  induction left generalizing at_ state with
  | zero =>
      obtain rfl := Except.ok.inj applied
      exact .refl _
  | succ left ih =>
      rw [applyBitmap] at applied
      split at applied
      · split at applied
        · contradiction
        · rename_i middle added
          exact (addBias_same added).trans (ih applied)
      · exact ih applied

theorem applyRelrTable_same {entries : List (BitVec 64)} {at_ : Addr}
    (applied : applyRelrTable obj entries at_ state = .ok after) : SameRecord state after := by
  induction entries generalizing at_ state with
  | nil =>
      obtain rfl := Except.ok.inj applied
      exact .refl _
  | cons entry rest ih =>
      rw [applyRelrTable] at applied
      split at applied
      · split at applied
        · contradiction
        · rename_i middle added
          exact (addBias_same added).trans (ih applied)
      · split at applied
        · contradiction
        · rename_i middle added
          exact (applyBitmap_same added).trans (ih applied)

theorem cosElfRelocate_cases (dynamic : obj.dynamic = true)
    (relocated : cosElfRelocate resolver slot obj state = .ok after) :
    ∃ first second third,
      applyRelocTable resolver slot obj true obj.dyn.rela state = .ok first ∧
      applyRelocTable resolver slot obj false obj.dyn.rel first = .ok second ∧
      SameRecord second third ∧
      applyRelocTable resolver slot obj (!obj.dyn.pltRel) obj.dyn.jmprel third = .ok after := by
  rw [cosElfRelocate, dynamic] at relocated
  cases rela : applyRelocTable resolver slot obj true obj.dyn.rela state with
  | error failed =>
      rw [rela] at relocated
      contradiction
  | ok first =>
      rw [rela] at relocated
      cases rel : applyRelocTable resolver slot obj false obj.dyn.rel first with
      | error failed =>
          simp only [bind, Except.bind, rel] at relocated
          contradiction
      | ok second =>
          simp only [bind, Except.bind, rel] at relocated
          by_cases tooMany : obj.dyn.relr.length > maxRelocs
          · rw [if_pos tooMany] at relocated
            contradiction
          · rw [if_neg tooMany] at relocated
            cases relr : applyRelrTable obj obj.dyn.relr 0 { second with applied := 0 } with
            | error failed =>
                rw [relr] at relocated
                contradiction
            | ok third =>
                rw [relr] at relocated
                obtain ⟨scope, bindings⟩ := applyRelrTable_same relr
                exact ⟨first, second, third, rfl, rel, ⟨scope, bindings⟩, relocated⟩

theorem relocs_tables (dynamic : obj.dynamic = true) :
    (∀ rel ∈ obj.dyn.rela, rel ∈ obj.relocs) ∧ (∀ rel ∈ obj.dyn.rel, rel ∈ obj.relocs) ∧
      ∀ rel ∈ obj.dyn.jmprel, rel ∈ obj.relocs := by
  simp only [ElfObject.relocs, dynamic, if_true, List.mem_append]
  exact ⟨fun _ member => .inl (.inl member), fun _ member => .inl (.inr member),
    fun _ member => .inr member⟩

theorem RecordInvariant.cosElfRelocate (invariant : RecordInvariant resolver slot obj holds)
    (relocated : Elf.cosElfRelocate resolver slot obj state = .ok after) (before : holds state) :
    holds after := by
  cases dynamic : obj.dynamic with
  | false =>
      rw [Elf.cosElfRelocate, dynamic] at relocated
      obtain rfl := Except.ok.inj relocated
      exact before
  | true =>
      obtain ⟨first, second, third, rela, rel, relr, jmprel⟩ := cosElfRelocate_cases dynamic relocated
      obtain ⟨inRela, inRel, inJmprel⟩ := relocs_tables dynamic
      have afterRela := invariant.applyRelocTable inRela rela before
      have afterRel := invariant.applyRelocTable inRel rel afterRela
      exact invariant.applyRelocTable inJmprel jmprel (invariant.same relr afterRel)

/-- A relocation with this symbol and type is on record for the slot. -/
def Recorded (slot : Nat) (rel : Reloc) (state : RelocState σ) : Prop :=
  ∃ binding ∈ state.bindings, binding.slot = slot ∧ binding.reloc.sym = rel.sym ∧
    binding.reloc.type = rel.type

theorem recorded_invariant (other : Nat) :
    RecordInvariant resolver slot obj (Recorded other rel) where
  same := by
    intro state after same recorded
    obtain ⟨binding, member, facts⟩ := recorded
    exact ⟨binding, by rw [same.bindings]; exact member, facts⟩
  bind := by
    intro state after rel value isWeak isIfunc scope _ _ _ _ newBindings recorded
    obtain ⟨binding, member, facts⟩ := recorded
    exact ⟨binding, by rw [newBindings]; simp [member], facts⟩

theorem applyReloc_recorded (applied : applyReloc resolver slot obj rel state = .ok after)
    (names : rel.type.NamesSymbol) : Recorded slot rel after := by
  rcases applyReloc_cases applied with ⟨silent, _⟩ | ⟨_, value, _, _, _, _, _, newBindings⟩
  · exact absurd names silent
  · exact ⟨⟨slot, rel, value⟩, by rw [newBindings]; simp, rfl, rfl, rfl⟩

theorem applyEntries_recorded (listed : ∀ rel ∈ table, rel ∈ obj.relocs)
    (applied : applyEntries resolver slot obj table state = .ok after) (member : rel ∈ table)
    (names : rel.type.NamesSymbol) : Recorded slot rel after := by
  induction table generalizing state with
  | nil => contradiction
  | cons first rest ih =>
      have restListed : ∀ other ∈ rest, other ∈ obj.relocs :=
        fun other inside => listed other (by simp [inside])
      rw [applyEntries] at applied
      split at applied
      · contradiction
      · rename_i middle one
        cases List.mem_cons.mp member with
        | inl here =>
            subst here
            exact (recorded_invariant slot).applyEntries restListed applied
              (applyReloc_recorded one names)
        | inr later => exact ih restListed applied later

theorem applyImplicit_recorded (listed : ∀ rel ∈ table, rel ∈ obj.relocs)
    (applied : applyImplicit resolver slot obj table state = .ok after) (member : rel ∈ table)
    (names : rel.type.NamesSymbol) : Recorded slot rel after := by
  induction table generalizing state with
  | nil => contradiction
  | cons first rest ih =>
      have restListed : ∀ other ∈ rest, other ∈ obj.relocs :=
        fun other inside => listed other (by simp [inside])
      rw [applyImplicit] at applied
      split at applied
      · contradiction
      split at applied
      · contradiction
      split at applied
      · contradiction
      · rename_i middle one
        cases List.mem_cons.mp member with
        | inl here =>
            subst here
            obtain ⟨binding, inRecord, facts⟩ := applyReloc_recorded one names
            have here : Recorded slot rel middle := ⟨binding, inRecord, facts⟩
            exact (recorded_invariant slot).applyImplicit restListed applied here
        | inr later => exact ih restListed applied later

theorem applyRelocTable_recorded {isRela : Bool} (listed : ∀ rel ∈ table, rel ∈ obj.relocs)
    (applied : applyRelocTable resolver slot obj isRela table state = .ok after)
    (member : rel ∈ table) (names : rel.type.NamesSymbol) : Recorded slot rel after := by
  rw [applyRelocTable] at applied
  split at applied
  · contradiction
  split at applied
  · exact applyEntries_recorded listed applied member names
  · exact applyImplicit_recorded listed applied member names

theorem cosElfRelocate_recorded (relocated : cosElfRelocate resolver slot obj state = .ok after)
    (member : rel ∈ obj.relocs) (names : rel.type.NamesSymbol) : Recorded slot rel after := by
  cases dynamic : obj.dynamic with
  | false => simp [ElfObject.relocs, dynamic] at member
  | true =>
      obtain ⟨first, second, third, rela, relTable, relr, jmprel⟩ :=
        cosElfRelocate_cases dynamic relocated
      have keeps : RecordInvariant resolver slot obj (Recorded slot rel) := recorded_invariant slot
      obtain ⟨inRela, inRel, inJmprel⟩ := relocs_tables dynamic
      rw [ElfObject.relocs, dynamic, if_pos rfl, List.append_assoc] at member
      rcases List.mem_append.mp member with entry | member
      · have one := applyRelocTable_recorded inRela rela entry names
        exact keeps.applyRelocTable inJmprel jmprel
          (keeps.same relr (keeps.applyRelocTable inRel relTable one))
      · rcases List.mem_append.mp member with entry | entry
        · have one := applyRelocTable_recorded inRel relTable entry names
          exact keeps.applyRelocTable inJmprel jmprel (keeps.same relr one)
        · exact applyRelocTable_recorded inJmprel jmprel entry names

end Cos.Elf
