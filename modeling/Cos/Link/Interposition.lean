import Cos.Elf.Bindings
import Cos.Link.Namespace

/-! # Which definition a symbol is bound to

After `relocate_all`, every reference that the object does not define itself is bound to
the first definition in the process-wide scope.  A reference that the object does define
is bound to the object's own copy, whoever comes first in the scope.
-/

namespace Cos.Link

open Cos.Elf

structure Symbol where
  name : CString
  version : Option CString
deriving DecidableEq, Repr

def firstDefinition (ns : LinkNs) (symbol : Symbol) : Option (Nat × SymVal) :=
  ns.globalSlots.findSome? fun i =>
    (ns.objs i).bind fun slot => (cosElfLookup slot.obj symbol.name symbol.version).map (i, ·)

def Defines (ns : LinkNs) (i : Nat) (symbol : Symbol) : Prop :=
  ∃ slot value, ns.objs i = some slot ∧
    cosElfLookup slot.obj symbol.name symbol.version = some value

/-- The version a reference through this symbol table entry asks for. -/
def symVersion (obj : ElfObject) (sym : ElfSym) : Option CString :=
  if obj.dyn.hasVersym then versionNameForIndex obj sym.versym else none

/-- A relocation of `obj` against the symbol, which is not a local one; `sym` is its entry in
the symbol table of `obj`. -/
structure RefersTo (obj : ElfObject) (rel : Reloc) (sym : ElfSym) (symbol : Symbol) : Prop where
  named : rel.sym ≠ 0
  entry : readSym obj rel.sym = some sym
  visible : sym.bind ≠ .localBind
  name : sym.name = some symbol.name
  version : symVersion obj sym = symbol.version

/-- A copy of the symbol is made for some object, or two objects of the scope define it. -/
def Interposed (ns : LinkNs) (symbol : Symbol) : Prop :=
  (∃ x slot rel sym, ns.objs x = some slot ∧ rel ∈ slot.obj.relocs ∧ rel.type = .copy ∧
      RefersTo slot.obj rel sym symbol ∧ ∃ l ∈ ns.globalSlots, l ≠ x ∧ Defines ns l symbol) ∨
    ∃ i ∈ ns.globalSlots, ∃ j ∈ ns.globalSlots, i < j ∧ Defines ns i symbol ∧ Defines ns j symbol

/-- Where the copy relocations against the symbol put their copies. -/
def CopiesAt (ns : LinkNs) (symbol : Symbol) (address : Addr) : Prop :=
  ∀ x < ns.count, ∀ slot rel sym, ns.objs x = some slot → rel ∈ slot.obj.relocs →
    rel.type = .copy → RefersTo slot.obj rel sym symbol → slot.obj.base + rel.offset = address

/-- Every pointer to the symbol is bound to the first definition, which is the copy where
one is made. -/
def OneStorage (ns : LinkNs) (bindings : List Binding) (symbol : Symbol) : Prop :=
  ∃ first, firstDefinition ns symbol = some first ∧ CopiesAt ns symbol first.2.address ∧
    ∀ binding ∈ bindings, binding.reloc.type.isPointer = true →
      ∀ slot sym, ns.objs binding.slot = some slot → RefersTo slot.obj binding.reloc sym symbol →
        binding.value.address = first.2.address

/-- No object but the first to define the symbol has a pointer to a definition of its own. -/
def OwnPointersFirst (ns : LinkNs) (symbol : Symbol) : Prop :=
  ∃ first, firstDefinition ns symbol = some first ∧ CopiesAt ns symbol first.2.address ∧
    ∀ x < ns.count, ∀ slot rel sym, ns.objs x = some slot → rel ∈ slot.obj.relocs →
      rel.type.isPointer = true → RefersTo slot.obj rel sym symbol → sym.shndx ≠ .undef →
        (fillSymval slot.obj sym).address = first.2.address

def InterpositionHolds (ns : LinkNs) (bindings : List Binding) : Prop :=
  ∀ symbol, Interposed ns symbol → OneStorage ns bindings symbol

/-- Same objects in the same scope; only what needs what may differ. -/
def SameTables (ns other : LinkNs) : Prop :=
  ∀ i, (other.objs i).map (fun slot => (slot.obj, slot.global, slot.path)) =
    (ns.objs i).map fun slot => (slot.obj, slot.global, slot.path)

variable {ns other : LinkNs} {symbol : Symbol} {req : SymReq}

theorem SameTables.obj (same : SameTables ns other) {i : Nat} {slot : LinkObj}
    (found : ns.objs i = some slot) :
    ∃ slot', other.objs i = some slot' ∧ slot'.obj = slot.obj := by
  have tables := same i
  rw [found] at tables
  cases there : other.objs i with
  | none =>
      rw [there] at tables
      contradiction
  | some slot' =>
      rw [there] at tables
      exact ⟨slot', rfl, (Prod.mk.inj (Option.some.inj tables)).1⟩

theorem SameTables.globalSlots (same : SameTables ns other) :
    other.globalSlots = ns.globalSlots := by
  have pointwise : ∀ i, (other.objs i).any LinkObj.global = (ns.objs i).any LinkObj.global := by
    intro i
    have tables := same i
    cases here : ns.objs i with
    | none =>
        cases there : other.objs i with
        | none => rfl
        | some slot' =>
            rw [here, there] at tables
            contradiction
    | some slot =>
        cases there : other.objs i with
        | none =>
            rw [here, there] at tables
            contradiction
        | some slot' =>
            rw [here, there] at tables
            exact (Prod.mk.inj (Prod.mk.inj (Option.some.inj tables)).2).1
  simp only [LinkNs.globalSlots, pointwise]

theorem SameTables.firstDefinition (same : SameTables ns other) :
    firstDefinition other symbol = firstDefinition ns symbol := by
  rw [Link.firstDefinition, Link.firstDefinition, same.globalSlots]
  congr 1
  funext i
  have tables := same i
  cases here : ns.objs i with
  | none =>
      cases there : other.objs i with
      | none => rfl
      | some slot' =>
          rw [here, there] at tables
          contradiction
  | some slot =>
      obtain ⟨slot', there, sameObj⟩ := same.obj here
      rw [there, Option.bind_some, Option.bind_some, sameObj]

theorem SameTables.trans {third : LinkNs} (first : SameTables ns other)
    (second : SameTables other third) : SameTables ns third :=
  fun i => (second i).trans (first i)

theorem addNeed_same (ns : LinkNs) (i j : Nat) : SameTables ns (ns.addNeed i j) := by
  intro k
  simp only [LinkNs.addNeed]
  split
  · rw [Option.map_map]
    rfl
  · rfl

theorem scopeResolve_same (deepbind : Option Nat) (req : SymReq) (ns : LinkNs) :
    SameTables ns (scopeResolve deepbind req ns).2 := by
  rw [scopeResolve]
  split
  · exact fun _ => rfl
  · split
    · exact fun _ => rfl
    · obtain ⟨asker, isAsker⟩ : ∃ asker, (if (ns.objs req.requester).isSome = true then
        some req.requester else none) = asker := ⟨_, rfl⟩
      simp only [isAsker]
      split
      · exact addNeed_same _ _ _
      · exact fun _ => rfl

theorem scopeResolve_first {first : Nat × SymVal} (plain : req.copy = false)
    (found : firstDefinition ns ⟨req.name, req.version⟩ = some first) :
    (scopeResolve none req ns).1 = some first.2 := by
  have pass : searchSlots ns req req.version ns.globalSlots = some first := by
    rw [← found, searchSlots, firstDefinition]
    simp [plain]
  have search (asker : Option Nat) : scopeSearch ns req asker = some first := by
    rw [scopeSearch]
    simp only [pass, Option.some_or, ite_self]
  rw [scopeResolve]
  simp [search]

def LinkNs.AllGlobal (ns : LinkNs) : Prop := ∀ i slot, ns.objs i = some slot → slot.global = true

/-- What the whole scope answers: a definition of the version asked for, or else any. -/
def scopeDefinition (ns : LinkNs) (symbol : Symbol) : Option SymVal :=
  ((firstDefinition ns symbol).or
    (if symbol.version.isSome then firstDefinition ns ⟨symbol.name, none⟩ else none)).map Prod.snd

theorem SameTables.scopeDefinition (same : SameTables ns other) :
    scopeDefinition other symbol = scopeDefinition ns symbol := by
  rw [Link.scopeDefinition, Link.scopeDefinition, same.firstDefinition, same.firstDefinition]

theorem SameTables.allGlobal (same : SameTables ns other) (all : ns.AllGlobal) :
    other.AllGlobal := by
  intro i slot found
  have tables := same i
  rw [found] at tables
  cases here : ns.objs i with
  | none =>
      rw [here] at tables
      contradiction
  | some original =>
      rw [here] at tables
      rw [(Prod.mk.inj (Prod.mk.inj (Option.some.inj tables)).2).1]
      exact all i original here

theorem searchSlots_closure (all : ns.AllGlobal) (version : Option CString) (asker : Option Nat) :
    searchSlots ns req version (ns.closureSlots asker) = none := by
  rw [searchSlots, List.findSome?_eq_none_iff]
  intro j member
  cases asker with
  | none => simp [LinkNs.closureSlots] at member
  | some i =>
      simp only [LinkNs.closureSlots, List.mem_filter, decide_eq_true_eq] at member
      obtain ⟨inside, _, outside⟩ := member
      cases here : ns.objs j with
      | none => simp
      | some slot =>
          have global : j ∈ ns.globalSlots :=
            List.mem_filter.mpr ⟨inside, by simp [here, all j slot here]⟩
          exact absurd global outside

theorem scopeResolve_whole (all : ns.AllGlobal) (plain : req.copy = false) :
    (scopeResolve none req ns).1 = scopeDefinition ns ⟨req.name, req.version⟩ := by
  have pass (version : Option CString) :
      searchSlots ns req version ns.globalSlots = firstDefinition ns ⟨req.name, version⟩ := by
    rw [searchSlots, firstDefinition]
    simp [plain]
  have search (asker : Option Nat) : (scopeSearch ns req asker).map Prod.snd =
      scopeDefinition ns ⟨req.name, req.version⟩ := by
    rw [scopeSearch, scopeDefinition]
    simp only [pass, searchSlots_closure all, Option.or_none]
    split <;> simp
  rw [scopeResolve]
  rw [← search (if (ns.objs req.requester).isSome = true then some req.requester else none)]
  cases scopeSearch ns req (if (ns.objs req.requester).isSome = true then some req.requester
    else none) with
  | none => rfl
  | some found => rfl

/-- A binding of a plain reference: its own definition if there is one, else the first in
the scope. -/
structure BoundAsListed (ns : LinkNs) (binding : Binding) : Prop where
  slot : binding.slot < ns.count
  listed : ∀ slot, ns.objs binding.slot = some slot → Listed slot.obj binding.reloc
  own : ∀ slot sym symbol, ns.objs binding.slot = some slot →
    RefersTo slot.obj binding.reloc sym symbol → binding.reloc.type ≠ .copy →
    sym.shndx ≠ .undef → binding.value = fillSymval slot.obj sym
  scope : ∀ slot sym symbol first, ns.objs binding.slot = some slot →
    RefersTo slot.obj binding.reloc sym symbol → binding.reloc.type ≠ .copy →
    sym.shndx = .undef → firstDefinition ns symbol = some first → binding.value = first.2
  whole : ns.AllGlobal → ∀ slot sym symbol value, ns.objs binding.slot = some slot →
    RefersTo slot.obj binding.reloc sym symbol → binding.reloc.type ≠ .copy →
    sym.shndx = .undef → scopeDefinition ns symbol = some value → binding.value = value

structure GoodRecord (ns : LinkNs) (state : RelocState LinkNs) : Prop where
  tables : SameTables ns state.scope
  bindings : ∀ binding ∈ state.bindings, BoundAsListed ns binding

theorem resolveForReloc_plain {i : Nat} {obj : ElfObject} {rel : Reloc} {sym : ElfSym}
    {value : SymVal} {isWeak isIfunc : Bool} {scope after : LinkNs}
    (refers : RefersTo obj rel sym symbol) (plain : rel.type ≠ .copy)
    (resolved : resolveForReloc (scopeResolve none) i obj rel.sym rel.type scope =
      (some (value, isWeak, isIfunc), after)) :
    (sym.shndx ≠ .undef → value = fillSymval obj sym) ∧
      (sym.shndx = .undef → ∀ answer,
        (scopeResolve none ⟨symbol.name, symbol.version, i, false⟩ scope).1 = some answer →
        value = answer) := by
  obtain ⟨named, entry, _, name, version⟩ := refers
  rw [resolveForReloc, if_neg named, entry] at resolved
  simp only at resolved
  constructor
  · intro defined
    rw [if_pos ⟨defined, plain⟩] at resolved
    exact (Prod.mk.inj (Option.some.inj (Prod.mk.inj resolved).1)).1.symm
  · intro undefined value answered
    rw [if_neg (fun both => both.1 undefined), name] at resolved
    have request : (rel.type == RelocType.copy) = false := by simpa using plain
    have asked : (if obj.dyn.hasVersym = true then versionNameForIndex obj sym.versym else none) =
        symbol.version := version
    simp only [asked, request] at resolved
    cases result : scopeResolve none ⟨symbol.name, symbol.version, i, false⟩ scope with
    | mk found after =>
        rw [result] at resolved answered
        obtain rfl : found = some value := answered
        exact (Prod.mk.inj (Option.some.inj (Prod.mk.inj resolved).1)).1.symm

theorem resolveForReloc_same {i : Nat} {obj : ElfObject} {symIndex : Nat} {type : RelocType}
    {scope : LinkNs} :
    SameTables scope (resolveForReloc (scopeResolve none) i obj symIndex type scope).2 := by
  rw [resolveForReloc]
  split
  · exact fun _ => rfl
  split
  · exact fun _ => rfl
  simp only
  split
  · exact fun _ => rfl
  split
  · exact fun _ => rfl
  rename_i sym _ _ _ name _
  obtain ⟨request, isRequest⟩ : ∃ request : SymReq, request = ⟨name,
    if obj.dyn.hasVersym = true then versionNameForIndex obj sym.versym else none, i,
    type == .copy⟩ := ⟨_, rfl⟩
  rw [← isRequest]
  have same := scopeResolve_same none request scope
  cases result : scopeResolve none request scope with
  | mk found after =>
      rw [result] at same
      cases found with
      | some value => exact same
      | none =>
          simp only
          split <;> exact same

theorem goodRecord_invariant {i : Nat} {slot : LinkObj} (inside : i < ns.count)
    (found : ns.objs i = some slot) :
    RecordInvariant (scopeResolve none) i slot.obj (GoodRecord ns) where
  same := by
    intro state after same good
    exact ⟨by rw [same.scope]; exact good.tables, by rw [same.bindings]; exact good.bindings⟩
  bind := by
    intro state after rel value isWeak isIfunc scope listed names resolved newScope newBindings good
    have kept := @resolveForReloc_same i slot.obj rel.sym rel.type state.scope
    rw [resolved] at kept
    refine ⟨by rw [newScope]; exact good.tables.trans kept, fun binding member => ?_⟩
    rw [newBindings] at member
    rcases List.mem_append.mp member with earlier | latest
    · exact good.bindings binding earlier
    · obtain rfl := List.mem_singleton.mp latest
      have here : ∀ other, ns.objs i = some other → other = slot := fun other same =>
        Option.some.inj (same.symm.trans found)
      refine ⟨inside, ?_, ?_, ?_, ?_⟩
      · intro other same
        rw [here other same]
        exact listed
      · intro other sym symbol same refers plain defined
        rw [here other same] at refers ⊢
        exact (resolveForReloc_plain refers plain resolved).1 defined
      · intro other sym symbol first same refers plain undefined definition
        rw [here other same] at refers
        apply (resolveForReloc_plain refers plain resolved).2 undefined
        apply scopeResolve_first rfl
        rw [good.tables.firstDefinition]
        exact definition
      · intro all other sym symbol value same refers plain undefined definition
        rw [here other same] at refers
        apply (resolveForReloc_plain refers plain resolved).2 undefined
        rw [scopeResolve_whole (good.tables.allGlobal all) rfl, good.tables.scopeDefinition]
        exact definition

theorem relocateSlots_record {order : List Nat} {state after : RelocState LinkNs}
    (inside : ∀ i ∈ order, i < ns.count) (good : GoodRecord ns state)
    (relocated : relocateSlots none order state = .ok after) :
    GoodRecord ns after ∧
      (∀ i rel, Recorded i rel state → Recorded i rel after) ∧
      ∀ i ∈ order, ∀ slot rel, ns.objs i = some slot → rel ∈ slot.obj.relocs →
        rel.type.NamesSymbol → Recorded i rel after := by
  induction order generalizing state with
  | nil =>
      obtain rfl := Except.ok.inj relocated
      exact ⟨good, fun _ _ recorded => recorded, fun _ member => by contradiction⟩
  | cons i rest ih =>
      have restInside : ∀ j ∈ rest, j < ns.count := fun j member => inside j (by simp [member])
      rw [relocateSlots] at relocated
      cases there : state.scope.objs i with
      | none =>
          simp only [there] at relocated
          obtain ⟨finalGood, kept, recorded⟩ := ih restInside good relocated
          refine ⟨finalGood, kept, fun j member slot rel found entry names => ?_⟩
          rcases List.mem_cons.mp member with rfl | later
          · obtain ⟨slot', present, _⟩ := good.tables.obj found
            rw [there] at present
            contradiction
          · exact recorded j later slot rel found entry names
      | some current =>
          simp only [there] at relocated
          cases one : cosElfRelocate (scopeResolve none) i current.obj state with
          | error failed =>
              rw [one] at relocated
              contradiction
          | ok middle =>
              rw [one] at relocated
              have back : ∃ slot, ns.objs i = some slot ∧ slot.obj = current.obj := by
                have tables := good.tables i
                rw [there] at tables
                cases here : ns.objs i with
                | none =>
                    rw [here] at tables
                    contradiction
                | some slot =>
                    rw [here] at tables
                    exact ⟨slot, rfl, (Prod.mk.inj (Option.some.inj tables)).1.symm⟩
              obtain ⟨slot, here, sameObj⟩ := back
              rw [← sameObj] at one
              have middleGood := (goodRecord_invariant (inside i (by simp)) here).cosElfRelocate one good
              obtain ⟨finalGood, kept, recorded⟩ := ih restInside middleGood relocated
              refine ⟨finalGood, fun j rel earlier => kept j rel ?_, ?_⟩
              · exact (recorded_invariant j).cosElfRelocate one earlier
              · intro j member slot' rel found entry names
                rcases List.mem_cons.mp member with rfl | later
                · obtain rfl := Option.some.inj (found.symm.trans here)
                  exact kept j rel (cosElfRelocate_recorded one entry names)
                · exact recorded j later slot' rel found entry names

theorem RefersTo.congr {obj : ElfObject} {rel entry : Reloc} {sym : ElfSym}
    (refers : RefersTo obj rel sym symbol) (same : entry.sym = rel.sym) :
    RefersTo obj entry sym symbol :=
  ⟨same ▸ refers.named, same ▸ refers.entry, refers.visible, refers.name, refers.version⟩

theorem namesSymbol_of_isPointer {type : RelocType} (pointer : type.isPointer = true) :
    type.NamesSymbol ∧ type ≠ .copy := by
  cases type <;> simp_all [RelocType.isPointer, RelocType.NamesSymbol]

/-- After a relocation that succeeds, interposition holds exactly when every object's
pointers to definitions of its own lead to the first definition anyway. -/
theorem interpositionHolds_iff {mem : UserMem} {after : RelocState LinkNs}
    (relocated : relocateAll ⟨mem, ns, [], 0, []⟩ = .ok after) :
    InterpositionHolds ns after.bindings ↔
      ∀ symbol, Interposed ns symbol → OwnPointersFirst ns symbol := by
  have inside : ∀ i ∈ (List.range ns.count).reverse, i < ns.count := fun i member =>
    List.mem_range.mp (List.mem_reverse.mp member)
  have start : GoodRecord ns (⟨mem, ns, [], 0, []⟩ : RelocState LinkNs) :=
    ⟨fun _ => rfl, fun _ member => by contradiction⟩
  obtain ⟨good, _, recorded⟩ := relocateSlots_record inside start relocated
  constructor
  · intro holds symbol interposed
    obtain ⟨first, definition, copies, pointers⟩ := holds symbol interposed
    refine ⟨first, definition, copies, fun x below slot rel sym found entry pointer refers defined => ?_⟩
    obtain ⟨names, plain⟩ := namesSymbol_of_isPointer pointer
    obtain ⟨binding, member, rfl, sameSym, sameType⟩ :=
      recorded x (List.mem_reverse.mpr (List.mem_range.mpr below)) slot rel found entry names
    have refersThere := refers.congr sameSym
    have own := (good.bindings binding member).own slot sym symbol found refersThere
      (sameType ▸ plain) defined
    rw [← own]
    exact pointers binding member (sameType ▸ pointer) slot sym found refersThere
  · intro condition symbol interposed
    obtain ⟨first, definition, copies, ownFirst⟩ := condition symbol interposed
    refine ⟨first, definition, copies, fun binding member pointer slot sym found refers => ?_⟩
    obtain ⟨_, plain⟩ := namesSymbol_of_isPointer pointer
    obtain ⟨below, listed, own, scope⟩ := good.bindings binding member
    by_cases undefined : sym.shndx = .undef
    · rw [scope slot sym symbol first found refers plain undefined definition]
    · rw [own slot sym symbol found refers plain undefined]
      obtain ⟨entry, inTable, sameSym, sameType⟩ := listed slot found
      exact ownFirst binding.slot below slot entry sym found inTable (sameType ▸ pointer)
        (refers.congr sameSym) undefined

theorem Interposed.defined (interposed : Interposed ns symbol) :
    ∃ first, firstDefinition ns symbol = some first := by
  have found : ∃ i ∈ ns.globalSlots, Defines ns i symbol := by
    rcases interposed with ⟨_, _, _, _, _, _, _, _, l, global, _, defines⟩ | ⟨i, global, _, _, _, defines, _⟩
    · exact ⟨l, global, defines⟩
    · exact ⟨i, global, defines⟩
  obtain ⟨i, global, slot, value, here, lookup⟩ := found
  apply Option.isSome_iff_exists.mp
  rw [firstDefinition, List.findSome?_isSome_iff]
  exact ⟨i, global, by simp [here, lookup]⟩

/-- An object with the given symbols (after the null entry) and relocations. -/
def plainObject (base : Addr) (symbols : List ElfSym) (rela : List Reloc) : ElfObject where
  base := base
  mapStart := base.toNat
  mapEnd := base.toNat + 0x10000
  segs := []
  dynamic := true
  hasTls := false
  nodelete := false
  tlsMemsz := 0
  tlsAlign := 0
  tlsModid := 0
  tlsOffset := 0
  dyn := {
    symbols := ⟨some [], .localBind, .notype, .undef, 0, 0, 0⟩ :: symbols
    hasVersym := false
    verdef := []
    verneed := []
    gnuHash := none
    hash := none
    rela := rela
    rel := []
    relr := []
    jmprel := []
    pltRel := false
    runpath := []
    rpath := [] }

def plainSlot (obj : ElfObject) (isMain : Bool) : LinkObj where
  obj := obj
  path := []
  soname := []
  isMain := isMain
  global := true
  nodelete := false
  refcount := 0
  serial := 0
  needsMask := ∅
  vlo := 0
  vhi := 0

def plainNs (objs : List LinkObj) : LinkNs where
  objs := fun i => objs[i]?
  count := objs.length
  nextBase := 0x20000000000
  nextSerial := 0
  newMask := ∅
  userPath := []
  tlsTp := 0
  tlsPages := 0
  linkmapPages := 0

/-- A variable `v` of eight bytes, defined at `value` or not at all. -/
def variableEntry (shndx : Shndx) (value : Addr) : ElfSym :=
  ⟨some [118], .global, .object, shndx, value, 8, 0⟩

/-- A program and a library that both define `v`, and a second library that uses it. -/
def usedElsewhere : LinkNs := plainNs [
  plainSlot (plainObject 0x8000000000 [variableEntry (.sec 20) 0x4000] []) true,
  plainSlot (plainObject 0x20000000000 [variableEntry (.sec 20) 0x3000] []) false,
  plainSlot (plainObject 0x20000200000 [variableEntry .undef 0] [⟨0x3ff0, .globDat, 1, 0⟩]) false]

def zeroMemory : UserMem := fun _ => some 0

theorem interpositionHolds_usedElsewhere :
    ∃ after, relocateAll ⟨zeroMemory, usedElsewhere, [], 0, []⟩ = .ok after ∧
      after.bindings.map (fun binding => binding.value.address) = [0x8000004000] ∧
      InterpositionHolds usedElsewhere after.bindings := by
  have run : (relocateAll ⟨zeroMemory, usedElsewhere, [], 0, []⟩).toOption.map
      (fun after => after.bindings.map fun binding => binding.value.address) =
        some [0x8000004000] := by decide
  cases relocated : relocateAll ⟨zeroMemory, usedElsewhere, [], 0, []⟩ with
  | error failed =>
      contradiction
  | ok after =>
      rw [relocated] at run
      refine ⟨after, rfl, Option.some.inj run, (interpositionHolds_iff relocated).mpr ?_⟩
      intro symbol interposed
      obtain ⟨first, definition⟩ := interposed.defined
      have entries : ∀ x slot rel, usedElsewhere.objs x = some slot → rel ∈ slot.obj.relocs →
          rel = ⟨0x3ff0, .globDat, 1, 0⟩ ∧
            slot.obj = plainObject 0x20000200000 [variableEntry .undef 0]
              [⟨0x3ff0, .globDat, 1, 0⟩] := by
        intro x slot rel found entry
        match x with
        | 0 =>
            obtain rfl := Option.some.inj found
            contradiction
        | 1 =>
            obtain rfl := Option.some.inj found
            contradiction
        | 2 =>
            obtain rfl := Option.some.inj found
            exact ⟨List.mem_singleton.mp entry, rfl⟩
        | x + 3 => contradiction
      refine ⟨first, definition, ?_, ?_⟩
      · intro x _ slot rel sym found entry isCopy
        rw [(entries x slot rel found entry).1] at isCopy
        contradiction
      · intro x _ slot rel sym found entry _ refers defined
        obtain ⟨isRel, isObj⟩ := entries x slot rel found entry
        have entrySym := refers.entry
        rw [isRel, isObj] at entrySym
        obtain rfl := Option.some.inj entrySym
        exact absurd rfl defined

/-- The program holds a copy of the library's `v`; the library refers to `v` through its own
table of pointers. -/
def copiedVariable : LinkNs := plainNs [
  plainSlot (plainObject 0x8000000000 [variableEntry (.sec 20) 0x4000] [⟨0x4000, .copy, 1, 0⟩])
  true, plainSlot (plainObject 0x20000000000 [variableEntry (.sec 20) 0x3000]
    [⟨0x3ff0, .globDat, 1, 0⟩]) false]

/-- The library goes on using its own `v`: two storages for one variable. -/
theorem interpositionHolds_fails :
    ∃ after, relocateAll ⟨zeroMemory, copiedVariable, [], 0, []⟩ = .ok after ∧
      ¬ InterpositionHolds copiedVariable after.bindings := by
  have run : (relocateAll ⟨zeroMemory, copiedVariable, [], 0, []⟩).toOption.map
      (fun after => after.bindings.head?) = some (some ⟨1, ⟨0x3ff0, .globDat, 1, 0⟩,
        ⟨0x20000003000, 8, false, 0, 0, 0⟩⟩) := by decide
  have symbolDefined (i : Nat) (slot : LinkObj) (found : copiedVariable.objs i = some slot)
      (lookup : (cosElfLookup slot.obj [118] none).isSome) : Defines copiedVariable i ⟨[118], none⟩ := by
    obtain ⟨value, answer⟩ := Option.isSome_iff_exists.mp lookup
    exact ⟨slot, value, found, answer⟩
  have interposed : Interposed copiedVariable ⟨[118], none⟩ := by
    refine Or.inr ⟨0, by decide, 1, by decide, by decide, ?_, ?_⟩
    · exact symbolDefined 0 _ rfl (by decide)
    · exact symbolDefined 1 _ rfl (by decide)
  have first : (firstDefinition copiedVariable ⟨[118], none⟩).map (fun pair => pair.2.address) =
      some 0x8000004000 := by decide
  cases relocated : relocateAll ⟨zeroMemory, copiedVariable, [], 0, []⟩ with
  | error failed =>
      contradiction
  | ok after =>
      rw [relocated] at run
      have member := List.mem_of_head? (Option.some.inj run)
      refine ⟨after, rfl, fun holds => ?_⟩
      obtain ⟨definition, isFirst, _, pointers⟩ := holds _ interposed
      rw [isFirst] at first
      have bound := pointers _ member rfl _ _ rfl ⟨by decide, rfl, by decide, rfl, rfl⟩
      have copyAddress : definition.2.address = 0x8000004000 := Option.some.inj first
      rw [copyAddress] at bound
      exact absurd bound (by decide)

end Cos.Link
