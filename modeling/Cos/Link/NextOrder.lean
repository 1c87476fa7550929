import Cos.Link.ClosePlan

/-! # `RTLD_NEXT` and the scope

The scope is searched in slot order.  `COS_DLCTL_NEXT` searches what follows the caller in the order
of the load serials, and passes over definitions that have no plain address.  The orders differ once
a slot has been used again.
-/

namespace Cos.Link

open Cos.Elf Cos.Lib

def LinkNs.Global (ns : LinkNs) (i : Nat) : Prop := (ns.objs i).any LinkObj.global = true

instance (ns : LinkNs) (i : Nat) : Decidable (ns.Global i) := inferInstanceAs (Decidable (_ = true))

/-- The global objects in the order of `COS_DLCTL_NEXT`. -/
def LinkNs.nextSlots (ns : LinkNs) : List Nat :=
  slotsBySerialUp ns ((Finset.range maxObjects).filter fun i => (ns.objs i).any LinkObj.global)

/-- The global objects in the order of `cos_link_dlsym` with `COS_RTLD_DEFAULT`. -/
def LinkNs.defaultSlots (ns : LinkNs) : List Nat :=
  (List.range ns.count).filter fun i => (ns.objs i).any LinkObj.global

/-- The definition that the object in slot `i` has of a name. -/
def LinkNs.definition (ns : LinkNs) (name : CString) (i : Nat) : Option (Nat × SymVal) :=
  (ns.objs i).bind fun slot => (cosElfLookup slot.obj name none).map (i, ·)

def Plain (found : Nat × SymVal) : Bool := !found.2.isTls && found.2.address != 0

def callerSlot (ns : LinkNs) (address : Nat) : Option Nat :=
  slots.find? fun i => (ns.objs i).any fun slot => slot.obj.mapStart ≤ address ∧
    address < slot.obj.mapEnd

/-- The loop of `COS_DLCTL_NEXT`; `past` says whether the caller has been passed. -/
def nextSearch (ns : LinkNs) (name : CString) (caller : Nat) :
    Bool → List Nat → Option (Nat × SymVal)
  | _, [] => none
  | past, i :: rest =>
      if i = caller then nextSearch ns name caller true rest
      else if past then
        match (ns.definition name i).filter Plain with
        | none => nextSearch ns name caller true rest
        | some found => some found
      else nextSearch ns name caller false rest

/-- `COS_DLCTL_NEXT`: the object and the definition whose address is returned, if there is one. -/
def cosLinkDlctlNext (ns : LinkNs) (address : Nat) (name : CString) : Option (Nat × SymVal) :=
  (callerSlot ns address).bind fun caller => nextSearch ns name caller false ns.nextSlots

/-- The global objects that are searched after the one in the given slot. -/
def LinkNs.slotsAfter (ns : LinkNs) (caller : Nat) : List Nat := ns.globalSlots.filter (caller < ·)

/-- What `scope_resolve` would choose for the caller if it skipped the global objects up to it. -/
def scopeAfter (ns : LinkNs) (name : CString) (caller : Nat) : Option (Nat × SymVal) :=
  let req : SymReq := ⟨name, none, caller, false⟩
  (searchSlots ns req none (ns.slotsAfter caller)).or
    (searchSlots ns req none (ns.closureSlots (some caller)))

/-- The three orders are one, and so are the definitions chosen after a caller. -/
structure NextAgrees (ns : LinkNs) : Prop where
  scopeOrder : ns.nextSlots = ns.globalSlots
  defaultOrder : ns.nextSlots = ns.defaultSlots
  chosen : ∀ address name found, cosLinkDlctlNext ns address name = some found →
    ∃ caller, callerSlot ns address = some caller ∧ scopeAfter ns name caller = some found

def LinkNs.SerialsRise (ns : LinkNs) : Prop :=
  ∀ i j, ns.Global i → ns.Global j → i < j → ns.serialAt i < ns.serialAt j

/-- The first definition after a global caller is a plain one, if there is a plain one at all. -/
def LinkNs.PlainFirst (ns : LinkNs) : Prop :=
  ∀ address caller name j k value other, callerSlot ns address = some caller → ns.Global caller →
    caller < j → j < k → ns.Global j → ns.Global k →
    ns.definition name j = some value → Plain value = false →
    ns.definition name k = some other → Plain other = true →
    ∃ i first, caller < i ∧ i < j ∧ ns.Global i ∧ ns.definition name i = some first ∧
    Plain first = true

structure CountSound (ns : LinkNs) : Prop where
  inCount : ∀ i, (ns.objs i).isSome → i < ns.count
  bounded : ns.count ≤ maxObjects

theorem trimCount_le (objs : Nat → Option LinkObj) (count : Nat) :
    trimCount objs count ≤ count := by
  induction count with
  | zero => exact le_rfl
  | succ count ih =>
      rw [trimCount]
      split
      · exact ih.trans (Nat.le_succ count)
      · exact le_rfl

theorem lt_trimCount {objs : Nat → Option LinkObj} {count i : Nat} (used : (objs i).isSome)
    (inside : i < count) : i < trimCount objs count := by
  induction count with
  | zero => exact absurd inside (Nat.not_lt_zero i)
  | succ count ih =>
      rw [trimCount]
      split
      · rename_i free
        have other : i ≠ count := by
          rintro rfl
          rw [Option.isNone_iff_eq_none] at free
          simp [free] at used
        exact ih (by omega)
      · exact inside

theorem countSound_invariant : LinkInvariant CountSound where
  fresh := ⟨fun i used => by simp [LinkNs.fresh] at used, Nat.zero_le _⟩
  same := by
    intro ns other same _ _ count sound
    refine ⟨fun i used => ?_, count.le.trans sound.bounded⟩
    rw [count]
    exact sound.inCount i (by rwa [same.isSome] at used)
  need := by
    intro ns i j _ sound
    exact ⟨fun k used => sound.inCount k (by rwa [addNeed_isSome] at used), sound.bounded⟩
  room := by
    intro ns span sound
    have count : (allocBase ns span).2.count = ns.count := by
      rw [allocBase]
      split <;> rfl
    refine ⟨fun i used => ?_, count.le.trans sound.bounded⟩
    rw [count]
    exact sound.inCount i (by rwa [allocBase_keepsObjs] at used)
  library := by
    intro ns i slot free _ _ _ _ sound
    have inside := List.mem_range.mp (List.mem_of_find?_eq_some free)
    refine ⟨fun k used => ?_, max_le sound.bounded inside⟩
    have here : ((ns.setSlot i (some slot)).objs k).isSome := used
    rw [LinkNs.setSlot_objs] at here
    split at here
    · rename_i isHere
      rw [isHere]
      exact lt_max_of_lt_right (Nat.lt_succ_self i)
    · exact lt_max_of_lt_left (sound.inCount k here)
  main := by
    intro program obj ns sound
    refine ⟨fun k used => ?_, max_le sound.bounded (by decide)⟩
    have here : ((ns.setSlot 0 (some (mainSlot ns program obj))).objs k).isSome := used
    rw [LinkNs.setSlot_objs] at here
    split at here
    · rename_i isHere
      rw [isHere]
      exact lt_max_of_lt_right Nat.one_pos
    · exact lt_max_of_lt_left (sound.inCount k here)
  unload := by
    intro state j sound
    rw [unloadSlot]
    cases state.ns.objs j with
    | none => exact sound
    | some slot =>
        refine ⟨fun k used => ?_, (trimCount_le _ _).trans sound.bounded⟩
        refine lt_trimCount used (sound.inCount k ?_)
        simp only [LinkNs.dropSlot] at used
        split at used
        · contradiction
        · rwa [Option.isSome_map] at used

section Orders

variable {ns : LinkNs} {i j : Nat}

theorem Global.isSome (isGlobal : ns.Global i) : (ns.objs i).isSome := by
  rw [LinkNs.Global] at isGlobal
  cases here : ns.objs i with
  | none => simp [here] at isGlobal
  | some slot => rfl

theorem mem_globalSlots_iff (sound : SlotsSound ns) : i ∈ ns.globalSlots ↔ ns.Global i := by
  rw [LinkNs.globalSlots, List.mem_filter, slots, List.mem_range]
  exact ⟨fun member => member.2,
    fun isGlobal => ⟨sound.inTable i (Global.isSome isGlobal), isGlobal⟩⟩

theorem globalSlots_sorted (ns : LinkNs) : ns.globalSlots.Pairwise (· < ·) :=
  List.pairwise_lt_range.filter _

theorem mem_nextSlots_iff (sound : SlotsSound ns) : i ∈ ns.nextSlots ↔ ns.Global i := by
  rw [LinkNs.nextSlots, mem_slotsBySerialUp, Finset.mem_filter, Finset.mem_range]
  constructor
  · exact fun ⟨_, _, isGlobal⟩ => isGlobal
  · intro isGlobal
    have inside := sound.inTable i (Global.isSome isGlobal)
    exact ⟨inside, inside, isGlobal⟩

theorem nextSlots_strict (serials : SerialsSound ns) :
    ns.nextSlots.Pairwise fun a b => ns.serialAt a < ns.serialAt b :=
  slotsBySerialUp_strict serials fun _ member => Global.isSome (Finset.mem_filter.mp member).2

theorem defaultSlots_eq (sound : CountSound ns) : ns.defaultSlots = ns.globalSlots := by
  obtain ⟨more, isTable⟩ := Nat.exists_eq_add_of_le sound.bounded
  have rest : ((List.range more).map (ns.count + ·)).filter
    (fun i => (ns.objs i).any LinkObj.global) = [] := by
    refine List.filter_eq_nil_iff.mpr fun i member isGlobal => ?_
    obtain ⟨offset, _, rfl⟩ := List.mem_map.mp member
    have inside := sound.inCount _ (Global.isSome isGlobal)
    omega
  rw [LinkNs.globalSlots, slots, isTable, List.range_add, List.filter_append, rest, List.append_nil]
  rfl

theorem nextSlots_eq_iff (sound : SlotsSound ns) (serials : SerialsSound ns) :
    ns.nextSlots = ns.globalSlots ↔ ns.SerialsRise := by
  constructor
  · intro equal i j first second below
    have strict := nextSlots_strict serials
    rw [equal] at strict
    have both := (globalSlots_sorted ns).and strict
    let apart (a b : Nat) : Prop := (a < b ∧ ns.serialAt a < ns.serialAt b) ∨
      (b < a ∧ ns.serialAt b < ns.serialAt a)
    have symm : Std.Symm apart := ⟨fun _ _ => Or.symm⟩
    have all : ns.globalSlots.Pairwise apart := both.imp fun ordered => .inl ordered
    have related := all.forall ((mem_globalSlots_iff sound).mpr first)
      ((mem_globalSlots_iff sound).mpr second) below.ne
    rcases related with ⟨_, rises⟩ | ⟨above, _⟩
    · exact rises
    · exact absurd above below.asymm
  · intro rises
    have bySerial : ns.globalSlots.Pairwise fun a b => ns.serialAt a < ns.serialAt b :=
      (globalSlots_sorted ns).imp_of_mem fun {a b} first second below =>
        rises a b ((mem_globalSlots_iff sound).mp first) ((mem_globalSlots_iff sound).mp second) below
    have same : ns.nextSlots.Perm ns.globalSlots := by
      refine (List.perm_ext_iff_of_nodup (slotsBySerialUp_nodup ns _) ((globalSlots_sorted ns).imp Nat.ne_of_lt)).mpr
        fun i => ?_
      exact (mem_nextSlots_iff sound).trans (mem_globalSlots_iff sound).symm
    refine same.eq_of_pairwise (fun a b _ _ first second => ?_) (nextSlots_strict serials) bySerial
    exact absurd first second.asymm

end Orders

section Search

variable {ns : LinkNs} {name : CString} {caller : Nat} {order : List Nat}

theorem nextSearch_past (absent : caller ∉ order) :
    nextSearch ns name caller true order = order.findSome? fun i =>
    (ns.definition name i).filter Plain := by
  induction order with
  | nil => rfl
  | cons i rest ih =>
      have other := List.ne_of_not_mem_cons absent
      have absentRest := List.not_mem_of_not_mem_cons absent
      rw [nextSearch, if_neg (Ne.symm other), if_pos rfl, List.findSome?_cons, ih absentRest]
      cases (ns.definition name i).filter Plain <;> rfl

theorem nextSearch_absent (absent : caller ∉ order) :
    nextSearch ns name caller false order = none := by
  induction order with
  | nil => rfl
  | cons i rest ih =>
      have other := List.ne_of_not_mem_cons absent
      have absentRest := List.not_mem_of_not_mem_cons absent
      rw [nextSearch, if_neg (Ne.symm other), if_neg Bool.false_ne_true]
      exact ih absentRest

theorem nextSearch_sorted (sorted : order.Pairwise (· < ·)) (present : caller ∈ order) :
    nextSearch ns name caller false order =
      (order.filter (caller < ·)).findSome? fun i => (ns.definition name i).filter Plain := by
  induction order with
  | nil => simp at present
  | cons i rest ih =>
      obtain ⟨above, sortedRest⟩ := List.pairwise_cons.mp sorted
      rw [nextSearch]
      by_cases here : i = caller
      · subst here
        have absent : i ∉ rest := fun member => Nat.lt_irrefl i (above i member)
        have kept : rest.filter (i < ·) = rest :=
          List.filter_eq_self.mpr fun j member => decide_eq_true (above j member)
        rw [if_pos rfl, nextSearch_past absent, List.filter_cons_of_neg (by simp), kept]
      · have later := (List.mem_cons.mp present).resolve_left (Ne.symm here)
        have below := above caller later
        rw [if_neg here, if_neg Bool.false_ne_true, ih sortedRest later,
          List.filter_cons_of_neg (by simpa using below.le)]

theorem searchSlots_plain (ns : LinkNs) (name : CString) (caller : Nat) (order : List Nat) :
    searchSlots ns ⟨name, none, caller, false⟩ none order =
    order.findSome? (ns.definition name) := by
  congr 1

end Search

section NextAgrees

variable {ns : LinkNs}

theorem mem_slotsAfter_iff (sound : SlotsSound ns) {caller i : Nat} :
    i ∈ ns.slotsAfter caller ↔ ns.Global i ∧ caller < i := by
  rw [LinkNs.slotsAfter, List.mem_filter, mem_globalSlots_iff sound, decide_eq_true_eq]

theorem slotsAfter_sorted (ns : LinkNs) (caller : Nat) : (ns.slotsAfter caller).Pairwise (· < ·) :=
  (globalSlots_sorted ns).filter _

theorem cosLinkDlctlNext_eq (sound : SlotsSound ns) (same : ns.nextSlots = ns.globalSlots)
    {address caller : Nat} (name : CString) (here : callerSlot ns address = some caller) :
    cosLinkDlctlNext ns address name =
      if ns.Global caller then (ns.slotsAfter caller).findSome? fun i =>
      (ns.definition name i).filter Plain else none := by
  rw [cosLinkDlctlNext, here, Option.bind_some, same]
  split
  · rename_i isGlobal
    exact nextSearch_sorted (globalSlots_sorted ns) ((mem_globalSlots_iff sound).mpr isGlobal)
  · rename_i isLocal
    exact nextSearch_absent fun member => isLocal ((mem_globalSlots_iff sound).mp member)

theorem PlainFirst.chosen (sound : SlotsSound ns) (same : ns.nextSlots = ns.globalSlots)
    (plainFirst : ns.PlainFirst) {address : Nat} {name : CString} {found : Nat × SymVal}
    (ran : cosLinkDlctlNext ns address name = some found) :
    ∃ caller, callerSlot ns address = some caller ∧ scopeAfter ns name caller = some found := by
  obtain ⟨caller, here, _⟩ := Option.bind_eq_some_iff.mp ran
  rw [cosLinkDlctlNext_eq sound same name here] at ran
  split at ran
  · rename_i isGlobal
    obtain ⟨before, k, rest, split, chosen, skipped⟩ := List.findSome?_eq_some_iff.mp ran
    obtain ⟨defined, isPlain⟩ := Option.filter_eq_some_iff.mp chosen
    have sorted := slotsAfter_sorted ns caller
    have later : k ∈ ns.slotsAfter caller := by rw [split]; simp
    obtain ⟨globalK, afterCaller⟩ := (mem_slotsAfter_iff sound).mp later
    refine ⟨caller, here, ?_⟩
    rw [scopeAfter, searchSlots_plain]
    refine Option.or_eq_some_iff.mpr (.inl (List.findSome?_eq_some_iff.mpr ⟨before, k, rest, split, defined, ?_⟩))
    intro j member
    by_contra some_
    obtain ⟨value, definedToo⟩ := Option.ne_none_iff_exists'.mp some_
    have listed : j ∈ ns.slotsAfter caller := by rw [split]; simp [member]
    obtain ⟨globalJ, between⟩ := (mem_slotsAfter_iff sound).mp listed
    rw [split] at sorted
    have ordered := (List.pairwise_append.mp sorted).2.2
    have below : j < k := ordered j member k (by simp)
    have unplain : Plain value = false := by
      have passed := skipped j member
      rw [definedToo, Option.filter_some] at passed
      by_contra isPlainToo
      simp [isPlainToo] at passed
    obtain ⟨i, first, above, earlier, globalI, definedFirst, plain⟩ :=
      plainFirst address caller name j k value found here isGlobal between below globalJ globalK
        definedToo unplain defined isPlain
    -- the plain definition that comes first was passed over, which it is not
    have memberI : i ∈ before := by
      have listedI : i ∈ ns.slotsAfter caller := (mem_slotsAfter_iff sound).mpr ⟨globalI, above⟩
      rw [split] at listedI
      rcases List.mem_append.mp listedI with inBefore | inRest
      · exact inBefore
      · have over_ : k ≤ i := by
          rcases List.mem_cons.mp inRest with rfl | later
          · exact le_rfl
          · exact ((List.pairwise_cons.mp (List.pairwise_append.mp sorted).2.1).1 i later).le
        omega
    have passed := skipped i memberI
    rw [definedFirst, Option.filter_some, if_pos plain] at passed
    contradiction
  · contradiction

theorem NextAgrees.plainFirst (sound : SlotsSound ns) (agrees : NextAgrees ns) : ns.PlainFirst := by
  intro address caller name j k value other here isGlobal afterCaller below globalJ globalK defined
    unplain definedK plain
  have ran := cosLinkDlctlNext_eq sound agrees.scopeOrder name here
  rw [if_pos isGlobal] at ran
  have listedK : k ∈ ns.slotsAfter caller :=
    (mem_slotsAfter_iff sound).mpr ⟨globalK, afterCaller.trans below⟩
  have listedJ : j ∈ ns.slotsAfter caller := (mem_slotsAfter_iff sound).mpr ⟨globalJ, afterCaller⟩
  cases isFound : cosLinkDlctlNext ns address name with
  | none =>
      rw [isFound] at ran
      have passed := List.findSome?_eq_none_iff.mp ran.symm k listedK
      rw [definedK, Option.filter_some, if_pos plain] at passed
      contradiction
  | some found =>
      rw [isFound] at ran
      obtain ⟨_, _, _, _, plainChosen, _⟩ := List.findSome?_eq_some_iff.mp ran.symm
      have isPlain := (Option.filter_eq_some_iff.mp plainChosen).2
      obtain ⟨again, isCaller, chosen⟩ := agrees.chosen address name found isFound
      obtain rfl := Option.some.inj (here.symm.trans isCaller)
      have searched : (ns.slotsAfter caller).findSome? (ns.definition name) = some found := by
        rw [scopeAfter, searchSlots_plain] at chosen
        rcases Option.or_eq_some_iff.mp chosen with first | ⟨nothing, _⟩
        · exact first
        · have passed := List.findSome?_eq_none_iff.mp nothing k listedK
          rw [definedK] at passed
          contradiction
      obtain ⟨before, i, rest, split, definedI, skipped⟩ := List.findSome?_eq_some_iff.mp searched
      have listedI : i ∈ ns.slotsAfter caller := by rw [split]; simp
      obtain ⟨globalI, above⟩ := (mem_slotsAfter_iff sound).mp listedI
      refine ⟨i, found, above, ?_, globalI, definedI, isPlain⟩
      -- the scope's choice is not after `j`, which has a definition, and is not `j`
      rw [split] at listedJ
      have sorted := slotsAfter_sorted ns caller
      rw [split] at sorted
      rcases List.mem_append.mp listedJ with inBefore | inRest
      · rw [skipped j inBefore] at defined
        contradiction
      · rcases List.mem_cons.mp inRest with rfl | later
        · rw [definedI] at defined
          rw [Option.some.inj defined, unplain] at isPlain
          contradiction
        · exact (List.pairwise_cons.mp (List.pairwise_append.mp sorted).2.1).1 j later

/-- In every namespace a run comes to, `RTLD_NEXT` agrees with the scope if and only if the serials
of the global objects rise with their slots and no name's first definition after a global caller is
one without a plain address while a later one has it. -/
theorem rtldNext_agrees_iff {state : LinkState} {pages : UserPages}
    (reached : Reaches linkStep (fun _ _ => True) ⟨.fresh, pages, false⟩ state) :
    NextAgrees state.ns ↔ state.ns.SerialsRise ∧ state.ns.PlainFirst := by
  have sound : SlotsSound state.ns := slotsSound_invariant.reached reached
  have serials : SerialsSound state.ns := serialsSound_invariant.reached reached
  have count : CountSound state.ns := countSound_invariant.reached reached
  constructor
  · intro agrees
    exact ⟨(nextSlots_eq_iff sound serials).mp agrees.scopeOrder, agrees.plainFirst sound⟩
  · rintro ⟨rises, plainFirst⟩
    have same := (nextSlots_eq_iff sound serials).mpr rises
    exact ⟨same, same.trans (defaultSlots_eq count).symm,
      fun _ _ _ ran => PlainFirst.chosen sound same plainFirst ran⟩

end NextAgrees

/-- Symbol `f`. -/
def plainSymbol : ElfSym := ⟨some [102], .global, .func, .sec 1, 0x40, 8, 1⟩

/-- A disk with libraries `/b` and `/c` that both define `f`. -/
def twinLibraries : FileSystem :=
  diskOf fun path =>
    if path = [47, 98] ∨ path = [47, 99] then
      some { plainImage 0 0 [] with dyn := { DynInfo.empty with symbols := [plainSymbol] } }
    else none

def startedWithTwins : LinkState :=
  runSteps linkStep ⟨.fresh, noPages, false⟩
    [.load (plainEnv twinLibraries) (plainProgram [[47, 98], [47, 99]])]

theorem rtldNext_agrees_started : NextAgrees startedWithTwins.ns := by
  have reached : Reaches linkStep (fun _ _ => True) ⟨.fresh, noPages, false⟩ startedWithTwins :=
    Reaches.refl.runSteps ⟨trivial, trivial⟩
  have sound := slotsSound_invariant.reached reached
  have inside : ∀ i, startedWithTwins.ns.Global i → i < maxObjects :=
    fun i isGlobal => sound.inTable i (Global.isSome isGlobal)
  refine (rtldNext_agrees_iff reached).mpr ⟨fun i j first second below => ?_, ?_⟩
  · have rises : ∀ i < maxObjects, ∀ j < maxObjects, startedWithTwins.ns.Global i →
        startedWithTwins.ns.Global j → i < j →
          startedWithTwins.ns.serialAt i < startedWithTwins.ns.serialAt j := by decide
    exact rises i (inside i first) j (inside j second) first second below
  · intro _ _ name j _ value _ _ _ _ _ globalJ _ defined unplain _ _
    have tables : ∀ i < maxObjects, (startedWithTwins.ns.objs i).all fun slot =>
        slot.obj.dyn.gnuHash = none ∧ slot.obj.dyn.hash = none ∧ slot.obj.base + 0x40 ≠ 0 ∧
          (slot.obj.dyn.symbols = [] ∨ slot.obj.dyn.symbols = [plainSymbol]) := by decide
    obtain ⟨slot, here, lookup⟩ := Option.bind_eq_some_iff.mp defined
    have isTable := tables j (inside j globalJ)
    rw [here, Option.all_some, decide_eq_true_eq] at isTable
    obtain ⟨noGnu, noHash, nonzero, symbols⟩ := isTable
    rw [cosElfLookup, noGnu, noHash] at lookup
    obtain ⟨found, isFound, rfl⟩ := Option.map_eq_some_iff.mp lookup
    obtain ⟨sym, isSym, rfl⟩ := Option.map_eq_some_iff.mp isFound
    have member := List.mem_of_mem_take (List.mem_of_find?_eq_some isSym)
    rcases symbols with none | one
    · rw [none] at member
      cases member
    · rw [one] at member
      obtain rfl := List.mem_singleton.mp member
      -- both libraries have `f` at a plain address
      have isPlain : Plain (j, fillSymval slot.obj plainSymbol) = true := by
        rw [Plain, Bool.and_eq_true]
        exact ⟨rfl, bne_iff_ne.mpr nonzero⟩
      rw [isPlain] at unplain
      contradiction

def globalNow : DlFlags := ⟨true, false, false, false⟩

/-- A program that opens `/b` and `/c`, closes `/b` and opens it again. -/
def reopenedTwins : LinkState :=
  runSteps linkStep ⟨.fresh, noPages, false⟩ [.load (plainEnv twinLibraries) (plainProgram []),
    .dlopen (plainEnv twinLibraries) globalNow [47, 98],
    .dlopen (plainEnv twinLibraries) globalNow [47, 99], .dlclose (plainEnv twinLibraries) 514,
    .dlopen (plainEnv twinLibraries) globalNow [47, 98]]

/-- `/b` is in slot 1 again, before `/c`, but is the youngest: after the program the scope finds `f`
in slot 1, and `RTLD_NEXT` finds it in slot 2. -/
theorem rtldNext_disagrees :
    Reaches linkStep (fun _ _ => True) ⟨.fresh, noPages, false⟩ reopenedTwins ∧
    (cosLinkDlctlNext reopenedTwins.ns 0x8000000000 [102]).map (·.1) = some 2 ∧
    (scopeAfter reopenedTwins.ns [102] 0).map (·.1) = some 1 ∧ ¬ NextAgrees reopenedTwins.ns := by
  refine ⟨Reaches.refl.runSteps ⟨trivial, trivial, trivial, trivial, trivial, trivial⟩, by decide,
    by decide, fun agrees => ?_⟩
  have same := agrees.scopeOrder
  exact absurd same (by decide)

end Cos.Link
