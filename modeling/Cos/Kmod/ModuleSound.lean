import Cos.Kmod.Modules
import Cos.Lib.Tally

/-! # What the modules and their callbacks keep

Two invariants.  The ledger is about the modules, their references and the load
or unload that is going on; a callback never touches it.  The other one is about
the callback tables and the callbacks that run.
-/

namespace Cos.Kmod

open Function (update update_of_ne update_self)

def Loader.slot : Loader → Option Nat
  | .idle => none
  | .reserved slot _ | .rejected slot | .initing slot | .failed slot | .exiting slot | .left slot
  | .dropping slot _ => some slot

def Loader.linked : Loader → Bool
  | .initing _ | .exiting _ => true
  | _ => false

/-- Whether the module is marked as going; the mark no longer matters when its entries are taken
out. -/
def Loader.unloading : Loader → Option Bool
  | .reserved _ _ | .rejected _ | .initing _ | .failed _ => some false
  | .exiting _ | .left _ => some true
  | .idle | .dropping _ _ => none

def Loader.quiet : Loader → Bool
  | .initing _ | .failed _ => false
  | _ => true

/-- The sources of the entries that the module may still have, where it can have no others. -/
def Loader.leftover : Loader → Option (List Nat)
  | .reserved _ _ | .rejected _ => some []
  | .dropping _ sources => some sources
  | _ => none

/-- Whether `m` is a loaded module that lists `d`. -/
def World.lists (w : World) (d m : Nat) : Bool :=
  (w.mods m).linked && decide (d ∈ (w.mods m).deps)

def World.needing (w : World) (d : Nat) : Nat :=
  ((Finset.range kmodMaxMods).filter fun m => w.lists d m = true).card

structure World.Numbered (w : World) : Prop where
  bounded : ∀ s, (w.mods s).used = true → s < kmodMaxMods
  young : ∀ s, (w.mods s).used = true → (w.mods s).gen < w.nextGen ∧ (w.mods s).gen ∉ w.freed
  old : ∀ gen ∈ w.freed, gen < w.nextGen
  distinct : ∀ s t, (w.mods s).used = true → (w.mods t).used = true →
    (w.mods s).gen = (w.mods t).gen → s = t

structure World.Ledger (keys : List Nat) (w : World) : Prop where
  numbered : w.Numbered
  refs : ∀ d, (w.mods d).refs = w.needing d
  loaded : ∀ m, (w.mods m).linked = true → (w.mods m).used = true ∧ (w.mods m).deps.Nodup
  needs : ∀ m, (w.mods m).linked = true → ∀ d ∈ (w.mods m).deps, (w.mods d).used = true
  levels : ∀ s, (w.mods s).used = true →
    (∀ level ∈ (w.mods s).bound, level ≤ (w.mods s).level) ∧
      (w.mods s).level ≤ (w.mods s).keyLevel ∧ (w.mods s).keyLevel ∈ keys
  others : ∀ s, (w.mods s).used = true → w.loader.slot ≠ some s →
    (w.mods s).linked = true ∧ (w.mods s).unloading = false
  unneeded : ∀ slot, w.loader.slot = some slot → (w.mods slot).used = true ∧ (w.mods slot).refs = 0
  linked : ∀ slot, w.loader.slot = some slot → (w.mods slot).linked = w.loader.linked
  unloading : ∀ slot, w.loader.slot = some slot → ∀ b, w.loader.unloading = some b →
    (w.mods slot).unloading = b
  reserved : ∀ slot file, w.loader = .reserved slot file →
    ∀ d ∈ (w.mods slot).deps, (w.mods d).used = true ∧ d ≠ slot

structure World.Callbacks (w : World) : Prop where
  entry : ∀ kind, ∀ e ∈ w.tables kind, e.used = true →
    (w.mods e.owner).used = true ∧ e.gen = (w.mods e.owner).gen
  running : ∀ a ∈ w.active, (w.mods a.owner).used = true ∧ a.gen = (w.mods a.owner).gen
  counted : ∀ s, (w.mods s).used = true →
    (w.active.countP fun a => decide (a.owner = s) : Int) ≤ (w.mods s).inflight
  quiet : ∀ slot, w.loader.slot = some slot → w.loader.quiet = true → ∀ a ∈ w.active, a.owner ≠ slot
  bare : ∀ slot sources, w.loader.slot = some slot → w.loader.leftover = some sources →
    ∀ kind, ∀ e ∈ w.tables kind, e.used = true → e.owner = slot → kind = .apic ∧ e.key ∈ sources

structure World.Sound (keys : List Nat) (w : World) : Prop where
  ledger : w.Ledger keys
  callbacks : w.Callbacks

variable {keys : List Nat} {w w' : World} {slot s d : Nat}

theorem needing_congr (same : ∀ m, w'.lists d m = w.lists d m) : w'.needing d = w.needing d := by
  simp only [World.needing, same]

theorem needing_update (inside : slot < kmodMaxMods) {new : Bool}
    (changed : ∀ m, w'.lists d m = update (w.lists d) slot new m) :
    w'.needing d + (if w.lists d slot = true then 1 else 0) =
    w.needing d + (if new = true then 1 else 0) := by
  have tally := @Lib.tally_update Nat Bool _ (Finset.range kmodMaxMods) slot _ (w.lists d)
    (Finset.mem_range.mpr inside) new true
  simpa only [World.needing, changed] using tally

theorem not_lists_of_needing (none : w.needing d = 0) {m : Nat} (inside : m < kmodMaxMods) :
    w.lists d m = false := by
  have empty := Finset.card_eq_zero.mp none
  cases listed : w.lists d m with
  | false => rfl
  | true =>
    have member : m ∈ (Finset.range kmodMaxMods).filter fun m => w.lists d m = true :=
      Finset.mem_filter.mpr ⟨Finset.mem_range.mpr inside, listed⟩
    rw [empty] at member
    exact absurd member (Finset.notMem_empty m)

theorem World.Ledger.not_lists (ledger : w.Ledger keys) (unused : (w.mods d).used = false)
    (m : Nat) : w.lists d m = false := by
  cases linked : (w.mods m).linked with
  | false => rw [World.lists, linked, Bool.false_and]
  | true =>
    rw [World.lists, linked, Bool.true_and]
    refine decide_eq_false fun member => ?_
    rw [ledger.needs m linked d member] at unused
    cases unused

theorem World.Ledger.unlisted (ledger : w.Ledger keys) (isSlot : w.loader.slot = some slot)
    {m : Nat} (linked : (w.mods m).linked = true) : slot ∉ (w.mods m).deps := by
  intro member
  have none : w.needing slot = 0 := by
    have refs := ledger.refs slot
    rw [(ledger.unneeded slot isSlot).2] at refs
    exact_mod_cast refs.symm
  have not := not_lists_of_needing none (ledger.numbered.bounded m (ledger.loaded m linked).1)
  rw [World.lists, linked, decide_eq_true member] at not
  cases not

theorem count_of_nodup {deps : List Nat} (nodup : deps.Nodup) (d : Nat) :
    (if decide (d ∈ deps) = true then 1 else 0) = deps.count d := by
  split
  · next member => exact (List.count_eq_one_of_mem nodup (of_decide_eq_true member)).symm
  · next absent => exact (List.count_eq_zero_of_not_mem fun member => absent (decide_eq_true member)).symm

theorem World.Numbered.congr (numbered : w.Numbered)
    (used : ∀ s, (w'.mods s).used = (w.mods s).used)
    (gen : ∀ s, (w'.mods s).gen = (w.mods s).gen) (nextGen : w'.nextGen = w.nextGen)
    (freed : w'.freed = w.freed) : w'.Numbered := by
  constructor
  · simpa only [used] using numbered.bounded
  · simpa only [used, gen, nextGen, freed] using numbered.young
  · simpa only [nextGen, freed] using numbered.old
  · simpa only [used, gen] using numbered.distinct

def World.Alike (w w' : World) : Prop :=
  ∀ s, ∃ inflight, w'.mods s = { w.mods s with inflight := inflight }

theorem World.Alike.refl (same : w'.mods = w.mods) : w.Alike w' :=
  fun s => ⟨(w.mods s).inflight, congrFun same s⟩

theorem World.Alike.field {α : Type} (alike : w.Alike w') (f : Mod → α)
    (ignores : ∀ m inflight, f { m with inflight := inflight } = f m) (s : Nat) :
    f (w'.mods s) = f (w.mods s) := by
  obtain ⟨inflight, is⟩ := alike s
  rw [is, ignores]

theorem World.Ledger.frame (ledger : w.Ledger keys)
    (alike : w.Alike w') (nextGen : w'.nextGen = w.nextGen) (freed : w'.freed = w.freed)
    (atSlot : w'.loader.slot = w.loader.slot) (linked : w'.loader.linked = w.loader.linked)
    (unloading : ∀ b, w'.loader.unloading = some b → w.loader.unloading = some b)
    (reserved : ∀ slot file, w'.loader = .reserved slot file → w.loader = .reserved slot file) :
    w'.Ledger keys := by
  have sameUsed := alike.field Mod.used fun _ _ => rfl
  have sameGen := alike.field Mod.gen fun _ _ => rfl
  have sameRefs := alike.field Mod.refs fun _ _ => rfl
  have sameLinked := alike.field Mod.linked fun _ _ => rfl
  have sameDeps := alike.field Mod.deps fun _ _ => rfl
  have sameUnloading := alike.field Mod.unloading fun _ _ => rfl
  have sameBound := alike.field Mod.bound fun _ _ => rfl
  have sameLevel := alike.field Mod.level fun _ _ => rfl
  have sameKey := alike.field Mod.keyLevel fun _ _ => rfl
  constructor
  · exact ledger.numbered.congr sameUsed sameGen nextGen freed
  · intro d
    rw [sameRefs, ledger.refs, needing_congr fun m => ?_]
    rw [World.lists, World.lists, sameLinked, sameDeps]
  · simpa only [sameUsed, sameLinked, sameDeps] using ledger.loaded
  · simpa only [sameUsed, sameLinked, sameDeps] using ledger.needs
  · simpa only [sameUsed, sameBound, sameLevel, sameKey] using ledger.levels
  · simpa only [sameUsed, sameLinked, sameUnloading, atSlot] using ledger.others
  · simpa only [sameUsed, sameRefs, atSlot] using ledger.unneeded
  · simpa only [sameLinked, atSlot, linked] using ledger.linked
  · intro slot isSlot b is
    rw [sameUnloading]
    exact ledger.unloading slot (atSlot ▸ isSlot) b (unloading b is)
  · simpa only [sameUsed, sameDeps] using fun slot file is => ledger.reserved slot file (reserved slot file is)

theorem freeSlot_spec (found : w.freeSlot = some slot) :
    (w.mods slot).used = false ∧ slot < kmodMaxMods := by
  have member := List.mem_of_find?_eq_some found
  have free := List.find?_some found
  exact ⟨by simpa using free, List.mem_range.mp member⟩

theorem find_used {name : String} (found : w.find name = some d) : (w.mods d).used = true := by
  have member := List.mem_of_getLast? found
  simp only [List.mem_filter, Bool.and_eq_true] at member
  exact member.2.1.1

theorem mapM_mem {α β : Type} {f : α → Option β} {xs : List α} {ys : List β}
    (found : xs.mapM f = some ys) {y : β} (member : y ∈ ys) : ∃ x, f x = some y := by
  induction xs generalizing ys with
  | nil =>
    cases found
    cases member
  | cons x rest ih =>
    simp only [List.mapM_cons, Option.bind_eq_bind, Option.bind_eq_some_iff, Option.pure_def, Option.some.injEq] at found
    obtain ⟨first, isFirst, others, areOthers, rfl⟩ := found
    rcases List.mem_cons.mp member with rfl | member
    · exact ⟨x, isFirst⟩
    · exact ih areOthers member

theorem World.Numbered.reserve (numbered : w.Numbered) {m : Mod} (inside : slot < kmodMaxMods)
    (isNew : m.gen = w.nextGen) (mods : w'.mods = Function.update w.mods slot m)
    (nextGen : w'.nextGen = w.nextGen + 1) (freed : w'.freed = w.freed) : w'.Numbered := by
  have atSlot : w'.mods slot = m := by rw [mods, Function.update_self]
  have away : ∀ {s}, s ≠ slot → w'.mods s = w.mods s := fun other => by
    rw [mods, Function.update_of_ne other]
  constructor
  · intro s
    by_cases isSlot : s = slot
    · exact fun _ => isSlot ▸ inside
    · rw [away isSlot]
      exact numbered.bounded s
  · intro s
    rw [nextGen, freed]
    by_cases isSlot : s = slot
    · rw [isSlot, atSlot, isNew]
      exact fun _ => ⟨Nat.lt_succ_self _, fun wasFreed => absurd (numbered.old _ wasFreed) (Nat.lt_irrefl _)⟩
    · rw [away isSlot]
      intro used
      exact ⟨Nat.lt_succ_of_lt (numbered.young s used).1, (numbered.young s used).2⟩
  · rw [nextGen, freed]
    exact fun gen freed => Nat.lt_succ_of_lt (numbered.old gen freed)
  · intro s t
    by_cases sSlot : s = slot <;> by_cases tSlot : t = slot
    · exact fun _ _ _ => sSlot.trans tSlot.symm
    · rw [sSlot, atSlot, away tSlot, isNew]
      exact fun _ used same => absurd (numbered.young t used).1 (by omega)
    · rw [tSlot, atSlot, away sSlot, isNew]
      exact fun used _ same => absurd (numbered.young s used).1 (by omega)
    · rw [away sSlot, away tSlot]
      exact numbered.distinct s t

theorem World.Ledger.reserve (ledger : w.Ledger keys) {file : ModFile} {deps : List Nat}
    (idle : w.loader = .idle) (unused : (w.mods slot).used = false) (inside : slot < kmodMaxMods)
    (trusted : file.keyId ∈ keys) (there : ∀ d ∈ deps, (w.mods d).used = true) :
    World.Ledger keys
      { w.setMod slot { Mod.clear with used := true, deps := deps, gen := w.nextGen, keyLevel := file.keyId } with
        loader := .reserved slot file
        nextGen := w.nextGen + 1 } := by
  generalize isNew : ({ w.setMod slot { Mod.clear with used := true, deps := deps, gen := w.nextGen, keyLevel := file.keyId } with
        loader := .reserved slot file
        nextGen := w.nextGen + 1 } : World) = w'
  have atSlot : w'.mods slot =
    { Mod.clear with used := true, deps := deps, gen := w.nextGen, keyLevel := file.keyId } := by
    rw [← isNew]
    exact update_self ..
  have away : ∀ {s}, s ≠ slot → w'.mods s = w.mods s := by
    intro s other
    rw [← isNew]
    exact update_of_ne other ..
  have loader : w'.loader = .reserved slot file := by rw [← isNew]
  have unlinked : (w.mods slot).linked = false := by
    cases linked : (w.mods slot).linked with
    | false => rfl
    | true => rw [(ledger.loaded slot linked).1] at unused; cases unused
  have other : ∀ {s : Nat}, (w.mods s).used = true → s ≠ slot := by
    rintro s used rfl
    rw [used] at unused
    cases unused
  have sameLists : ∀ d m, w'.lists d m = w.lists d m := by
    intro d m
    by_cases isSlot : m = slot
    · rw [World.lists, World.lists, isSlot, atSlot, unlinked]
      rfl
    · rw [World.lists, World.lists, away isSlot]
  constructor
  · exact ledger.numbered.reserve inside rfl (by rw [← isNew, World.setMod]) (by rw [← isNew]) (by rw [← isNew, World.setMod])
  · intro d
    rw [needing_congr (sameLists d)]
    by_cases isSlot : d = slot
    · subst isSlot
      have none : w.needing d = 0 := Finset.card_eq_zero.mpr (Finset.filter_eq_empty_iff.mpr fun m _ listed => by
        rw [ledger.not_lists unused m] at listed
        cases listed)
      rw [none, atSlot]
      rfl
    · rw [away isSlot]
      exact ledger.refs d
  · intro m
    by_cases isSlot : m = slot
    · rw [isSlot, atSlot]
      exact fun linked => nomatch linked
    · rw [away isSlot]
      exact ledger.loaded m
  · intro m
    by_cases isSlot : m = slot
    · rw [isSlot, atSlot]
      exact fun linked => nomatch linked
    · rw [away isSlot]
      intro linked d member
      have used := ledger.needs m linked d member
      rw [away (other used)]
      exact used
  · intro s
    by_cases isSlot : s = slot
    · rw [isSlot, atSlot]
      exact fun _ => ⟨fun _ bound => absurd bound List.not_mem_nil, Nat.zero_le _, trusted⟩
    · rw [away isSlot]
      exact ledger.levels s
  · intro s used busy
    have isSlot : s ≠ slot := fun same => busy (by rw [loader, same]; rfl)
    rw [away isSlot] at used ⊢
    exact ledger.others s used (by rw [idle]; nofun)
  · rw [loader]
    rintro _ ⟨rfl⟩
    rw [atSlot]
    exact ⟨rfl, rfl⟩
  · rw [loader]
    rintro _ ⟨rfl⟩
    rw [atSlot]
    rfl
  · rw [loader]
    rintro _ ⟨rfl⟩ _ ⟨rfl⟩
    rw [atSlot]
    rfl
  · rw [loader]
    rintro _ _ ⟨rfl⟩ d member
    rw [atSlot] at member
    rw [away (other (there d member))]
    exact ⟨there d member, other (there d member)⟩

theorem World.Ledger.count (ledger : w.Ledger keys) {file : ModFile} {bound : List Nat}
    (isReserved : w.loader = .reserved slot file) (nodup : (w.mods slot).deps.Nodup)
    (below : ∀ level ∈ bound, level ≤ file.level) (vouched : file.level ≤ (w.mods slot).keyLevel)
    (atSlot : w'.mods slot = { w.mods slot with
      refs := (w.mods slot).refs + (w.mods slot).deps.count slot
      name := file.name
      level := file.level
      exports := file.exports
      linked := true
      bound := bound })
    (away : ∀ s, s ≠ slot →
    w'.mods s = { w.mods s with refs := (w.mods s).refs + (w.mods slot).deps.count s })
    (loader : w'.loader = .initing slot) (nextGen : w'.nextGen = w.nextGen)
    (freed : w'.freed = w.freed) : w'.Ledger keys := by
  have isSlot : w.loader.slot = some slot := by rw [isReserved]; rfl
  have unlinked : (w.mods slot).linked = false := by rw [ledger.linked slot isSlot, isReserved]; rfl
  have used := (ledger.unneeded slot isSlot).1
  have needed := ledger.reserved slot file isReserved
  have sameUsed : ∀ s, (w'.mods s).used = (w.mods s).used := by
    intro s
    by_cases same : s = slot
    · rw [same, atSlot]
    · rw [away s same]
  have sameGen : ∀ s, (w'.mods s).gen = (w.mods s).gen := by
    intro s
    by_cases same : s = slot
    · rw [same, atSlot]
    · rw [away s same]
  have refs : ∀ s, (w'.mods s).refs = (w.mods s).refs + (w.mods slot).deps.count s := by
    intro s
    by_cases same : s = slot
    · rw [same, atSlot]
    · rw [away s same]
  have lists : ∀ d m, w'.lists d m =
    update (w.lists d) slot (decide (d ∈ (w.mods slot).deps)) m := by
    intro d m
    by_cases same : m = slot
    · rw [World.lists, same, atSlot, Function.update_self, Bool.true_and]
    · rw [World.lists, away m same, Function.update_of_ne same, World.lists]
  constructor
  · exact ledger.numbered.congr sameUsed sameGen nextGen freed
  · intro d
    have before : w.lists d slot = false := by rw [World.lists, unlinked, Bool.false_and]
    have change := needing_update (ledger.numbered.bounded slot used) (lists d)
    rw [before, if_neg Bool.false_ne_true, Nat.add_zero, count_of_nodup nodup d] at change
    rw [refs, ledger.refs d, change]
    omega
  · intro m
    by_cases same : m = slot
    · rw [same, atSlot]
      exact fun _ => ⟨used, nodup⟩
    · rw [away m same]
      exact ledger.loaded m
  · intro m linked d member
    rw [sameUsed]
    by_cases same : m = slot
    · rw [same, atSlot] at member
      exact (needed d member).1
    · rw [away m same] at linked member
      exact ledger.needs m linked d member
  · intro s
    by_cases same : s = slot
    · rw [same, atSlot]
      exact fun _ => ⟨below, vouched, (ledger.levels slot used).2.2⟩
    · rw [away s same]
      exact ledger.levels s
  · intro s usedS busy
    have same : s ≠ slot := fun same => busy (by rw [loader, same]; rfl)
    rw [away s same] at usedS ⊢
    exact ledger.others s usedS (by rw [isReserved]; rw [loader] at busy; exact busy)
  · rw [loader]
    rintro _ ⟨rfl⟩
    -- the new module is not its own dependency
    have own : (w.mods slot).deps.count slot = 0 :=
      List.count_eq_zero_of_not_mem fun member => (needed slot member).2 rfl
    rw [sameUsed, refs, own, (ledger.unneeded slot isSlot).2]
    exact ⟨used, rfl⟩
  · rw [loader]
    rintro _ ⟨rfl⟩
    rw [atSlot]
    rfl
  · rw [loader]
    rintro _ ⟨rfl⟩ _ ⟨rfl⟩
    rw [atSlot]
    exact ledger.unloading slot isSlot false (by rw [isReserved]; rfl)
  · rw [loader]
    nofun

theorem World.Ledger.uncount (ledger : w.Ledger keys) {before after : Loader}
    (isBefore : w.loader = before) (isSlot : before.slot = some slot)
    (linked : before.linked = true) (afterSlot : after.slot = some slot)
    (unlinked : after.linked = false)
    (unloading : ∀ b, after.unloading = some b → before.unloading = some b)
    (notReserved : ∀ s file, after ≠ .reserved s file) :
    World.Ledger keys { w.unlink slot with loader := after } := by
  subst isBefore
  have isLinked : (w.mods slot).linked = true := by rw [ledger.linked slot isSlot, linked]
  have used := (ledger.unneeded slot isSlot).1
  have nodup := (ledger.loaded slot isLinked).2
  have own : (w.mods slot).deps.count slot = 0 :=
    List.count_eq_zero_of_not_mem (ledger.unlisted isSlot isLinked)
  generalize isNew : ({ w.unlink slot with loader := after } : World) = w'
  have atSlot : w'.mods slot = { w.mods slot with
      refs := (w.mods slot).refs - (w.mods slot).deps.count slot
      linked := false } := by
    rw [← isNew]
    exact update_self (f := fun s => { w.mods s with refs := (w.mods s).refs - (w.mods slot).deps.count s }) ..
  have away : ∀ s, s ≠ slot →
    w'.mods s = { w.mods s with refs := (w.mods s).refs - (w.mods slot).deps.count s } := by
    intro s other
    rw [← isNew]
    exact update_of_ne (f := fun s => { w.mods s with refs := (w.mods s).refs - (w.mods slot).deps.count s }) other ..
  have loader : w'.loader = after := by rw [← isNew]
  have sameUsed : ∀ s, (w'.mods s).used = (w.mods s).used := by
    intro s
    by_cases same : s = slot
    · rw [same, atSlot]
    · rw [away s same]
  have sameGen : ∀ s, (w'.mods s).gen = (w.mods s).gen := by
    intro s
    by_cases same : s = slot
    · rw [same, atSlot]
    · rw [away s same]
  have refs : ∀ s, (w'.mods s).refs = (w.mods s).refs - (w.mods slot).deps.count s := by
    intro s
    by_cases same : s = slot
    · rw [same, atSlot]
    · rw [away s same]
  have lists : ∀ d m, w'.lists d m = update (w.lists d) slot false m := by
    intro d m
    by_cases same : m = slot
    · rw [World.lists, same, atSlot, Function.update_self, Bool.false_and]
    · rw [World.lists, away m same, Function.update_of_ne same, World.lists]
  constructor
  · exact ledger.numbered.congr sameUsed sameGen (by rw [← isNew, World.unlink]) (by rw [← isNew, World.unlink])
  · intro d
    have listed : w.lists d slot = decide (d ∈ (w.mods slot).deps) := by rw [World.lists, isLinked, Bool.true_and]
    have change := needing_update (ledger.numbered.bounded slot used) (lists d)
    rw [listed, if_neg Bool.false_ne_true, Nat.add_zero, count_of_nodup nodup d] at change
    rw [refs, ledger.refs d, ← change]
    omega
  · intro m
    by_cases same : m = slot
    · rw [same, atSlot]
      exact fun linked => nomatch linked
    · rw [away m same]
      exact ledger.loaded m
  · intro m
    by_cases same : m = slot
    · rw [same, atSlot]
      exact fun linked => nomatch linked
    · rw [away m same]
      intro linked d member
      rw [sameUsed]
      exact ledger.needs m linked d member
  · intro s
    by_cases same : s = slot
    · rw [same, atSlot]
      exact ledger.levels slot
    · rw [away s same]
      exact ledger.levels s
  · intro s usedS busy
    rw [loader, afterSlot] at busy
    have same : s ≠ slot := fun same => busy (congrArg some same.symm)
    rw [away s same] at usedS ⊢
    exact ledger.others s usedS (isSlot ▸ busy)
  · rw [loader, afterSlot]
    rintro _ ⟨rfl⟩
    rw [sameUsed, refs, own, (ledger.unneeded slot isSlot).2]
    exact ⟨used, rfl⟩
  · rw [loader, afterSlot, unlinked]
    rintro _ ⟨rfl⟩
    rw [atSlot]
  · rw [loader, afterSlot]
    rintro _ ⟨rfl⟩ b is
    rw [atSlot]
    exact ledger.unloading slot isSlot b (unloading b is)
  · rw [loader]
    exact fun s file is => absurd is (notReserved s file)

theorem World.Ledger.settle (ledger : w.Ledger keys) (initing : w.loader = .initing slot) :
    World.Ledger keys { w with loader := .idle } := by
  have isSlot : w.loader.slot = some slot := by rw [initing]; rfl
  refine { ledger with
    numbered := ledger.numbered.congr (fun _ => rfl) (fun _ => rfl) rfl rfl
    others := fun s used _ => ?_
    unneeded := nofun
    linked := nofun
    unloading := nofun
    reserved := nofun }
  by_cases same : s = slot
  · subst same
    refine ⟨?_, ledger.unloading s isSlot false (by rw [initing]; rfl)⟩
    rw [ledger.linked s isSlot, initing]
    rfl
  · refine ledger.others s used ?_
    rw [isSlot]
    exact fun other => same (Option.some.inj other).symm

theorem World.Ledger.leave (ledger : w.Ledger keys) (idle : w.loader = .idle)
    (used : (w.mods slot).used = true) (unneeded : (w.mods slot).refs = 0) :
    World.Ledger keys { w.setMod slot { w.mods slot with unloading := true } with loader := .exiting slot } := by
  generalize isNew : ({ w.setMod slot { w.mods slot with unloading := true } with loader := .exiting slot } : World) = w'
  have atSlot : w'.mods slot = { w.mods slot with unloading := true } := by
    rw [← isNew]
    exact update_self ..
  have away : ∀ s, s ≠ slot → w'.mods s = w.mods s := by
    intro s other
    rw [← isNew]
    exact update_of_ne other ..
  have loader : w'.loader = .exiting slot := by rw [← isNew]
  have field : ∀ {α : Type} (f : Mod → α), (∀ m, f { m with unloading := true } = f m) →
    ∀ s, f (w'.mods s) = f (w.mods s) := by
    intro α f ignores s
    by_cases same : s = slot
    · rw [same, atSlot, ignores]
    · rw [away s same]
  have sameUsed := field Mod.used fun _ => rfl
  have sameLinked := field Mod.linked fun _ => rfl
  have sameDeps := field Mod.deps fun _ => rfl
  have sameRefs := field Mod.refs fun _ => rfl
  have sameBound := field Mod.bound fun _ => rfl
  have sameLevel := field Mod.level fun _ => rfl
  have sameKey := field Mod.keyLevel fun _ => rfl
  have isLinked := (ledger.others slot used (by rw [idle]; nofun)).1
  constructor
  · exact ledger.numbered.congr sameUsed (field Mod.gen fun _ => rfl)
      (by rw [← isNew, World.setMod]) (by rw [← isNew, World.setMod])
  · intro d
    rw [sameRefs, ledger.refs, needing_congr fun m => ?_]
    rw [World.lists, World.lists, sameLinked, sameDeps]
  · simpa only [sameUsed, sameLinked, sameDeps] using ledger.loaded
  · simpa only [sameUsed, sameLinked, sameDeps] using ledger.needs
  · simpa only [sameUsed, sameBound, sameLevel, sameKey] using ledger.levels
  · intro s usedS busy
    have same : s ≠ slot := fun same => busy (by rw [loader, same]; rfl)
    rw [away s same] at usedS ⊢
    exact ledger.others s usedS (by rw [idle]; nofun)
  · rw [loader]
    rintro _ ⟨rfl⟩
    rw [sameUsed, sameRefs]
    exact ⟨used, unneeded⟩
  · rw [loader]
    rintro _ ⟨rfl⟩
    rw [sameLinked]
    exact isLinked
  · rw [loader]
    rintro _ ⟨rfl⟩ _ ⟨rfl⟩
    rw [atSlot]
  · rw [loader]
    nofun

theorem World.Ledger.free (ledger : w.Ledger keys) (dropping : w.loader = .dropping slot []) :
    w.free.Ledger keys := by
  have isSlot : w.loader.slot = some slot := by rw [dropping]; rfl
  obtain ⟨used, unneeded⟩ := ledger.unneeded slot isSlot
  have unlinked : (w.mods slot).linked = false := by rw [ledger.linked slot isSlot, dropping]; rfl
  have isNew : w.free = { w.setMod slot Mod.clear with
      loader := .idle
      freed := (w.mods slot).gen :: w.freed } := by rw [World.free, dropping]
  have atSlot : w.free.mods slot = Mod.clear := by
    rw [isNew]
    exact update_self ..
  have away : ∀ s, s ≠ slot → w.free.mods s = w.mods s := by
    intro s other
    rw [isNew]
    exact update_of_ne other ..
  have loader : w.free.loader = .idle := by rw [isNew]
  have nextGen : w.free.nextGen = w.nextGen := by rw [isNew, World.setMod]
  have freed : w.free.freed = (w.mods slot).gen :: w.freed := by rw [isNew]
  have sameLists : ∀ d m, w.free.lists d m = w.lists d m := by
    intro d m
    by_cases same : m = slot
    · rw [World.lists, World.lists, same, atSlot, unlinked]
      rfl
    · rw [World.lists, World.lists, away m same]
  have stays : ∀ s, (w.free.mods s).used = true → s ≠ slot := by
    rintro s usedS rfl
    rw [atSlot] at usedS
    cases usedS
  constructor
  · constructor
    · intro s usedS
      rw [away s (stays s usedS)] at usedS
      exact ledger.numbered.bounded s usedS
    · intro s usedS
      have other := stays s usedS
      rw [away s other] at usedS
      rw [away s other, nextGen, freed]
      refine ⟨(ledger.numbered.young s usedS).1, fun member => ?_⟩
      rcases List.mem_cons.mp member with same | member
      · exact other (ledger.numbered.distinct s slot usedS used same)
      · exact (ledger.numbered.young s usedS).2 member
    · rw [nextGen, freed]
      intro gen member
      rcases List.mem_cons.mp member with rfl | member
      · exact (ledger.numbered.young slot used).1
      · exact ledger.numbered.old gen member
    · intro s t usedS usedT
      have otherS := stays s usedS
      have otherT := stays t usedT
      rw [away s otherS] at usedS ⊢
      rw [away t otherT] at usedT ⊢
      exact ledger.numbered.distinct s t usedS usedT
  · intro d
    rw [needing_congr (sameLists d)]
    by_cases same : d = slot
    · rw [← ledger.refs d, same, atSlot, unneeded]
      rfl
    · rw [away d same]
      exact ledger.refs d
  · intro m
    by_cases same : m = slot
    · rw [same, atSlot]
      exact fun linked => nomatch linked
    · rw [away m same]
      exact ledger.loaded m
  · intro m
    by_cases same : m = slot
    · rw [same, atSlot]
      exact fun linked => nomatch linked
    · rw [away m same]
      intro linked d member
      have other : d ≠ slot := fun is => ledger.unlisted isSlot linked (is ▸ member)
      rw [away d other]
      exact ledger.needs m linked d member
  · intro s usedS
    have other := stays s usedS
    rw [away s other] at usedS ⊢
    exact ledger.levels s usedS
  · intro s usedS _
    have other := stays s usedS
    rw [away s other] at usedS ⊢
    refine ledger.others s usedS ?_
    rw [isSlot]
    exact fun is => other (Option.some.inj is).symm
  all_goals
    rw [loader]
    nofun

end Cos.Kmod
