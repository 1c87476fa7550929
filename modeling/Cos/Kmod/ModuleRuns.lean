import Cos.Kmod.ModuleSound
import Cos.Lib.Run
import Mathlib

/-! # Modules are not called after they are gone

What every step keeps of the callbacks, and from it what holds in all runs.
-/

namespace Cos.Kmod

open Function (update update_of_ne update_self)

variable {keys : List Nat} {w w' : World} {slot s : Nat}

theorem mem_drop {t : Table} {out : Entry → Bool} {e : Entry} (member : e ∈ t.drop out)
    (used : e.used = true) : e ∈ t ∧ out e = false := by
  obtain ⟨old, isOld, same⟩ := List.mem_map.mp member
  split at same
  · rw [← same] at used
    cases used
  · next stays =>
    subst same
    rw [used, Bool.true_and] at stays
    exact ⟨isOld, Bool.eq_false_iff.mpr stays⟩

theorem mem_setFree {t t' : Table} {new e : Entry} (set : t.setFree new = some t')
    (member : e ∈ t') : e ∈ t ∨ e = new := by
  obtain ⟨i, _, rfl⟩ := Option.map_eq_some_iff.mp set
  exact List.mem_or_eq_of_mem_set member

theorem mem_register {kind : Kind} {lineFree : Bool} {t t' : Table} {new e : Entry}
    (registered : register kind lineFree t new = some t') (member : e ∈ t') : e ∈ t ∨ e = new := by
  cases kind with
  | syscall =>
    simp only [register, registerSyscall] at registered
    split at registered
    · split at registered
      · cases registered
      · cases registered
        exact List.mem_or_eq_of_mem_set member
    · cases registered
  | irq =>
    simp only [register, irqRegister] at registered
    split at registered
    · cases registered
    · split at registered
      · exact mem_setFree registered member
      · cases registered
  | apic =>
    simp only [register, apicAlloc] at registered
    split at registered
    · cases registered
    · split at registered
      · exact mem_setFree registered member
      · cases registered
  | event | fsFilter | netFilter | netRewrite =>
    simp only [register, registerFunction] at registered
    split at registered
    · cases registered
    · exact mem_setFree registered member

theorem World.Callbacks.frame (callbacks : w.Callbacks)
    (used : ∀ s, (w'.mods s).used = (w.mods s).used) (gen : ∀ s, (w'.mods s).gen = (w.mods s).gen)
    (inflight : ∀ s, (w'.mods s).inflight = (w.mods s).inflight)
    (entries : ∀ kind, ∀ e ∈ w'.tables kind, e.used = true → e ∈ w.tables kind)
    (active : w'.active = w.active)
    (quiet : ∀ slot, w'.loader.slot = some slot → w'.loader.quiet = true →
    ∀ a ∈ w.active, a.owner ≠ slot)
    (bare : ∀ slot sources, w'.loader.slot = some slot → w'.loader.leftover = some sources →
      ∀ kind, ∀ e ∈ w'.tables kind, e.used = true → e.owner = slot →
      kind = .apic ∧ e.key ∈ sources) :
    w'.Callbacks := by
  constructor
  · intro kind e member usedE
    rw [used, gen]
    exact callbacks.entry kind e (entries kind e member usedE) usedE
  · rw [active]
    intro a member
    rw [used, gen]
    exact callbacks.running a member
  · intro s usedS
    rw [active, inflight]
    exact callbacks.counted s (used s ▸ usedS)
  · rw [active]
    exact quiet
  · exact bare

theorem World.Callbacks.reserve (callbacks : w.Callbacks) {m : Mod} {file : ModFile}
    (unused : (w.mods slot).used = false) (none : m.inflight = 0) (nextGen : Nat) :
    World.Callbacks { w.setMod slot m with loader := .reserved slot file, nextGen := nextGen } := by
  have other : ∀ {s : Nat}, (w.mods s).used = true → s ≠ slot := by
    rintro s used rfl
    rw [used] at unused
    cases unused
  constructor
  · intro kind e member used
    have entry := callbacks.entry kind e member used
    simp only [World.setMod, Function.update_of_ne (other entry.1)]
    exact entry
  · intro a member
    have running := callbacks.running a member
    simp only [World.setMod, Function.update_of_ne (other running.1)]
    exact running
  · intro s used
    by_cases same : s = slot
    · subst same
      have idle : (w.active.countP fun a => decide (a.owner = s)) = 0 :=
        List.countP_eq_zero.mpr fun a member owner =>
          other (callbacks.running a member).1 (of_decide_eq_true owner)
      simp only [World.setMod, Function.update_self, idle, none]
      exact Int.le_refl 0
    · simp only [World.setMod, Function.update_of_ne same] at used ⊢
      exact callbacks.counted s used
  · rintro _ ⟨rfl⟩ _ a member
    exact other (callbacks.running a member).1
  · rintro _ _ ⟨rfl⟩ _ kind e member used owner
    exact absurd owner (other (callbacks.entry kind e member used).1)

theorem World.Callbacks.free (callbacks : w.Callbacks) (dropping : w.loader = .dropping slot []) :
    w.free.Callbacks := by
  have isSlot : w.loader.slot = some slot := by rw [dropping]; rfl
  have isNew : w.free = { w.setMod slot Mod.clear with
      loader := .idle
      freed := (w.mods slot).gen :: w.freed } := by rw [World.free, dropping]
  have quiet := callbacks.quiet slot isSlot (by rw [dropping]; rfl)
  have bare : ∀ kind, ∀ e ∈ w.tables kind, e.used = true →
    e.owner ≠ slot := fun kind e member used owner =>
    absurd (callbacks.bare slot [] isSlot (by rw [dropping]; rfl) kind e member used owner).2
      List.not_mem_nil
  rw [isNew]
  constructor
  · intro kind e member used
    simp only [World.setMod, update_of_ne (bare kind e member used)]
    exact callbacks.entry kind e member used
  · intro a member
    simp only [World.setMod, Function.update_of_ne (quiet a member)]
    exact callbacks.running a member
  · intro s used
    by_cases same : s = slot
    · subst same
      simp only [World.setMod, update_self] at used
      cases used
    · simp only [World.setMod, Function.update_of_ne same] at used ⊢
      exact callbacks.counted s used
  · rintro _ ⟨⟩
  · rintro _ _ ⟨⟩

theorem World.Sound.bare_mayRun (sound : w.Sound keys) (isSlot : w.loader.slot = some slot)
    {sources : List Nat} (leftover : w.loader.leftover = some sources) : w.mayRun slot = false := by
  have unlinked : (w.mods slot).linked = false := by
    rw [sound.ledger.linked slot isSlot]
    cases loader : w.loader <;> rw [loader] at leftover <;> first | rfl | cases leftover
  have isQuiet : w.loader.quiet = true := by
    cases loader : w.loader <;> rw [loader] at leftover <;> first | rfl | cases leftover
  have silent : (w.active.any fun a => decide (a.owner = slot)) = false :=
    List.any_eq_false.mpr fun a member => by
      rw [decide_eq_true_eq]
      exact sound.callbacks.quiet slot isSlot isQuiet a member
  rw [World.mayRun, unlinked, silent, Bool.or_false, Bool.and_false]

theorem World.Sound.register (sound : w.Sound keys) {kind : Kind} {fn key : Nat} {lineFree : Bool} :
    (w.register slot kind fn key lineFree).Callbacks := by
  unfold World.register
  split
  · next mayRun =>
    split
    · exact sound.callbacks
    · next t registered =>
      have used : (w.mods slot).used = true := (Bool.and_eq_true_iff.mp mayRun).1
      have member : ∀ k, ∀ e ∈ update w.tables kind t k,
          e ∈ w.tables k ∨ e = ⟨true, slot, fn, key, (w.mods slot).gen⟩ := by
        intro k e member
        by_cases same : k = kind
        · subst same
          rw [Function.update_self] at member
          exact mem_register registered member
        · rw [Function.update_of_ne same] at member
          exact .inl member
      refine { sound.callbacks with entry := fun k e isIn usedE => ?_, bare := fun s sources isSlot leftover k e isIn usedE owner => ?_ }
      · rcases member k e isIn with old | rfl
        · exact sound.callbacks.entry k e old usedE
        · exact ⟨used, rfl⟩
      · rcases member k e isIn with old | rfl
        · exact sound.callbacks.bare s sources isSlot leftover k e old usedE owner
        · subst owner
          rw [sound.bare_mayRun isSlot leftover] at mayRun
          cases mayRun
  · exact sound.callbacks

theorem World.Callbacks.unregister (callbacks : w.Callbacks) {kind : Kind} {fn key : Nat} :
    (w.unregister slot kind fn key).Callbacks := by
  unfold World.unregister
  split
  · have entries : ∀ k, ∀ e ∈ update w.tables kind ((w.tables kind).drop (unregisters kind slot fn key)) k,
        e.used = true → e ∈ w.tables k := by
      intro k e member used
      by_cases same : k = kind
      · subst same
        rw [Function.update_self] at member
        exact (mem_drop member used).1
      · rw [Function.update_of_ne same] at member
        exact member
    exact callbacks.frame (fun _ => rfl) (fun _ => rfl) (fun _ => rfl) entries rfl callbacks.quiet
      fun s sources isSlot leftover k e member used owner =>
        callbacks.bare s sources isSlot leftover k e (entries k e member used) used owner
  · exact callbacks

structure World.Ok (keys : List Nat) (w : World) : Prop where
  /-- No callback runs in freed pages. -/
  alive : ∀ a ∈ w.active, a.gen ∉ w.freed
  unreached : ∀ kind, ∀ e ∈ w.tables kind, e.used = true → e.gen ∉ w.freed
  refs : ∀ d, (w.mods d).refs = w.needing d
  /-- All modules are loaded but the one that a load or an unload is about. -/
  loaded : w.loader = .idle → ∀ s, (w.mods s).linked = (w.mods s).used
  owned : ∀ kind, ∀ e ∈ w.tables kind, e.used = true → (w.mods e.owner).used = true
  levels : ∀ s, (w.mods s).used = true →
    (∀ level ∈ (w.mods s).bound, level ≤ (w.mods s).level) ∧
      (w.mods s).level ≤ (w.mods s).keyLevel ∧ (w.mods s).keyLevel ∈ keys

/-- Without the slips of the loader: no module names one other twice, and nothing of a module whose
init fails runs when its memory is released. -/
def World.Allows (w : World) : Step → Prop
  | .link => ∀ slot file, w.loader = .reserved slot file → w.rejects slot file = false → (w.mods slot).deps.Nodup
  | .clear => ∀ slot, w.loader = .failed slot → ∀ a ∈ w.active, a.owner ≠ slot
  | .dispatch .apic selects =>
      ∀ slot sources, w.loader = .dropping slot sources → ∀ e ∈ w.reached .apic selects, e.owner ≠ slot
  | _ => True

theorem World.Sound.dispatch (sound : w.Sound keys) {kind : Kind} {selects : Entry → Bool}
    (allowed : w.Allows (.dispatch kind selects)) : (w.dispatch kind selects).Callbacks := by
  have reached : ∀ e ∈ w.reached kind selects, e ∈ w.tables kind ∧ e.used = true ∧
    (w.mods e.owner).unloading = false := by
    intro e member
    obtain ⟨isIn, goes⟩ := List.mem_filter.mp member
    simp only [Bool.and_eq_true, Bool.not_eq_true'] at goes
    exact ⟨isIn, goes.1.1.1, goes.2⟩
  have members : ∀ a ∈ (w.dispatch kind selects).active,
      (∃ e ∈ w.reached kind selects, a = ⟨e.owner, e.gen⟩) ∨ a ∈ w.active := by
    intro a member
    rcases List.mem_append.mp member with new | old
    · obtain ⟨e, isReached, rfl⟩ := List.mem_map.mp new
      exact .inl ⟨e, isReached, rfl⟩
    · exact .inr old
  refine { entry := sound.callbacks.entry, bare := sound.callbacks.bare, running := ?_, counted := ?_, quiet := ?_ }
  · intro a member
    rcases members a member with ⟨e, isReached, rfl⟩ | old
    · exact sound.callbacks.entry kind e (reached e isReached).1 (reached e isReached).2.1
    · exact sound.callbacks.running a old
  · intro s used
    have counted := sound.callbacks.counted s used
    have mapped : ((w.reached kind selects).map fun e => (⟨e.owner, e.gen⟩ : Active)).countP (fun a => decide (a.owner = s)) =
        (w.reached kind selects).countP fun e => decide (e.owner = s) := List.countP_map ..
    simp only [World.dispatch, List.countP_append, mapped]
    omega
  · intro slot isSlot isQuiet a member
    rcases members a member with ⟨e, isReached, rfl⟩ | old
    · obtain ⟨isIn, used, stays⟩ := reached e isReached
      have bare := sound.callbacks.bare slot
      rintro rfl
      cases loader : w.loader with
      | idle => rw [World.dispatch, loader] at isSlot; cases isSlot
      | initing | failed => rw [World.dispatch, loader] at isQuiet; cases isQuiet
      | reserved s file =>
        rw [loader] at bare
        exact absurd (bare [] (loader ▸ isSlot) rfl kind e isIn used rfl).2 List.not_mem_nil
      | rejected s =>
        rw [loader] at bare
        exact absurd (bare [] (loader ▸ isSlot) rfl kind e isIn used rfl).2 List.not_mem_nil
      | exiting s | left s =>
        have going := sound.ledger.unloading e.owner isSlot true (by rw [loader]; rfl)
        rw [going] at stays
        cases stays
      | dropping s sources =>
        rw [loader] at bare
        have isApic := (bare sources (loader ▸ isSlot) rfl kind e isIn used rfl).1
        subst isApic
        have isOwner : s = e.owner := by
          have isSlot : w.loader.slot = some e.owner := isSlot
          rw [loader] at isSlot
          exact Option.some.inj isSlot
        exact allowed s sources loader e isReached isOwner.symm
    · exact sound.callbacks.quiet slot isSlot isQuiet a old

theorem World.Callbacks.finish (callbacks : w.Callbacks) {k : Nat} {lost : Bool} :
    (w.finish k lost).Callbacks := by
  unfold World.finish
  split
  · exact callbacks
  · next a isA =>
    obtain ⟨inside, isAt⟩ := List.getElem?_eq_some_iff.mp isA
    have subset : ∀ b ∈ w.active.eraseIdx k, b ∈ w.active := fun b => List.mem_of_mem_eraseIdx
    have split : ∀ s, w.active.countP (fun b => decide (b.owner = s)) =
        (w.active.eraseIdx k).countP (fun b => decide (b.owner = s)) + if a.owner = s then 1 else 0 := by
      intro s
      rw [← (List.getElem_cons_eraseIdx_perm inside).countP_eq, List.countP_cons, isAt]
      simp only [decide_eq_true_eq]
    generalize isMods : (if lost then w.mods else update w.mods a.owner
      { w.mods a.owner with inflight := (w.mods a.owner).inflight - 1 }) = mods
    have used : ∀ s, (mods s).used = (w.mods s).used := by
      intro s
      rw [← isMods]
      split
      · rfl
      · by_cases same : s = a.owner
        · rw [same, update_self]
        · rw [update_of_ne same]
    have gen : ∀ s, (mods s).gen = (w.mods s).gen := by
      intro s
      rw [← isMods]
      split
      · rfl
      · by_cases same : s = a.owner
        · rw [same, update_self]
        · rw [update_of_ne same]
    have inflight : ∀ s, (w.mods s).inflight - (if a.owner = s then 1 else 0) ≤
      (mods s).inflight := by
      intro s
      rw [← isMods]
      cases lost with
      | true =>
        rw [if_pos rfl]
        split <;> omega
      | false =>
        rw [if_neg Bool.false_ne_true]
        by_cases same : s = a.owner
        · rw [same, update_self, if_pos rfl]
        · rw [update_of_ne same, if_neg (Ne.symm same)]
          omega
    constructor
    · intro kind e member usedE
      rw [used, gen]
      exact callbacks.entry kind e member usedE
    · intro b member
      rw [used, gen]
      exact callbacks.running b (subset b member)
    · intro s usedS
      dsimp only at usedS ⊢
      have counted := callbacks.counted s (used s ▸ usedS)
      have bound := inflight s
      rw [split s] at counted
      split at counted <;> split at bound <;> omega
    · exact fun slot isSlot isQuiet b member => callbacks.quiet slot isSlot isQuiet b (subset b member)
    · exact callbacks.bare

theorem register_alike {kind : Kind} {fn key : Nat} {lineFree : Bool} :
    (w.register slot kind fn key lineFree).mods = w.mods ∧
      (w.register slot kind fn key lineFree).loader = w.loader ∧ (w.register slot kind fn key lineFree).nextGen = w.nextGen ∧
        (w.register slot kind fn key lineFree).freed = w.freed := by
  unfold World.register
  split
  · split <;> exact ⟨rfl, rfl, rfl, rfl⟩
  · exact ⟨rfl, rfl, rfl, rfl⟩

theorem unregister_alike {kind : Kind} {fn key : Nat} :
    (w.unregister slot kind fn key).mods = w.mods ∧
      (w.unregister slot kind fn key).loader = w.loader ∧
      (w.unregister slot kind fn key).nextGen = w.nextGen ∧
      (w.unregister slot kind fn key).freed = w.freed := by
  unfold World.unregister
  split <;> exact ⟨rfl, rfl, rfl, rfl⟩

theorem dispatch_alike {kind : Kind} {selects : Entry → Bool} : w.Alike (w.dispatch kind selects) :=
  fun _ => ⟨_, rfl⟩

theorem finish_alike {k : Nat} {lost : Bool} : w.Alike (w.finish k lost) := by
  unfold World.finish
  split
  · exact .refl rfl
  · next a isA =>
    cases lost with
    | true => exact .refl rfl
    | false =>
      intro s
      by_cases same : s = a.owner
      · exact ⟨(w.mods a.owner).inflight - 1, by rw [same]; exact update_self ..⟩
      · exact ⟨(w.mods s).inflight, update_of_ne same ..⟩

theorem finish_others {k : Nat} {lost : Bool} : (w.finish k lost).loader = w.loader ∧
    (w.finish k lost).nextGen = w.nextGen ∧ (w.finish k lost).freed = w.freed := by
  unfold World.finish
  split <;> exact ⟨rfl, rfl, rfl⟩

theorem World.Ledger.callback (ledger : w.Ledger keys) (alike : w.Alike w')
    (loader : w'.loader = w.loader) (nextGen : w'.nextGen = w.nextGen)
    (freed : w'.freed = w.freed) : w'.Ledger keys :=
  ledger.frame alike nextGen freed (by rw [loader]) (by rw [loader])
    (by rw [loader]; exact fun _ is => is) (by rw [loader]; exact fun _ _ is => is)

theorem field_update {α : Type} (f : Mod → α) {mods counted : Nat → Mod} {m : Mod}
    (atSlot : f m = f (mods slot)) (away : ∀ s, f (counted s) = f (mods s)) (s : Nat) :
    f (update counted slot m s) = f (mods s) := by
  by_cases same : s = slot
  · rw [same, update_self, atSlot]
  · rw [update_of_ne same, away]

theorem World.Callbacks.unlink (callbacks : w.Callbacks) {after : Loader}
    (quiet : ∀ s, after.slot = some s → after.quiet = true → ∀ a ∈ w.active, a.owner ≠ s)
    (bare : ∀ s sources, after.slot = some s → after.leftover = some sources →
      ∀ kind, ∀ e ∈ w.tables kind, e.used = true → e.owner = s → kind = .apic ∧ e.key ∈ sources) :
    World.Callbacks { w.unlink slot with loader := after } :=
  callbacks.frame (field_update Mod.used rfl fun _ => rfl) (field_update Mod.gen rfl fun _ => rfl)
    (field_update Mod.inflight rfl fun _ => rfl) (fun _ _ member _ => member) rfl quiet bare

theorem World.Sound.load (sound : w.Sound keys) {file : ModFile} :
    (w.load keys file).Sound keys := by
  unfold World.load
  split
  · next idle =>
    split
    · exact sound
    · next trusted =>
      split
      · exact sound
      · split
        · exact sound
        · next slot found =>
          obtain ⟨unused, inside⟩ := freeSlot_spec found
          split
          · exact sound
          · split
            · exact sound
            · next deps areDeps =>
              have there : ∀ d ∈ deps, (w.mods d).used = true := fun d member =>
                have ⟨_, found⟩ := mapM_mem areDeps member
                find_used found
              exact ⟨sound.ledger.reserve idle unused inside (by_contra fun unknown => trusted (.inl unknown)) there,
                sound.callbacks.reserve unused rfl _⟩
  · exact sound

theorem resolve_level {level : Nat} {deps : List Nat} {i : Import} {need : Nat}
    (resolved : w.resolve level deps i = some (.kernel need)) : need ≤ level := by
  unfold World.resolve at resolved
  split at resolved
  · cases resolved
  · split at resolved
    · split at resolved
      · cases resolved
      · next enough =>
        cases resolved
        exact Nat.le_of_not_lt enough
    · obtain ⟨_, _, other⟩ := Option.map_eq_some_iff.mp resolved
      cases other

theorem bindings_level {file : ModFile} :
    ∀ level ∈ (w.bindings slot file).filterMap (·.bind Binding.kernelLevel), level ≤
    file.level := by
  intro level member
  obtain ⟨binding, isBinding, is⟩ := List.mem_filterMap.mp member
  obtain ⟨i, _, resolved⟩ := List.mem_map.mp isBinding
  obtain ⟨b, rfl, isKernel⟩ := Option.bind_eq_some_iff.mp is
  cases b with
  | kernel need =>
    cases isKernel
    exact resolve_level resolved
  | dependency d => cases isKernel

theorem rejects_level {file : ModFile} (accepted : w.rejects slot file = false) :
    file.level ≤ (w.mods slot).keyLevel := by
  simp only [World.rejects, Bool.or_eq_false_iff, decide_eq_false_iff_not] at accepted
  exact Nat.le_of_not_lt accepted.1.1.1.1.1.1.2

theorem World.Sound.link (sound : w.Sound keys) (allowed : w.Allows .link) : w.link.Sound keys := by
  unfold World.link
  split
  · next slot file isReserved =>
    have isSlot : w.loader.slot = some slot := by rw [isReserved]; rfl
    split
    · next rejected =>
      refine ⟨sound.ledger.frame (.refl rfl) rfl rfl isSlot.symm (by rw [isReserved]; rfl) (by rw [isReserved]; exact fun _ is => is)
        nofun, ?_⟩
      exact sound.callbacks.frame (fun _ => rfl) (fun _ => rfl) (fun _ => rfl) (fun _ _ member _ => member) rfl
        (by rintro _ ⟨rfl⟩ _; exact sound.callbacks.quiet slot isSlot (by rw [isReserved]; rfl))
        (by rintro _ _ ⟨rfl⟩ ⟨rfl⟩; exact sound.callbacks.bare slot [] isSlot (by rw [isReserved]; rfl))
    · next accepted =>
      have accepted := Bool.eq_false_iff.mpr accepted
      have below := @bindings_level w slot file
      refine ⟨sound.ledger.count isReserved (allowed slot file isReserved accepted) below (rejects_level accepted)
        (update_self (f := fun s => { w.mods s with refs := (w.mods s).refs + (w.mods slot).deps.count s }) ..)
        (fun s other => update_of_ne
          (f := fun s => { w.mods s with refs := (w.mods s).refs + (w.mods slot).deps.count s }) other ..)
        rfl rfl rfl, ?_⟩
      exact sound.callbacks.frame (field_update Mod.used rfl fun _ => rfl) (field_update Mod.gen rfl fun _ => rfl)
        (field_update Mod.inflight rfl fun _ => rfl) (fun _ _ member _ => member) rfl
        (fun _ _ isQuiet => nomatch isQuiet) (fun _ _ _ leftover => nomatch leftover)
  · exact sound

theorem World.Sound.initReturns (sound : w.Sound keys) {ok : Bool} :
    (w.initReturns ok).Sound keys := by
  unfold World.initReturns
  split
  · next slot initing =>
    split
    · exact ⟨sound.ledger.settle initing, sound.callbacks.frame (fun _ => rfl) (fun _ => rfl) (fun _ => rfl)
        (fun _ _ member _ => member) rfl nofun nofun⟩
    · refine ⟨sound.ledger.uncount initing rfl rfl rfl rfl (fun _ is => is) nofun, ?_⟩
      exact sound.callbacks.unlink (fun _ _ isQuiet => nomatch isQuiet) (fun _ _ _ leftover => nomatch leftover)
  · exact sound

theorem World.Sound.unload (sound : w.Sound keys) {name : String} : (w.unload name).Sound keys := by
  unfold World.unload
  split
  · next idle =>
    split
    · exact sound
    · next slot named =>
      have isNamed := List.find?_some named
      have used : (w.mods slot).used = true := (Bool.and_eq_true_iff.mp isNamed).1
      dsimp only
      split
      · next can =>
        obtain ⟨unneeded, _, still⟩ := can
        refine ⟨sound.ledger.leave idle used unneeded, ?_⟩
        refine sound.callbacks.frame (field_update Mod.used rfl fun _ => rfl) (field_update Mod.gen rfl fun _ => rfl)
          (field_update Mod.inflight rfl fun _ => rfl) (fun _ _ member _ => member) rfl ?_
          (fun _ _ _ leftover => nomatch leftover)
        -- nothing is counted, so nothing runs
        rintro _ ⟨rfl⟩ _ a member owner
        have counted := sound.callbacks.counted slot used
        have some : 0 < w.active.countP fun a => decide (a.owner = slot) :=
          List.countP_pos_iff.mpr ⟨a, member, decide_eq_true owner⟩
        omega
      · exact sound
  · exact sound

theorem World.Sound.exitReturns (sound : w.Sound keys) : w.exitReturns.Sound keys := by
  unfold World.exitReturns
  split
  · next slot exiting =>
    refine ⟨sound.ledger.uncount exiting rfl rfl rfl rfl (fun _ is => is) nofun, ?_⟩
    refine sound.callbacks.unlink ?_ (fun _ _ _ leftover => nomatch leftover)
    rintro _ ⟨rfl⟩ _
    exact sound.callbacks.quiet slot (by rw [exiting]; rfl) (by rw [exiting]; rfl)
  · exact sound

theorem World.Sound.clearTables (sound : w.Sound keys) (isSlot : w.loader.slot = some slot)
    (unlinked : w.loader.linked = false) (quiet : ∀ a ∈ w.active, a.owner ≠ slot) :
    (w.clearTables slot).Sound keys := by
  have entries : ∀ kind, ∀ e ∈ (w.clearTables slot).tables kind, e.used = true →
      e ∈ w.tables kind ∧ (e.owner = slot → kind = .apic) := by
    intro kind e member used
    by_cases isApic : kind = .apic
    · simp only [World.clearTables, if_pos isApic] at member
      exact ⟨member, fun _ => isApic⟩
    · simp only [World.clearTables, if_neg isApic] at member
      obtain ⟨old, stays⟩ := mem_drop member used
      exact ⟨old, fun owner => absurd owner (of_decide_eq_false stays)⟩
  refine ⟨sound.ledger.frame (.refl rfl) rfl rfl isSlot.symm unlinked.symm nofun nofun, ?_⟩
  refine sound.callbacks.frame (fun _ => rfl) (fun _ => rfl) (fun _ => rfl)
    (fun kind e member used => (entries kind e member used).1) rfl ?_ ?_
  · rintro _ ⟨rfl⟩ _
    exact quiet
  · rintro _ _ ⟨rfl⟩ ⟨rfl⟩ kind e member used owner
    obtain ⟨old, mustBe⟩ := entries kind e member used
    have isApic := mustBe owner
    subst isApic
    exact ⟨rfl, List.mem_map.mpr ⟨e,
      List.mem_filter.mpr ⟨old, by rw [used, decide_eq_true owner]; rfl⟩, rfl⟩⟩

theorem World.Sound.clear (sound : w.Sound keys) (allowed : w.Allows .clear) :
    w.clear.Sound keys := by
  unfold World.clear
  split
  · next slot rejected =>
    have isSlot : w.loader.slot = some slot := by rw [rejected]; rfl
    exact sound.clearTables isSlot (by rw [rejected]; rfl)
      (sound.callbacks.quiet slot isSlot (by rw [rejected]; rfl))
  · next slot failed =>
      exact sound.clearTables (by rw [failed]; rfl) (by rw [failed]; rfl) (allowed slot failed)
  · next slot left =>
    have isSlot : w.loader.slot = some slot := by rw [left]; rfl
    exact sound.clearTables isSlot (by rw [left]; rfl)
      (sound.callbacks.quiet slot isSlot (by rw [left]; rfl))
  · exact sound

theorem World.Sound.apicDrop (sound : w.Sound keys) : w.apicDrop.Sound keys := by
  unfold World.apicDrop
  split
  · next slot source rest dropping =>
    have isSlot : w.loader.slot = some slot := by rw [dropping]; rfl
    have bare := sound.callbacks.bare slot (source :: rest) isSlot (by rw [dropping]; rfl)
    have entries : ∀ kind, ∀ e ∈ update w.tables .apic
        ((w.tables .apic).drop fun e => decide (e.owner = slot ∧ e.key = source)) kind,
        e.used = true → e ∈ w.tables kind ∧ (kind = .apic → e.owner = slot → e.key ≠ source) := by
      intro kind e member used
      by_cases isApic : kind = .apic
      · subst isApic
        obtain ⟨old, stays⟩ := mem_drop member used
        exact ⟨old, fun _ owner key => of_decide_eq_false stays ⟨owner, key⟩⟩
      · rw [Function.update_of_ne isApic] at member
        exact ⟨member, fun is => absurd is isApic⟩
    refine ⟨sound.ledger.frame (.refl rfl) rfl rfl isSlot.symm (by rw [dropping]; rfl) nofun nofun,
      ?_⟩
    refine sound.callbacks.frame (fun _ => rfl) (fun _ => rfl) (fun _ => rfl)
      (fun kind e member used => (entries kind e member used).1) rfl ?_ ?_
    · rintro _ ⟨rfl⟩ _
      exact sound.callbacks.quiet slot isSlot (by rw [dropping]; rfl)
    · rintro _ _ ⟨rfl⟩ ⟨rfl⟩ kind e member used owner
      obtain ⟨old, gone⟩ := entries kind e member used
      obtain ⟨isApic, key⟩ := bare kind e old used owner
      exact ⟨isApic, (List.mem_cons.mp key).resolve_left (gone isApic owner)⟩
  · exact sound

theorem World.Sound.free (sound : w.Sound keys) : w.free.Sound keys := by
  cases loader : w.loader with
  | dropping slot sources =>
    cases sources with
    | nil => exact ⟨sound.ledger.free loader, sound.callbacks.free loader⟩
    | cons source rest =>
      rw [World.free, loader]
      exact sound
  | _ =>
    rw [World.free, loader]
    exact sound

theorem start_sound : World.Sound keys World.start := by
  have unused : ∀ kind, ∀ e ∈ World.start.tables kind, e.used = true → False := by
    intro kind e member used
    rw [List.eq_of_mem_replicate member] at used
    cases used
  refine ⟨⟨⟨nofun, nofun, nofun, nofun⟩, fun d => ?_, nofun, nofun, nofun, nofun, nofun, nofun,
    nofun, nofun⟩,
    ⟨fun kind e member used => (unused kind e member used).elim, nofun, nofun, nofun, nofun⟩⟩
  rfl

theorem World.Sound.step {step : Step} (sound : w.Sound keys) (allowed : w.Allows step) :
    (w.step keys step).Sound keys := by
  cases step with
  | load file => exact sound.load
  | link => exact sound.link allowed
  | initReturns ok => exact sound.initReturns
  | unload name => exact sound.unload
  | exitReturns => exact sound.exitReturns
  | clear => exact sound.clear allowed
  | apicDrop => exact sound.apicDrop
  | free => exact sound.free
  | register slot kind fn key lineFree =>
    obtain ⟨mods, loader, nextGen, freed⟩ := @register_alike w slot kind fn key lineFree
    exact ⟨sound.ledger.callback (.refl mods) loader nextGen freed, sound.register⟩
  | unregister slot kind fn key =>
    obtain ⟨mods, loader, nextGen, freed⟩ := @unregister_alike w slot kind fn key
    exact ⟨sound.ledger.callback (.refl mods) loader nextGen freed, sound.callbacks.unregister⟩
  | dispatch kind selects =>
    exact ⟨sound.ledger.callback dispatch_alike rfl rfl rfl, sound.dispatch allowed⟩
  | finish k lost =>
    obtain ⟨loader, nextGen, freed⟩ := @finish_others w k lost
    exact ⟨sound.ledger.callback finish_alike loader nextGen freed, sound.callbacks.finish⟩

theorem World.Sound.ok (sound : w.Sound keys) : w.Ok keys := by
  constructor
  · intro a member
    obtain ⟨used, gen⟩ := sound.callbacks.running a member
    rw [gen]
    exact (sound.ledger.numbered.young a.owner used).2
  · intro kind e member used
    obtain ⟨usedOwner, gen⟩ := sound.callbacks.entry kind e member used
    rw [gen]
    exact (sound.ledger.numbered.young e.owner usedOwner).2
  · exact sound.ledger.refs
  · intro idle s
    cases used : (w.mods s).used with
    | true => exact (sound.ledger.others s used (by rw [idle]; nofun)).1
    | false =>
      refine Bool.eq_false_iff.mpr fun linked => ?_
      rw [(sound.ledger.loaded s linked).1] at used
      cases used
  · exact fun kind e member used => (sound.callbacks.entry kind e member used).1
  · exact sound.ledger.levels

/-- However loads, unloads, registrations and dispatches follow each other, no callback runs in a
module that is gone, the references are right, every entry has its module, and no module has more
than its key may give. -/
theorem modules_ok (reached : Lib.Reaches (World.step keys) World.Allows World.start w) :
    w.Ok keys :=
  (reached.invariant start_sound fun _ _ sound allowed => sound.step allowed : w.Sound keys).ok

def driverFile : ModFile where
  keyId := levelDevice
  signature := true
  wellFormed := true
  needed := []
  mapOk := true
  abiOk := true
  level := levelDevice
  imports := [⟨"cosys_subscribe", false, false⟩, ⟨"cosys_inb", false, false⟩]
  exports := []
  protectOk := true
  metadataOk := true
  name := "drv"

def loadDriver : List Step :=
  [.load driverFile, .link, .register 0 .event 4096 1 true, .dispatch .event fun _ => true]

def unloadDriver : List Step :=
  loadDriver ++ [.initReturns true, .finish 0 false, .unload "drv", .exitReturns, .clear, .free]

theorem modules_ok_driver :
    (Lib.runSteps (World.step [levelDevice]) World.start unloadDriver).Ok [levelDevice] := by
  refine modules_ok (Lib.Reaches.refl.runSteps ⟨trivial, ?_, trivial, trivial, trivial, trivial,
    trivial, trivial, ?_, trivial, trivial⟩)
  · rintro slot file ⟨rfl⟩ _
    decide
  · nofun

/-- Init registers, another processor dispatches, init fails: the callback is still running when its
pages are freed. -/
theorem driver_freed : ¬ ∀ (keys : List Nat) (w : World),
    Lib.Reaches (World.step keys) (fun _ _ => True) World.start w → w.Ok keys := by
  intro claimed
  have ok := claimed [levelDevice] _ (Lib.Reaches.refl.runSteps (Lib.stepsAllowed_true World.start
    (loadDriver ++ [.initReturns false, .clear, .free])))
  have runs : (⟨0, 0⟩ : Active) ∈
      (Lib.runSteps (World.step [levelDevice]) World.start (loadDriver ++ [.initReturns false, .clear, .free])).active := by
    decide
  have gone : 0 ∈
      (Lib.runSteps (World.step [levelDevice]) World.start (loadDriver ++ [.initReturns false, .clear, .free])).freed := by
    decide
  exact ok.alive _ runs gone

end Cos.Kmod
