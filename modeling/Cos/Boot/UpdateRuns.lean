import Cos.Boot.Update

/-! # Updates over whole runs -/

namespace Cos.Boot

open Cos.Lib
open Function (update update_of_ne update_self)

variable {build : Build} {w w' : World} {k : Kernel} {slot t : Slot} {serial len : Nat}
  {views : Views}

def Build.Signed (build : Build) (payload : Image) (serial : Nat) : Prop :=
  ∃ serialBytes sig, serialBytes.length = 8 ∧ littleEndian serialBytes = serial ∧
    build.vrfy (build.sha256 (payload ++ cosKser1 ++ serialBytes)) sig = true

/-- Bootable and signed.  A trial kernel that runs is not above itself. -/
structure World.Safe (build : Build) (w : World) : Prop where
  activeClosed : w.activeOpened = false
  activeProven : w.slots w.env.activeSlot ∈ w.proven
  signed : ∀ t, w.env.trial = some t → build.Signed (w.slots t) w.env.trialSerial
  aboveRunning : ∀ t, w.env.trial = some t → ∀ k ∈ w.running,
    (k.slot = t ∧ k.image = w.slots t) ∨ build.serial k.image < w.env.trialSerial
  aboveBad : ∀ t, w.env.trial = some t → w.env.badSerial < w.env.trialSerial
  notRestaged : w.restaged = false

/-- The serial that is read is the one that is hashed, and a payload that is
written otherwise than it was hashed does not pass the comparison. -/
def Views.Steady (build : Build) (views : Views) (len : Nat) : Prop :=
  views.bytes .serial (len - trailer + 8) 8 = views.bytes .hashedSerial (len - trailer + 8) 8 ∧
    (views.bytes .written 0 (len - trailer) = views.bytes .hashed 0 (len - trailer) ∨
      build.sha256 (views.bytes .compared 0 (len - trailer)) ≠ build.sha256 (views.bytes .written 0 (len - trailer)))

def World.Tried (w : World) : Prop :=
  ∃ t, w.env.trial = some t ∧ w.env.trialSeen = true ∧ ∀ k ∈ w.running, k.slot ≠ t

/-- * A start whose trial kernel does not start saves that it was tried.
* An install finds the blob at rest, no failure that is not noted yet, and,
  where a kernel runs that is not the active one, a serial above the active
  one's too.
* A kernel that confirms itself has not had its slot written since it started. -/
def World.Proper (build : Build) (w : World) : Step → Prop
  | .start saved entry => w.env.trialSeen = false → w.env.trialFails entry = true → saved = true
  | .install len views luck => ∀ k ∈ w.running, ∀ serial, w.accepted build k len views luck.loaded = some serial →
      views.Steady build len ∧ w.env.failed = none ∧ ¬ w.Tried ∧
        (k.slot ≠ w.env.activeSlot → build.serial (w.slots w.env.activeSlot) < serial)
  | .confirm _ _ => ∀ k ∈ w.running, k.rewritten = true → w.env.trial ≠ some k.slot
  | _ => True

structure Sound (build : Build) (w : World) : Prop where
  closed : w.activeOpened = false
  notRestaged : w.restaged = false
  proven : w.slots w.env.activeSlot ∈ w.proven
  staged : ∀ t, w.env.trial = some t → t = w.env.activeSlot.other ∧ w.env.failed = none ∧
    build.Signed (w.slots t) w.env.trialSerial ∧ w.env.badSerial < w.env.trialSerial ∧
    build.serial (w.slots w.env.activeSlot) < w.env.trialSerial
  loaded : ∀ k ∈ w.running, k.rewritten = false → k.image = w.slots k.slot
  kept : ∀ k ∈ w.running, k.rewritten = true → k.slot = w.env.activeSlot.other
  above : ∀ t, w.env.trial = some t → ∀ k ∈ w.running, k.rewritten = true →
    build.serial k.image < w.env.trialSerial
  /-- A failure is noted, or is the trial's that is still to be noted. -/
  failures : ∀ s ∈ w.failures, s ≤ w.env.badSerial ∨
    s = w.env.trialSerial ∧ (w.env.failed ≠ none ∨ w.Tried)

theorem Slot.eq_or_other (slot t : Slot) : t = slot ∨ t = slot.other := by
  cases slot <;> cases t <;> decide

theorem Sound.safe (sound : Sound build w) : w.Safe build where
  activeClosed := sound.closed
  activeProven := sound.proven
  signed := fun t isTrial => (sound.staged t isTrial).2.2.1
  aboveRunning := fun t isTrial k runs => by
    cases isRewritten : k.rewritten with
    | true => exact .inr (sound.above t isTrial k runs isRewritten)
    | false =>
        obtain ⟨isOther, -, -, -, above⟩ := sound.staged t isTrial
        have isImage := sound.loaded k runs isRewritten
        rcases w.env.activeSlot.eq_or_other k.slot with isActive | same
        · right
          rw [isImage, isActive]
          exact above
        · have isTrialSlot : k.slot = t := same.trans isOther.symm
          exact .inl ⟨isTrialSlot, isTrialSlot ▸ isImage⟩
  aboveBad := fun t isTrial => (sound.staged t isTrial).2.2.2.1
  notRestaged := sound.notRestaged

theorem Sound.fresh (active : Option Slot) (badSerial : Nat) (slots : Slot → Image) :
    Sound build (World.fresh active badSerial slots) where
  closed := rfl
  notRestaged := rfl
  proven := List.mem_singleton.mpr rfl
  staged := nofun
  loaded := nofun
  kept := nofun
  above := nofun
  failures := nofun

theorem Sound.off (sound : Sound build w) : Sound build w.off :=
  { sound with
    loaded := nofun
    kept := nofun
    above := nofun
    failures := fun s failed => by
      refine (sound.failures s failed).imp_right (.imp_right (.imp_right ?_))
      rintro ⟨t, isTrial, seen, -⟩
      exact ⟨t, isTrial, seen, nofun⟩ }

theorem Sound.took {effect : World → World} (sound : Sound build w) (after : Sound build (effect w))
    (took : Bool) : Sound build (w.took effect took) := by
  unfold World.took
  split
  · exact after
  · exact sound

theorem Sound.envStore {effect next : World → World} (sound : Sound build w)
    (after : Sound build (effect w)) (goesOn : Sound build (next (effect w))) (luck : Luck) :
    Sound build (w.envStore effect luck next) := by
  cases luck with
  | done => exact goesOn
  | failed took => exact sound.took after took
  | stopped took => exact (sound.took after took).off

theorem signatureOk_spec (accepted : signatureOk build views len = some serial) :
    littleEndian (views.bytes .serial (len - trailer + 8) 8) = serial ∧
      ∃ sig, build.vrfy (build.sha256 (views.bytes .hashed 0 (len - trailer) ++ cosKser1 ++
        views.bytes .hashedSerial (len - trailer + 8) 8)) sig = true := by
  unfold signatureOk at accepted
  split at accepted
  · cases accepted
  · simp only at accepted
    split at accepted
    · cases accepted
    · split at accepted
      · next verified =>
        cases accepted
        exact ⟨rfl, _, verified⟩
      · cases accepted

theorem accepted_spec {loaded : Bool}
    (accepted : w.accepted build k len views loaded = some serial) :
    signatureOk build views len = some serial ∧ build.serial k.image < serial ∧
    w.env.badSerial < serial := by
  unfold World.accepted at accepted
  split at accepted
  · cases accepted
  · split at accepted
    · cases accepted
    · split at accepted
      · cases accepted
      · next signed =>
        split at accepted
        · cases accepted
        · split at accepted
          · cases accepted
          · split at accepted
            · cases accepted
            · next newer =>
              split at accepted
              · cases accepted
              · next above =>
                cases accepted
                exact ⟨signed, Nat.lt_of_not_le newer, Nat.lt_of_not_le above⟩

theorem Views.Steady.signed (steady : views.Steady build len)
    (accepted : signatureOk build views len = some serial)
    (compared : build.sha256 (views.bytes .compared 0 (len - trailer)) =
    build.sha256 (views.bytes .written 0 (len - trailer))) :
    build.Signed (views.bytes .written 0 (len - trailer)) serial := by
  obtain ⟨isSerial, sig, verified⟩ := signatureOk_spec accepted
  have written := steady.2.resolve_right fun differs => differs compared
  refine ⟨views.bytes .hashedSerial (len - trailer + 8) 8, sig, ?_, ?_, ?_⟩
  · simp [Views.bytes]
  · rw [← steady.1]
    exact isSerial
  · rw [written]
    exact verified

/-- What an install that may go on leaves when it has taken the trial away. -/
structure Cleared (build : Build) (w : World) : Prop where
  sound : Sound build w
  noTrial : w.env.trial = none
  noted : ∀ s ∈ w.failures, s ≤ w.env.badSerial

theorem Sound.noted (sound : Sound build w) (noFailure : w.env.failed = none)
    (notTried : ¬ w.Tried) : ∀ s ∈ w.failures, s ≤ w.env.badSerial := fun s failed =>
  (sound.failures s failed).resolve_right fun unnoted => unnoted.2.elim (· noFailure) notTried

theorem Sound.clearTrial (sound : Sound build w) (noFailure : w.env.failed = none)
    (notTried : ¬ w.Tried) : Cleared build w.clearTrial where
  sound :=
    { sound with
      staged := nofun
      above := nofun
      failures := fun s failed => .inl (sound.noted noFailure notTried s failed) }
  noTrial := rfl
  noted := sound.noted noFailure notTried

theorem Cleared.fill (cleared : Cleared build w) (content : Image) :
    Cleared build (w.fill w.env.activeSlot.other content) := by
  have sound := cleared.sound
  have away : w.env.activeSlot.other ≠ w.env.activeSlot := Slot.other_ne _
  refine ⟨?_, cleared.noTrial, cleared.noted⟩
  refine
    { sound with
      closed := ?_
      proven := ?_
      staged := fun t isTrial => ?_
      loaded := fun k runs notRewritten => ?_
      kept := fun k runs isRewritten => ?_
      above := fun t isTrial => ?_
      failures := fun s failed => .inl (cleared.noted s failed) }
  · change (w.activeOpened || decide (w.env.activeSlot.other = w.env.activeSlot)) = false
    rw [sound.closed, decide_eq_false away]
    rfl
  · change update w.slots w.env.activeSlot.other content w.env.activeSlot ∈ w.proven
    rw [update_of_ne away.symm]
    exact sound.proven
  · exact absurd (cleared.noTrial ▸ isTrial : none = some t) nofun
  · obtain ⟨k, before, rfl⟩ := Option.map_eq_some_iff.mp runs
    obtain ⟨was, elsewhere⟩ := Bool.or_eq_false_iff.mp notRewritten
    change k.image = update w.slots w.env.activeSlot.other content k.slot
    rw [update_of_ne (of_decide_eq_false elsewhere)]
    exact sound.loaded k before was
  · obtain ⟨k, before, rfl⟩ := Option.map_eq_some_iff.mp runs
    rcases Bool.or_eq_true_iff.mp isRewritten with was | here
    · exact sound.kept k before was
    · exact of_decide_eq_true here
  · exact absurd (cleared.noTrial ▸ isTrial : none = some t) nofun

theorem Cleared.setTrial (cleared : Cleared build w) (noFailure : w.env.failed = none)
    (signed : build.Signed (w.slots w.env.activeSlot.other) serial) (bad : w.env.badSerial < serial)
    (active : build.serial (w.slots w.env.activeSlot) < serial)
    (runs : ∀ k ∈ w.running, build.serial k.image < serial) :
    Sound build (w.setTrial w.env.activeSlot.other serial) :=
  { cleared.sound with
    notRestaged := by
      have notFailed : serial ∉ w.failures := fun failed => Nat.not_le_of_lt bad (cleared.noted serial failed)
      change (w.restaged || decide (serial ∈ w.failures)) = false
      rw [cleared.sound.notRestaged, decide_eq_false notFailed]
      rfl
    staged := fun t isTrial => by
      cases isTrial
      exact ⟨rfl, noFailure, signed, bad, active⟩
    above := fun t isTrial k running _ => runs k running
    failures := fun s failed => .inl (cleared.noted s failed) }

theorem Sound.install {luck : InstallLuck} (sound : Sound build w) (runs : w.running = some k)
    (proper : w.Proper build (.install len views luck)) :
    Sound build (w.install build k len views luck) := by
  unfold World.install
  split
  · exact sound
  · next serial accepted =>
    obtain ⟨steady, noFailure, notTried, aboveActive⟩ := proper k runs serial accepted
    obtain ⟨isSigned, aboveRunning, aboveBad⟩ := accepted_spec accepted
    have cleared := sound.clearTrial noFailure notTried
    have active : build.serial (w.slots w.env.activeSlot) < serial := by
      by_cases isActive : k.slot = w.env.activeSlot
      · have notRewritten : k.rewritten = false := by
          cases isRewritten : k.rewritten with
          | true => exact absurd (isActive.symm.trans (sound.kept k runs isRewritten)) (Slot.other_ne _).symm
          | false => rfl
        rw [← isActive, ← sound.loaded k runs notRewritten]
        exact aboveRunning
      · exact aboveActive isActive
    refine sound.envStore cleared.sound ?_ luck.cleared
    cases isFile : luck.file with
    | failed left => exact (cleared.fill left).sound
    | stopped left => exact (cleared.fill left).sound.off
    | done =>
      have filled := cleared.fill (views.bytes .written 0 (len - trailer))
      change Sound build (World.stage build (w.clearTrial.fill w.env.activeSlot.other (views.bytes .written 0 (len - trailer)))
        w.env.activeSlot.other serial (views.bytes .compared 0 (len - trailer)) luck)
      unfold World.stage
      split
      · exact filled.sound
      · split
        · exact filled.sound
        · next same =>
          obtain ⟨-, compared⟩ := not_or.mp same
          rw [not_not] at compared
          simp only [World.fill, World.clearTrial, update_self] at compared
          have named : Sound build ((w.clearTrial.fill w.env.activeSlot.other
              (views.bytes .written 0 (len - trailer))).setTrial w.env.activeSlot.other serial) := by
            refine filled.setTrial noFailure ?_ aboveBad ?_ ?_
            · change build.Signed (update w.slots w.env.activeSlot.other _ w.env.activeSlot.other) serial
              rw [update_self]
              exact steady.signed isSigned compared
            · change build.serial (update w.slots w.env.activeSlot.other _ w.env.activeSlot) < serial
              rw [update_of_ne (Slot.other_ne _).symm]
              exact active
            · intro k' running
              obtain ⟨k'', before, rfl⟩ := Option.map_eq_some_iff.mp running
              cases runs.symm.trans before
              exact aboveRunning
          exact filled.sound.envStore named named luck.staged

theorem Env.grub_active (e : Env) : e.grub.1.activeSlot = e.activeSlot := by
  unfold Env.grub
  split
  · rfl
  · split <;> rfl

/-- The block of the next start: GRUB only gives up a trial that was seen, and
only notes it as seen. -/
structure Env.Follows (e e' : Env) : Prop where
  active : e'.activeSlot = e.activeSlot
  bad : e'.badSerial = e.badSerial
  serial : e'.trialSerial = e.trialSerial
  trial : ∀ t, e'.trial = some t → e.trial = some t ∧ e'.failed = e.failed

theorem Env.follows_saved (e : Env) (saved : Bool) : e.Follows (if saved then e.grub.1 else e) := by
  split
  · refine ⟨e.grub_active, ?_, ?_, fun t isTrial => ?_⟩
    · unfold Env.grub
      split
      · rfl
      · split <;> rfl
    · unfold Env.grub
      split
      · rfl
      · split <;> rfl
    · cases was : e.trial with
      | none =>
          simp only [Env.grub, was] at isTrial
          cases isTrial
      | some t' =>
          cases seen : e.trialSeen with
          | true =>
              simp only [Env.grub, was, seen, if_true] at isTrial
              cases isTrial
          | false =>
              simp only [Env.grub, was, seen, Bool.false_eq_true, if_false] at isTrial ⊢
              exact ⟨isTrial, trivial⟩
  · exact ⟨rfl, rfl, rfl, fun t isTrial => ⟨isTrial, rfl⟩⟩

theorem Sound.start_failures {saved : Bool} {entry : Option Entry} (sound : Sound build w)
    (proper : w.Proper build (.start saved entry)) (s : Nat)
    (failed : s ∈ (w.start saved entry).failures) : s ≤ w.env.badSerial ∨
      s = w.env.trialSerial ∧ ((w.start saved entry).env.failed ≠ none ∨ (w.start saved entry).Tried) := by
  change s ∈ (if w.env.trialFails entry then w.env.trialSerial :: w.failures
    else w.failures) at failed
  cases isTrial : w.env.trial with
  | none =>
      have same : (w.start saved entry).env = w.env := by
        simp only [World.start, Env.grub, isTrial, ite_self]
      simp only [Env.trialFails, isTrial, Bool.false_eq_true, if_false] at failed
      refine (sound.failures s failed).imp_right (.imp_right fun unnoted => .inl ?_)
      rw [same]
      exact unnoted.resolve_right fun ⟨t, tried, _⟩ => absurd (isTrial.symm.trans tried) nofun
  | some t =>
      obtain ⟨isOther, noFailure, -⟩ := sound.staged t isTrial
      cases seen : w.env.trialSeen with
      | true =>
          -- GRUB gives the trial up, whether or not it can save so
          have isTrials : s ≤ w.env.badSerial ∨ s = w.env.trialSerial := by
            simp only [Env.trialFails, isTrial, seen, Bool.true_or, if_true] at failed
            rcases List.mem_cons.mp failed with isNew | before
            · exact .inr isNew
            · exact (sound.failures s before).imp_right And.left
          refine isTrials.imp_right fun isSerial => ⟨isSerial, ?_⟩
          cases saved with
          | true =>
              left
              simp only [World.start, Env.grub, isTrial, seen, if_true]
              exact nofun
          | false =>
              refine .inr ⟨t, isTrial, seen, fun k runs => ?_⟩
              obtain ⟨entry, -, rfl⟩ := Option.map_eq_some_iff.mp runs
              have isActive : w.env.startSlot entry = w.env.activeSlot := by
                cases entry <;> simp only [Env.startSlot, Env.grub, isTrial, seen, if_true]
              rw [isActive, isOther]
              exact (Slot.other_ne _).symm
      | false =>
          have noted : ∀ s ∈ w.failures, s ≤ w.env.badSerial := sound.noted noFailure fun ⟨_, _, tried, _⟩ => by
            rw [seen] at tried
            cases tried
          cases fails : w.env.trialFails entry with
          | false =>
              rw [fails] at failed
              exact .inl (noted s failed)
          | true =>
              rw [fails] at failed
              rcases List.mem_cons.mp failed with isNew | before
              · refine .inr ⟨isNew, .inr ⟨t, ?_, ?_, fun k runs => ?_⟩⟩
                · simp only [World.start, Env.grub, isTrial, seen, proper seen fails, Bool.false_eq_true, if_true, if_false]
                · simp only [World.start, Env.grub, isTrial, seen, proper seen fails, Bool.false_eq_true, if_true, if_false]
                · obtain ⟨entry, rfl, rfl⟩ := Option.map_eq_some_iff.mp runs
                  simp only [Env.trialFails, isTrial, seen, Bool.false_or, Option.any_some, decide_eq_true_eq] at fails
                  exact fails
              · exact .inl (noted s before)

theorem Sound.start {saved : Bool} {entry : Option Entry} (sound : Sound build w)
    (proper : w.Proper build (.start saved entry)) : Sound build (w.start saved entry) := by
  have follows := w.env.follows_saved saved
  have started : ∀ k ∈ (w.start saved entry).running, k.rewritten = false ∧
    k.image = w.slots k.slot := by
    intro k runs
    obtain ⟨entry, -, rfl⟩ := Option.map_eq_some_iff.mp runs
    exact ⟨rfl, rfl⟩
  have notRewritten : ∀ k ∈ (w.start saved entry).running, k.rewritten ≠ true :=
    fun k runs isRewritten => by
    rw [(started k runs).1] at isRewritten
    cases isRewritten
  exact
    { closed := sound.closed
      notRestaged := sound.notRestaged
      proven := by
        change w.slots (Env.activeSlot (if saved then w.env.grub.1 else w.env)) ∈ w.proven
        rw [follows.active]
        exact sound.proven
      staged := fun t isTrial => by
        obtain ⟨before, noFailure⟩ := follows.trial t isTrial
        obtain ⟨isOther, none, signed, bad, active⟩ := sound.staged t before
        refine ⟨?_, noFailure.trans none, ?_, ?_, ?_⟩
        · rw [isOther]
          exact congrArg Slot.other follows.active.symm
        · change build.Signed (w.slots t) (Env.trialSerial (if saved then w.env.grub.1 else w.env))
          rw [follows.serial]
          exact signed
        · change Env.badSerial (if saved then w.env.grub.1 else w.env) < Env.trialSerial (if saved then w.env.grub.1 else w.env)
          rw [follows.serial, follows.bad]
          exact bad
        · change build.serial (w.slots (Env.activeSlot (if saved then w.env.grub.1 else w.env))) <
            Env.trialSerial (if saved then w.env.grub.1 else w.env)
          rw [follows.serial, follows.active]
          exact active
      loaded := fun k runs _ => (started k runs).2
      kept := fun k runs isRewritten => absurd isRewritten (notRewritten k runs)
      above := fun t isTrial k runs isRewritten => absurd isRewritten (notRewritten k runs)
      failures := fun s failed => by
        have := sound.start_failures proper s failed
        change s ≤ Env.badSerial (if saved then w.env.grub.1 else w.env) ∨
          s = Env.trialSerial (if saved then w.env.grub.1 else w.env) ∧ _
        rw [follows.serial, follows.bad]
        exact this }

theorem Sound.noteFailed (sound : Sound build w) (isFailed : w.env.failed.isSome = true) :
    Sound build w.noteFailed := by
  have noTrial : w.env.trial = none := by
    cases isTrial : w.env.trial with
    | none => rfl
    | some t =>
        rw [(sound.staged t isTrial).2.1] at isFailed
        cases isFailed
  exact
    { sound with
      staged := fun t isTrial => absurd (noTrial.symm.trans isTrial) nofun
      kept := sound.kept
      above := fun t isTrial => absurd (noTrial.symm.trans isTrial) nofun
      failures := fun s failed => by
        left
        rcases sound.failures s failed with noted | ⟨rfl, -⟩
        · exact Nat.le_trans noted (Nat.le_max_right _ _)
        · exact Nat.le_max_left _ _ }

theorem Sound.knows {k' : Kernel} (sound : Sound build w) (runs : w.running = some k)
    (same : k'.slot = k.slot ∧ k'.image = k.image ∧ k'.rewritten = k.rewritten) :
    Sound build { w with running := some k' } := by
  obtain ⟨slot, image, rewritten⟩ := same
  exact
    { sound with
      loaded := fun _ isK notRewritten => by
        cases isK
        rw [slot, image]
        exact sound.loaded k runs (rewritten ▸ notRewritten)
      kept := fun _ isK isRewritten => by
        cases isK
        rw [slot]
        exact sound.kept k runs (rewritten ▸ isRewritten)
      above := fun t isTrial _ isK isRewritten => by
        cases isK
        rw [image]
        exact sound.above t isTrial k runs (rewritten ▸ isRewritten)
      failures := fun s failed => by
        refine (sound.failures s failed).imp_right (.imp_right (.imp_right ?_))
        rintro ⟨t, isTrial, seen, away⟩
        refine ⟨t, isTrial, seen, fun _ isK => ?_⟩
        cases isK
        rw [slot]
        exact away k runs }

theorem Sound.boot {espOk loaded : Bool} (sound : Sound build w) (runs : w.running = some k)
    (luck : Luck) : Sound build (w.boot k espOk loaded luck) := by
  unfold World.boot
  split
  · exact sound.knows runs ⟨rfl, rfl, rfl⟩
  · split
    · next isFailed =>
      have noted := sound.noteFailed isFailed
      cases luck with
      | done => exact noted.knows runs ⟨rfl, rfl, rfl⟩
      | stopped took => exact (sound.took noted took).off
      | failed took =>
          cases took with
          | true => exact noted.knows runs ⟨rfl, rfl, rfl⟩
          | false => exact sound.knows runs ⟨rfl, rfl, rfl⟩
    · exact sound.knows runs ⟨rfl, rfl, rfl⟩

theorem Sound.makeActive (sound : Sound build w) (runs : w.running = some k)
    (isTrial : w.env.trial = some k.slot) (notRewritten : k.rewritten = false) :
    Sound build (w.makeActive k) where
  closed := sound.closed
  notRestaged := sound.notRestaged
  proven := by
    change w.slots k.slot ∈ k.image :: w.proven
    rw [sound.loaded k runs notRewritten]
    exact List.mem_cons_self
  staged := nofun
  loaded := sound.loaded
  kept := fun k' isK isRewritten => by
    cases runs.symm.trans isK
    rw [notRewritten] at isRewritten
    cases isRewritten
  above := nofun
  failures := fun s failed => by
    obtain ⟨-, noFailure, -⟩ := sound.staged k.slot isTrial
    refine .inl (sound.noted noFailure ?_ s failed)
    rintro ⟨t, tried, -, away⟩
    cases isTrial.symm.trans tried
    exact away k runs rfl

theorem Sound.doConfirm {loaded : Bool} {luck : Luck} (sound : Sound build w)
    (runs : w.running = some k) (proper : w.Proper build (.confirm loaded luck)) :
    Sound build (w.doConfirm k loaded luck) := by
  unfold World.doConfirm
  split
  · next confirms =>
    have notRewritten : k.rewritten = false := by
      cases isRewritten : k.rewritten with
      | true => exact absurd confirms.2.2.2 (proper k runs isRewritten)
      | false => rfl
    have active := sound.makeActive runs confirms.2.2.2 notRewritten
    refine sound.envStore active ?_ luck
    have same : ({ k with trialPending := false } : Kernel).slot = k.slot ∧ ({ k with trialPending := false } : Kernel).image = k.image ∧
        ({ k with trialPending := false } : Kernel).rewritten = k.rewritten := ⟨rfl, rfl, rfl⟩
    have knows := active.knows runs same
    simpa only [World.confirmed, World.makeActive, runs, Option.map_some] using knows
  · exact sound

theorem Sound.forgetBad (sound : Sound build w) (noTrial : w.env.trial = none) :
    Sound build w.forgetBad :=
  { sound with
    staged := fun _ isTrial => absurd (noTrial.symm.trans isTrial) nofun
    kept := sound.kept
    failures := nofun }

theorem Sound.clearBad {loaded : Bool} (sound : Sound build w) (luck : Luck) :
    Sound build (w.clearBad k loaded luck) := by
  unfold World.clearBad
  split
  · next clears =>
    have forgotten := sound.forgetBad clears.2.2
    exact sound.envStore forgotten forgotten luck
  · exact sound

theorem Sound.step (sound : Sound build w) (step : Step) (proper : w.Proper build step) :
    Sound build (w.step build step) := by
  cases step with
  | start saved entry =>
      simp only [World.step]
      split
      · exact sound.start proper
      · exact sound
  | stop => exact sound.off
  | boot espOk loaded luck =>
      simp only [World.step]
      split
      · next k runs =>
        split
        · exact sound
        · exact sound.boot runs luck
      · exact sound
  | install len views luck =>
      simp only [World.step]
      split
      · next k runs =>
        split
        · exact sound.install runs proper
        · exact sound
      · exact sound
  | confirm loaded luck =>
      simp only [World.step]
      split
      · next k runs =>
        split
        · exact sound.doConfirm runs proper
        · exact sound
      · exact sound
  | clearBad loaded luck =>
      simp only [World.step]
      split
      · next k runs =>
        split
        · exact sound.clearBad luck
        · exact sound
      · exact sound

/-- From a disk as it was written, over every run whose steps are proper, the
machine stays bootable and signed. -/
theorem updates_ok (build : Build) (active : Option Slot) (badSerial : Nat) (slots : Slot → Image)
    (reached : Reaches (World.step build) (World.Proper build) (World.fresh active badSerial slots) w) : w.Safe build := by
  have sound : Sound build w := reached.invariant (Sound.fresh active badSerial slots)
    fun _ step sound proper => sound.step step proper
  exact sound.safe

def plainBuild : Build where
  sha256 := List.take 3
  vrfy := fun digest _ => decide (digest = [0x1f, 0x8b, 7])
  serial := fun image => (image.getD 2 0).toNat

def blobSeven (i : Nat) : UInt8 :=
  if i < 1024 then [0x1f, 0x8b, 7].getD i 0
    else (cosKsig1 ++ [7, 0, 0, 0, 0, 0, 0, 0, 1]).getD (i - 1024) 0

/-- The same, when another thread writes its third byte after the signature was
checked. -/
def blobChanged (read : Read) (i : Nat) : UInt8 :=
  if i = 2 ∧ (read = .written ∨ read = .compared) then 9 else blobSeven i

def allWell : InstallLuck where
  loaded := true
  cleared := .done
  file := .done
  readBack := true
  staged := .done

def World.plain : World :=
  World.fresh (some .a) 0 fun _ => [0x1f, 0x8b, 1]

def updateRun : List Step :=
  [.start true (some .chosen), .boot true true .done, .install 1105 (fun _ => blobSeven) allWell,
    .stop, .start true (some .chosen), .boot true true .done, .confirm true .done]

theorem updates_ok_confirmed :
    (runSteps (World.step plainBuild) World.plain updateRun).Safe plainBuild ∧
      (runSteps (World.step plainBuild) World.plain updateRun).env.active = some .b := by
  have isActive : ∀ k ∈ (runSteps (World.step plainBuild) World.plain (updateRun.take 2)).running,
      k.slot = (runSteps (World.step plainBuild) World.plain (updateRun.take 2)).env.activeSlot := by decide
  have notRewritten : ∀ k ∈ (runSteps (World.step plainBuild) World.plain (updateRun.take 6)).running,
      k.rewritten = false := by set_option maxRecDepth 100000 in decide
  refine ⟨updates_ok plainBuild (some .a) 0 (fun _ => [0x1f, 0x8b, 1]) (.runSteps .refl ?_),
    by set_option maxRecDepth 100000 in decide⟩
  simp only [updateRun, StepsAllowed, List.take, runSteps] at isActive notRewritten ⊢
  refine ⟨fun _ _ => rfl, trivial, ?_, trivial, fun _ _ => rfl, trivial,
    fun k runs isRewritten => ?_, trivial⟩
  · intro k runs serial _
    refine ⟨⟨rfl, .inl rfl⟩, rfl, ?_, fun away => absurd (isActive k runs) away⟩
    rintro ⟨t, isTrial, -⟩
    cases isTrial
  · exact absurd ((notRewritten k runs).symm.trans isRewritten) nofun

def changedRun : List Step :=
  [.start true (some .chosen), .boot true true .done, .install 1105 blobChanged allWell]

/-- The bytes that are written are not the ones that were verified: the trial
slot holds what was never signed. -/
theorem updates_unsigned_staged :
    ¬ (runSteps (World.step plainBuild) World.plain changedRun).Safe plainBuild := by
  intro safe
  have isTrial : (runSteps (World.step plainBuild) World.plain changedRun).env.trial = some .b := by
    set_option maxRecDepth 100000 in decide
  have isPayload : (runSteps (World.step plainBuild) World.plain changedRun).slots .b =
      Views.bytes blobChanged .written 0 1024 := by set_option maxRecDepth 100000 in decide
  obtain ⟨serialBytes, sig, -, -, verified⟩ := safe.signed .b isTrial
  rw [isPayload] at verified
  simp only [plainBuild, List.append_assoc, decide_eq_true_eq] at verified
  rw [List.take_append_of_le_length (by simp [Views.bytes])] at verified
  revert verified
  set_option maxRecDepth 100000 in decide

end Cos.Boot
