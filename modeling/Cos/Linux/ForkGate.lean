import Cos.Lib.Run
import Cos.Lib.Tally
import Mathlib.Data.Fintype.Card

/-! # The fork gate

A fork copies the address space while other threads may be filling a file mapping.  `forking` and
`mmap_busy` keep the two apart, one atomic step of one thread at a time.
-/

namespace Cos.ForkGate

open Cos.Lib
open Function (update update_of_ne update_apply)

inductive MapErrno where
  | inval
  | nomem
  | badf
  | io
deriving DecidableEq, Repr

structure Mapping where
  start : Nat
  pages : Nat
deriving DecidableEq, Repr

/-- What `sys_mmap` does before the gate: it returns, or it goes on with anonymous memory or a
file. -/
inductive MmapStart where
  | ends (result : Except MapErrno Nat)
  | anon (start : Nat)
  | file (m : Mapping)

inductive PageEnd where
  | shared
  | filled
  | noFrame
  | unread
  | unstored
deriving DecidableEq, Repr

def pageError : PageEnd → Option MapErrno
  | .shared | .filled => none
  | .noFrame | .unstored => some .nomem
  | .unread => some .io

inductive GateInput where
  | doFork
  | sysMmap (start : MmapStart)
  | go (ok : Bool)
  | page (e : PageEnd)
  | expired

inductive GatePc where
  | idle
  | forkWait
  | forkInner
  | forkOpen
  | gateRaise (m : Mapping)
  | gateTest (m : Mapping)
  | gateLower (m : Mapping)
  | insertAnon (start : Nat)
  | insert (m : Mapping)
  | descriptor (m : Mapping)
  | buffer (m : Mapping)
  | page (m : Mapping) (done_ : Nat)
  | cut (e : MapErrno)
  | lower (result : Except MapErrno Nat)
  | returned (result : Except MapErrno Nat)

/-- `do_fork` and `sys_mmap` from one access of the counters to the next: the thread's place,
`mmap_busy` and `forking` after the step. -/
def gateMove (busy forking : Nat) : GatePc → GateInput → GatePc × Nat × Nat
  | .idle, .doFork => (.forkWait, busy, forking + 1)
  | .forkWait, .expired => (.forkInner, busy, forking)
  | .forkWait, _ => (if busy ≠ 0 then .forkWait else .forkInner, busy, forking)
  | .forkInner, _ => (.forkOpen, busy, forking)
  | .forkOpen, _ => (.idle, busy, forking - 1)
  | .idle, .sysMmap (.ends result) => (.returned result, busy, forking)
  | .idle, .sysMmap (.anon start) => (.insertAnon start, busy, forking)
  | .idle, .sysMmap (.file m) => (.gateRaise m, busy, forking)
  | .gateRaise m, _ => (.gateTest m, busy + 1, forking)
  | .gateTest m, _ => (if forking = 0 then .insert m else .gateLower m, busy, forking)
  | .gateLower m, _ => (.gateRaise m, busy - 1, forking)
  | .insertAnon start, .go ok =>
    (.returned (if ok then .ok start else .error .nomem), busy, forking)
  | .insert m, .go ok => (if ok then .descriptor m else .lower (.error .nomem), busy, forking)
  | .descriptor m, .go ok => (if ok then .buffer m else .cut .badf, busy, forking)
  | .buffer m, .go ok => (if ok then .page m 0 else .cut .nomem, busy, forking)
  | .page m i, .page e =>
      (if i < m.pages then (match pageError e with | some e => .cut e | none => .page m (i + 1))
        else .lower (.ok m.start), busy, forking)
  | .cut e, _ => (.lower (.error e), busy, forking)
  | .lower result, _ => (.returned result, busy - 1, forking)
  | .returned _, _ => (.idle, busy, forking)
  | pc, _ => (pc, busy, forking)

def GatePc.filling : GatePc → Bool
  | .insert _ | .descriptor _ | .buffer _ | .page .. | .cut _ | .lower _ => true
  | _ => false

/-- Counted in `mmap_busy`. -/
def GatePc.busy : GatePc → Bool
  | .gateTest _ | .gateLower _ => true
  | pc => pc.filling

/-- Counted in `forking`. -/
def GatePc.forks : GatePc → Bool
  | .forkWait | .forkInner | .forkOpen => true
  | _ => false

def GatePc.inner : GatePc → Bool
  | .forkInner => true
  | _ => false

variable {T : Type} [DecidableEq T]

/-- The counters of the process and its threads.  `passed` and `lowered` are for the proof: whether
the call came through the gate, and how often it has lowered `mmap_busy` since. -/
structure GateState (T : Type) where
  mmapBusy : Nat
  forking : Nat
  pc : T → GatePc
  passed : T → Bool
  lowered : T → Nat

def gateStart : GateState T := ⟨0, 0, fun _ => .idle, fun _ => false, fun _ => 0⟩

/-- What the proof keeps of the call of a thread that goes from one place to another. -/
def callMarks (passed : Bool) (lowered : Nat) (busyBefore busyAfter : Nat) :
    GatePc → GatePc → Bool × Nat
  | .idle, _ => (false, 0)
  | .gateTest _, .insert _ => (true, lowered)
  | _, _ => (passed, if passed ∧ busyAfter < busyBefore then lowered + 1 else lowered)

def gateStep (s : GateState T) (step : T × GateInput) : GateState T :=
  let (pc, busy, forking) := gateMove s.mmapBusy s.forking (s.pc step.1) step.2
  let marks := callMarks (s.passed step.1) (s.lowered step.1) s.mmapBusy busy (s.pc step.1) pc
  ⟨busy, forking, update s.pc step.1 pc, update s.passed step.1 marks.1,
    update s.lowered step.1 marks.2⟩

def inTime (s : GateState T) (step : T × GateInput) : Prop :=
  s.pc step.1 = .forkWait → s.mmapBusy ≠ 0 → step.2 ≠ .expired

variable {busy forking lowered : Nat} {passed : Bool} {pc : GatePc} {input : GateInput}
  {s : GateState T} {t : T}

/-- What a call of `sys_mmap` has done to `mmap_busy` since the gate. -/
def marksFit (passed : Bool) (lowered : Nat) : GatePc → Prop
  | .gateRaise _ | .gateTest _ | .gateLower _ | .insertAnon _ => passed = false ∧ lowered = 0
  | .returned _ => lowered = if passed then 1 else 0
  | pc => pc.filling = true → passed = true ∧ lowered = 0

/-- What one move of a thread does to the counters, and from where it leads to where. -/
structure GateMoved (mmapBusy forking : Nat) (pc : GatePc) (input : GateInput)
    (next : GatePc × Nat × Nat) : Prop where
  busy : (pc.busy = true → 0 < mmapBusy) →
    next.2.1 + (if pc.busy then 1 else 0) = mmapBusy + if next.1.busy then 1 else 0
  forks : (pc.forks = true → 0 < forking) →
    next.2.2 + (if pc.forks then 1 else 0) = forking + if next.1.forks then 1 else 0
  filling : next.1.filling = true → pc.filling = true ∨ forking = 0
  inner : next.1.inner = true → pc = .forkWait ∧ (input = .expired ∨ mmapBusy = 0)
  marks : ∀ passed lowered, marksFit passed lowered pc → (pc.busy = true → 0 < mmapBusy) →
    marksFit (callMarks passed lowered mmapBusy next.2.1 pc next.1).1
    (callMarks passed lowered mmapBusy next.2.1 pc next.1).2 next.1

theorem gateMove_marks (fit : marksFit passed lowered pc) (held : pc.busy = true → 0 < busy) :
    let next := gateMove busy forking pc input
    let after := callMarks passed lowered busy next.2.1 pc next.1
    marksFit after.1 after.2 next.1 := by
  cases pc <;> cases input <;>
    simp_all [gateMove, callMarks, marksFit, GatePc.busy, GatePc.filling] <;> grind [marksFit]

theorem gateMove_moved : GateMoved busy forking pc input (gateMove busy forking pc input) := by
  refine ⟨?busy, ?forks, ?filling, ?inner, fun passed lowered fit held => gateMove_marks fit held⟩
  case busy =>
    intro held
    cases pc <;> cases input <;> simp_all [gateMove, GatePc.busy, GatePc.filling] <;> grind
  case forks =>
    intro held
    cases pc <;> cases input <;> simp_all [gateMove, GatePc.forks] <;> grind
  case filling =>
    intro after
    cases pc <;> cases input <;> simp_all [gateMove, GatePc.filling] <;> grind
  case inner =>
    intro after
    cases pc <;> cases input <;> simp_all [gateMove, GatePc.inner] <;> grind

def counted [Fintype T] (counts : GatePc → Bool) (pc : T → GatePc) : Nat :=
  (Finset.univ.filter fun t => counts (pc t) = true).card

theorem counted_update [Fintype T] (counts : GatePc → Bool) (place : T → GatePc) (t : T)
    (new : GatePc) : counted counts (update place t new) + (if counts (place t) then 1 else 0) =
      counted counts place + if counts new then 1 else 0 := by
  have change := @tally_update T Bool _ Finset.univ t _ (fun c => counts (place c))
    (Finset.mem_univ t) (counts new) true
  have same : (fun c => counts (update place t new c)) =
      update (fun c => counts (place c)) t (counts new) := by
    funext c
    by_cases here : c = t
    · subst here; simp
    · simp [update_of_ne here]
  simpa [counted, ← same] using change

omit [DecidableEq T] in
theorem counted_pos [Fintype T] {counts : GatePc → Bool} {place : T → GatePc}
    (here : counts (place t) = true) : 0 < counted counts place :=
  Finset.card_pos.mpr ⟨t, by simpa using here⟩

structure GateSound [Fintype T] (s : GateState T) : Prop where
  busy : s.mmapBusy = counted GatePc.busy s.pc
  forks : s.forking = counted GatePc.forks s.pc
  apart : ∀ t u, (s.pc t).filling = true → (s.pc u).inner = false
  marks : ∀ t, marksFit (s.passed t) (s.lowered t) (s.pc t)

theorem GatePc.busy_of_filling (filling : pc.filling = true) : pc.busy = true := by
  cases pc <;> simp_all [GatePc.busy, GatePc.filling]

theorem GatePc.forks_of_inner (inner : pc.inner = true) : pc.forks = true := by
  cases pc <;> simp_all [GatePc.forks, GatePc.inner]

omit [DecidableEq T] in
theorem gateSound_start [Fintype T] : GateSound (gateStart : GateState T) where
  busy := by simp [gateStart, counted, GatePc.busy, GatePc.filling]
  forks := by simp [gateStart, counted, GatePc.forks]
  apart := by simp [gateStart, GatePc.filling]
  marks := by simp [gateStart, marksFit, GatePc.filling]

theorem gateSound_step [Fintype T] {step : T × GateInput} (sound : GateSound s)
    (timely : inTime s step) : GateSound (gateStep s step) := by
  obtain ⟨t, input⟩ := step
  have busyHeld : (s.pc t).busy = true → 0 < s.mmapBusy := fun here => sound.busy ▸ counted_pos here
  have forksHeld : (s.pc t).forks = true → 0 < s.forking :=
    fun here => sound.forks ▸ counted_pos here
  have moved := @gateMove_moved s.mmapBusy s.forking (s.pc t) input
  refine ⟨?busy, ?forks, ?apart, ?marks⟩
  case busy =>
    have move := moved.busy busyHeld
    have change := counted_update GatePc.busy s.pc t (gateMove s.mmapBusy s.forking (s.pc t) input).1
    rw [← sound.busy] at change
    exact Nat.add_right_cancel (move.trans change.symm)
  case forks =>
    have move := moved.forks forksHeld
    have change := counted_update GatePc.forks s.pc t (gateMove s.mmapBusy s.forking (s.pc t) input).1
    rw [← sound.forks] at change
    exact Nat.add_right_cancel (move.trans change.symm)
  case apart =>
    intro a b filling
    by_contra inner
    simp only [Bool.not_eq_false] at inner
    simp only [gateStep, update_apply] at filling inner
    split at filling <;> split at inner
    · -- one thread is in one place
      cases place : (gateMove s.mmapBusy s.forking (s.pc t) input).1 <;> simp_all [GatePc.filling, GatePc.inner]
    · obtain before | open_ := moved.filling filling
      · simp [sound.apart t b before] at inner
      · have counts := counted_pos (GatePc.forks_of_inner inner)
        rw [← sound.forks] at counts
        omega
    · obtain ⟨waits, late | free⟩ := moved.inner inner
      · have counts := counted_pos (GatePc.busy_of_filling filling)
        rw [← sound.busy] at counts
        exact timely waits (by omega) late
      · have counts := counted_pos (GatePc.busy_of_filling filling)
        rw [← sound.busy] at counts
        omega
    · simp [sound.apart a b filling] at inner
  case marks =>
    intro u
    by_cases here : u = t
    · subst here
      simpa [gateStep] using moved.marks _ _ (sound.marks u) busyHeld
    · simpa [gateStep, update_of_ne here] using sound.marks u

/-- Forks and fills keep apart, every mapping that came through the gate has lowered the counter
once when its call returns, and the counter counts the threads before that and no other. -/
theorem fork_gate [Fintype T] (reached : Reaches gateStep inTime gateStart s) :
    (∀ t u, (s.pc t).filling = true → s.pc u ≠ .forkInner) ∧
    (∀ t result, s.pc t = .returned result → s.lowered t = if s.passed t then 1 else 0) ∧
    s.mmapBusy = counted GatePc.busy s.pc ∧
    ∀ t input, s.pc t = .forkWait → (∀ u, (s.pc u).busy = false) →
    (gateStep s (t, input)).pc t = .forkInner := by
  have sound : GateSound s := reached.invariant gateSound_start fun _ _ => gateSound_step
  refine ⟨?apart, ?once, sound.busy, ?passes⟩
  case apart =>
    intro t u filling inner
    have apart := sound.apart t u filling
    simp [inner, GatePc.inner] at apart
  case once =>
    intro t result place
    have fit := sound.marks t
    rwa [place] at fit
  case passes =>
    intro t input waits free
    have none_ : s.mmapBusy = 0 := by simp [sound.busy, counted, free]
    cases input <;> simp [gateStep, gateMove, waits, none_]

/-- One thread fills a mapping of a page and another announces a fork. -/
def fillBeforeFork : GateState Bool :=
  runSteps gateStep gateStart
    [(true, .sysMmap (.file ⟨4096, 1⟩)), (true, .go true), (true, .go true), (false, .doFork),
    (false, .go true)]

theorem fork_gate_fill : fillBeforeFork.pc false ≠ .forkInner ∧ fillBeforeFork.mmapBusy = 1 := by
  have reached : Reaches gateStep inTime gateStart fillBeforeFork := by
    refine Reaches.refl.runSteps ⟨?_, ?_, ?_, ?_, ?_, trivial⟩ <;> intro _ _ <;> nofun
  exact ⟨(fork_gate reached).1 true false (by decide), by decide⟩

end Cos.ForkGate
