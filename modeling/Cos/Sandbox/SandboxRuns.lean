import Cos.Lib.Run
import Cos.Sandbox.Calls
import Cos.Sandbox.Paths
import Mathlib.Logic.Function.Basic

/-! # Confined processes over whole runs -/

namespace Cos.Sandbox

open Cos.Lib

structure Process where
  caps : Caps
  jail : Text

def jailSize : Nat := 64
def pathMax : Nat := 256
def httpMaxUrl : Nat := 2048
def dlctlNext : BitVec 64 := 3
def dlctlSetPath : BitVec 64 := 5

abbrev Memory := BitVec 64 → Text

def copyPathAt (jail : Text) (memory : Memory) (uptr : BitVec 64) (dstSize : Nat) : Option Text :=
  if uptr = 0 then none else copyPath jail dstSize (memory uptr)

/-- The arguments that the handler of a call copies as a path, each with the size of its buffer. -/
def Sys.pathArgs (r : Regs) : Sys → List (BitVec 64 × Nat)
  | .readFile | .writeFile | .spawn | .spawn2 | .dlopen | .dlopen2 | .fdOpen | .fdOpendir | .stat
  | .statEx | .setAttr
  | .openPath | .kmodLoad | .listdirEx | .imageDecode | .mkdir | .unlink | .netResolve
  | .netHttpGet | .dnsStart =>
      [(r.rdi, pathMax)]
  | .dlsym => [(r.rsi, pathMax)]
  | .rename => [(r.rdi, pathMax), (r.rsi, pathMax)]
  | .dlctl =>
      if r.rdi = dlctlNext then [(r.rdx, pathMax)] else if r.rdi = dlctlSetPath then [(r.rsi, pathMax)] else []
  | .netHttpStart => [(r.rdi, httpMaxUrl)]
  | .winDrawText => [(r.r9, 64)]
  | .lxshmMap => [(r.rdi, 64)]
  | .sandbox => if r.rsi ≠ 0 then [(r.rsi, jailSize)] else []
  | _ => []

def acceptedPaths (jail : Text) (memory : Memory) : List (BitVec 64 × Nat) → List Text
  | [] => []
  | (uptr, dstSize) :: rest =>
      match copyPathAt jail memory uptr dstSize with
      | none => []
      | some path => path :: acceptedPaths jail memory rest

def Process.passes (p : Process) (need : Caps) : Bool :=
  decide (p.caps = capAll ∨ need &&& ~~~p.caps = 0 ∧ need &&& capUnknown = 0)

def trimSlashes (j : Text) : Text :=
  match j.rdropWhile (· = '/') with
  | [] => ['/']
  | body => body

def hasDotDot (j : Text) : Bool :=
  j.tails.any fun q => decide (q.take 3 = "/..".toList ∧ (q[3]? = some '/' ∨ q[3]? = none))

def Process.sandbox (p : Process) (r : Regs) (memory : Memory) : Process :=
  let caps := p.caps &&& r.rdi.setWidth 32
  if r.rsi = 0 then { p with caps := caps }
  else
    match copyPathAt p.jail memory r.rsi jailSize with
    | none => p
    | some j =>
        if j.head? ≠ some '/' ∨ pathIsClean j = false then p
        else if hasDotDot (trimSlashes j) then p
        -- "/" is no more confinement than before
        else if trimSlashes j = ['/'] then ⟨caps, if p.jail = [] then [] else p.jail⟩
        else ⟨caps, trimSlashes j⟩

inductive Event
  | path (jail path : Text)
  | effect (need : Caps) (effect : Effect)
deriving DecidableEq

structure World where
  procs : Nat → Option Process
  nextPid : Nat
  /-- The calls that kernel modules provide, with their capability lists. -/
  modules : Nat → Option Caps
  log : List Event

inductive Step
  /-- A process makes a call; `did` tells which of the effects that its handler can have take
  place. -/
  | call (pid : Nat) (r : Regs) (memory : Memory) (did : Effect → Bool)
  | exit (pid : Nat)
  /-- Modules register and unregister calls. -/
  | register (modules : Nat → Option Caps)

/-- What the desktop, a kernel thread, starts is not confined. -/
def desktopProgram : Process := ⟨capAll, []⟩

/-- The program that starts, if one does: the handler starts it for its caller, or the desktop
starts it. -/
def startedProgram (p : Process) (effects : List Effect) : Option Process :=
  if .spawn ∈ effects ∨ .openTerminal ∈ effects then some p
  else if .launch ∈ effects then some desktopProgram
  else none

/-- A call that passed the gate: SYS_SANDBOX is the one that changes its process. -/
def World.handle (w : World) (pid : Nat) (p : Process) (r : Regs) (memory : Memory)
    (did : Effect → Bool) : World :=
  let call := Sys.ofNumber r.rax.toNat
  let effects := (syscallEffects w.modules r).filter did
  let started := startedProgram p effects
  let procs := if call = some .sandbox then Function.update w.procs pid (some (p.sandbox r memory)) else w.procs
  { w with
    procs := if started.isSome then Function.update procs w.nextPid started else procs
    nextPid := if started.isSome then w.nextPid + 1 else w.nextPid
    log := (acceptedPaths p.jail memory ((call.map (·.pathArgs r)).getD [])).map (.path p.jail) ++
      effects.map (.effect (syscallNeeds w.modules r)) ++ w.log }

def World.step (w : World) : Step → World
  | .call pid r memory did =>
      match w.procs pid with
      | none => w
      | some p => if p.passes (syscallNeeds w.modules r) then w.handle pid p r memory did else w
  | .exit pid => { w with procs := Function.update w.procs pid none }
  | .register modules => { w with modules := modules }

def Process.Narrower (p p' : Process) : Prop :=
  Within p'.caps p.caps ∧ AtOrBelow p.jail p'.jail

/-- A process that was there has no more than it had, and one that came has no more than some
process that was there. -/
def World.Narrowed (w w' : World) : Prop :=
  ∀ pid p', w'.procs pid = some p' →
    (∀ p, w.procs pid = some p → p.Narrower p') ∧ ∃ origin p, w.procs origin = some p ∧
    p.Narrower p'

/-- An accepted path lies in the jail, and an effect was asked for. -/
def Event.Ok : Event → Prop
  | .path jail copied => AtOrBelow jail copied
  | .effect need done => Within done.reserved need

def World.Numbered (w : World) : Prop :=
  ∀ pid, w.nextPid ≤ pid → w.procs pid = none

/-- A call that gets through the gate is one whose handler does only what the gate asked for. -/
def World.Allows (w : World) : Step → Prop
  | .call pid r _ _ => ∀ p, w.procs pid = some p → p.passes (syscallNeeds w.modules r) = true →
      ∀ call, Sys.ofNumber r.rax.toNat = some call → call.Covered r
  | _ => True

variable {w w' : World} {p q : Process} {r : Regs} {memory : Memory} {jail : Text}

theorem Process.Narrower.refl : p.Narrower p :=
  ⟨.refl, List.prefix_rfl⟩

theorem Process.Narrower.trans {p' : Process} (first : p.Narrower q) (second : q.Narrower p') :
    p.Narrower p' :=
  ⟨second.1.trans first.1, first.2.trans second.2⟩

theorem copyPathAt_atOrBelow {uptr : BitVec 64} {dstSize : Nat} {path : Text}
    (accepted : copyPathAt jail memory uptr dstSize = some path) : AtOrBelow jail path := by
  rw [copyPathAt] at accepted
  split at accepted
  · cases accepted
  · rw [copyPath] at accepted
    split at accepted
    · next fine =>
      cases accepted
      exact jailAllows_atOrBelow fine.2.2
    · cases accepted

theorem acceptedPaths_atOrBelow {args : List (BitVec 64 × Nat)} {path : Text}
    (accepted : path ∈ acceptedPaths jail memory args) : AtOrBelow jail path := by
  induction args with
  | nil => cases accepted
  | cons arg rest ih =>
      rw [acceptedPaths] at accepted
      split at accepted
      · cases accepted
      · next first isFirst =>
        rcases List.mem_cons.mp accepted with rfl | later
        · exact copyPathAt_atOrBelow isFirst
        · exact ih later

theorem fsPath_trimSlashes {j : Text} (clean : pathIsClean j = true) :
    fsPath (trimSlashes j) = fsPath j := by
  rw [← fsPath_rdropWhile (pathIsClean_pieces clean).1, trimSlashes]
  split
  · next none =>
    rw [none]
    rfl
  · rfl

theorem Process.sandbox_narrower (p : Process) (r : Regs) (memory : Memory) :
    p.Narrower (p.sandbox r memory) := by
  unfold Process.sandbox
  split
  · exact ⟨.and, List.prefix_rfl⟩
  · split
    · exact .refl
    · next j accepted =>
      split
      · exact .refl
      · next fine =>
        simp only [not_or, Bool.not_eq_false] at fine
        split
        · exact .refl
        · split
          · refine ⟨.and, ?_⟩
            split
            · next none =>
              rw [none]
              exact List.prefix_rfl
            · exact List.prefix_rfl
          · refine ⟨.and, ?_⟩
            rw [AtOrBelow, fsPath_trimSlashes fine.2]
            exact copyPathAt_atOrBelow accepted

structure Sound (w w' : World) : Prop where
  narrowed : w.Narrowed w'
  numbered : w'.Numbered
  older : w.nextPid ≤ w'.nextPid
  log : ∀ event ∈ w'.log, event.Ok

theorem Sound.start (numbered : w.Numbered) (noLog : w.log = []) : Sound w w where
  narrowed pid p isP := ⟨fun q isQ => by
    cases isP.symm.trans isQ
    exact .refl, pid, p, isP, .refl⟩
  numbered := numbered
  older := Nat.le_refl _
  log event member := by
    rw [noLog] at member
    cases member

theorem Sound.update (sound : Sound w w') {pid : Nat} (isP : w'.procs pid = some p)
    (narrower : p.Narrower q) :
    Sound w { w' with procs := Function.update w'.procs pid (some q) } where
  narrowed other p' isP' := by
    dsimp only at isP'
    by_cases same : other = pid
    · subst same
      rw [Function.update_self, Option.some.injEq] at isP'
      subst isP'
      obtain ⟨own, origin, old, isOld, before⟩ := sound.narrowed other p isP
      exact ⟨fun q isQ => (own q isQ).trans narrower, origin, old, isOld, before.trans narrower⟩
    · rw [Function.update_of_ne same] at isP'
      exact sound.narrowed other p' isP'
  numbered other beyond := by
    have notSame : other ≠ pid := by
      rintro rfl
      cases isP.symm.trans (sound.numbered other beyond)
    dsimp only
    rw [Function.update_of_ne notSame]
    exact sound.numbered other beyond
  older := sound.older
  log := sound.log

theorem Sound.child (sound : Sound w w') (numbered : w.Numbered) {origin : Nat} {old : Process}
    (isOld : w.procs origin = some old) (narrower : old.Narrower p) :
    Sound w { w' with
      procs := Function.update w'.procs w'.nextPid (some p)
      nextPid := w'.nextPid + 1 } where
  narrowed other p' isP' := by
    dsimp only at isP'
    by_cases same : other = w'.nextPid
    · subst same
      rw [Function.update_self, Option.some.injEq] at isP'
      subst isP'
      refine ⟨fun q isQ => ?_, origin, old, isOld, narrower⟩
      cases isQ.symm.trans (numbered _ sound.older)
    · rw [Function.update_of_ne same] at isP'
      exact sound.narrowed other p' isP'
  numbered other beyond := by
    dsimp only at beyond ⊢
    rw [Function.update_of_ne (by omega)]
    exact sound.numbered other (by omega)
  older := Nat.le_succ_of_le sound.older
  log := sound.log

theorem Sound.exit (sound : Sound w w') (pid : Nat) :
    Sound w { w' with procs := Function.update w'.procs pid none } where
  narrowed other p' isP' := by
    dsimp only at isP'
    by_cases same : other = pid
    · subst same
      rw [Function.update_self] at isP'
      cases isP'
    · rw [Function.update_of_ne same] at isP'
      exact sound.narrowed other p' isP'
  numbered other beyond := by
    by_cases same : other = pid
    · subst same
      exact Function.update_self ..
    · dsimp only
      rw [Function.update_of_ne same]
      exact sound.numbered other beyond
  older := sound.older
  log := sound.log

theorem syscallEffects_reserved {modules : Nat → Option Caps} {effect : Effect}
    (covered : ∀ call, Sys.ofNumber r.rax.toNat = some call → call.Covered r)
    (isEffect : effect ∈ syscallEffects modules r) :
    Within effect.reserved (syscallNeeds modules r) := by
  rw [syscallEffects] at isEffect
  rw [syscallNeeds]
  cases isCall : Sys.ofNumber r.rax.toNat with
  | some call =>
      rw [isCall] at isEffect
      exact effects_covered.mpr (covered call isCall) effect isEffect
  | none =>
      rw [isCall] at isEffect
      simp only at isEffect ⊢
      split at isEffect
      · next isModule =>
        obtain ⟨caps, isCaps, rfl⟩ := Option.map_eq_some_iff.mp (Option.mem_toList.mp isEffect)
        rw [if_pos isModule, isCaps]
        exact .refl
      · cases isEffect

theorem launch_shell {modules : Nat → Option Caps} (isEffect : .launch ∈ syscallEffects modules r) :
    syscallNeeds modules r = capShell := by
  rw [syscallEffects] at isEffect
  rw [syscallNeeds]
  cases isCall : Sys.ofNumber r.rax.toNat with
  | some call =>
      rw [isCall] at isEffect
      exact Sys.launch_needs isEffect
  | none =>
      rw [isCall] at isEffect
      simp only at isEffect
      split at isEffect
      · obtain ⟨caps, -, isLaunch⟩ := Option.map_eq_some_iff.mp (Option.mem_toList.mp isEffect)
        cases isLaunch
      · cases isEffect

theorem startedProgram_caller {modules : Nat → Option Caps} {did : Effect → Bool}
    {started : Process} (covered : ∀ call, Sys.ofNumber r.rax.toNat = some call → call.Covered r)
    (isStarted : startedProgram p ((syscallEffects modules r).filter did) = some started) :
    started = p := by
  rw [startedProgram] at isStarted
  split at isStarted
  · exact (Option.some.inj isStarted).symm
  · split at isStarted
    · next launched =>
      have isEffect := (List.mem_filter.mp launched).1
      have asked := syscallEffects_reserved covered isEffect
      rw [launch_shell isEffect] at asked
      exact absurd asked (by decide)
    · cases isStarted

theorem Sound.handle {pid : Nat} {did : Effect → Bool} (sound : Sound w w') (numbered : w.Numbered)
    (isP : w'.procs pid = some p)
    (covered : ∀ call, Sys.ofNumber r.rax.toNat = some call → call.Covered r) :
    Sound w (w'.handle pid p r memory did) := by
  have logged : ∀ event ∈ (w'.handle pid p r memory did).log, event.Ok := by
    intro event member
    rcases List.mem_append.mp member with new | old
    · rcases List.mem_append.mp new with isPath | isEffect
      · obtain ⟨path, accepted, rfl⟩ := List.mem_map.mp isPath
        exact acceptedPaths_atOrBelow accepted
      · obtain ⟨effect, isHere, rfl⟩ := List.mem_map.mp isEffect
        exact syscallEffects_reserved covered (List.mem_filter.mp isHere).1
    · exact sound.log event old
  obtain ⟨-, origin, old, isOld, narrower⟩ := sound.narrowed pid p isP
  have changed : Sound w { w' with
      procs := if Sys.ofNumber r.rax.toNat = some .sandbox then Function.update w'.procs pid (some (p.sandbox r memory))
        else w'.procs } := by
    split
    · exact sound.update isP (p.sandbox_narrower r memory)
    · exact sound
  unfold World.handle at logged ⊢
  dsimp only at logged ⊢
  cases isStarted : startedProgram p ((syscallEffects w'.modules r).filter did) with
  | none => exact { changed with log := logged }
  | some started =>
      obtain rfl := startedProgram_caller covered isStarted
      exact { changed.child numbered isOld narrower with log := logged }

theorem Sound.step {step : Step} (numbered : w.Numbered) (sound : Sound w w')
    (allowed : w'.Allows step) : Sound w (w'.step step) := by
  cases step with
  | call pid r memory did =>
      rw [World.step]
      split
      · exact sound
      · next p isP =>
        split
        · next passes => exact sound.handle numbered isP (allowed p isP passes)
        · exact sound
  | exit pid => exact sound.exit pid
  | register modules => exact { sound with }

def settingsProcess : Process := ⟨capFsRead ||| capPower ||| capSettings, "/data".toList⟩

def settingsWorld : World :=
  ⟨fun pid => if pid = 1 then some settingsProcess else none, 2, fun _ => none, []⟩

theorem settingsWorld_numbered : settingsWorld.Numbered := fun pid beyond =>
  if_neg (show ¬ pid = 1 from fun isOne => absurd (isOne ▸ beyond) (by decide))

def shutDownRegs (rdi : BitVec 64) : Regs := ⟨202, rdi, 0, 0, 0⟩

def readRegs : Regs := ⟨7, 4096, 0, 0, 0⟩

/-- A shut-down, and then a read of a file in the jail. -/
def shutDownReads : World :=
  (settingsWorld.step (.call 1 (shutDownRegs 3) (fun _ => []) fun _ => true)).step
    (.call 1 readRegs (fun _ => "/data/x\x00".toList) fun _ => true)

def confinedWorld : World :=
  ⟨fun pid => if pid = 1 then some ⟨capSettings, []⟩ else none, 2, fun _ => none, []⟩

theorem confinedWorld_numbered : confinedWorld.Numbered := fun pid beyond =>
  if_neg (show ¬ pid = 1 from fun isOne => absurd (isOne ▸ beyond) (by decide))

end Cos.Sandbox
