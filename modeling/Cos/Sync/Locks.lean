import Mathlib.Logic.Function.Basic
import Cos.Lib.Run

/-! # The mutexes and semaphores of the kernel

`mutex_*` and `sem_*` of `sync.c`.  A thread takes the kernel lock (`sync_irq_save`), tests, and
either has what it wants or gets on the wait queue and gives the kernel lock up with the processor
(`scheduler_block`); whoever is woken takes the kernel lock again before it tests once more.  One
step of one thread at a time.
-/

namespace Cos.Sync

open Cos.Lib
open Function (update)

/-- `mutex_t`; `waiters` is the queue once there is one. -/
structure Mutex (T : Type) where
  locked : Bool
  owner : Option T
  waiters : Option (List T)
deriving DecidableEq

/-- `semaphore_t`. -/
structure Semaphore (T : Type) where
  count : Int
  waiters : Option (List T)
deriving DecidableEq

inductive Object
  | mutex (m : Nat)
  | sem (s : Nat)
deriving DecidableEq

inductive Call
  | mutexLock (m : Nat)
  | mutexTrylock (m : Nat)
  | mutexUnlock (m : Nat)
  | semWait (s : Nat)
  | semTrywait (s : Nat)
  | semPost (s : Nat)
deriving DecidableEq

def Call.object : Call → Object
  | .mutexLock m | .mutexTrylock m | .mutexUnlock m => .mutex m
  | .semWait s | .semTrywait s | .semPost s => .sem s

inductive Pc
  | out
  /-- In `sync_irq_save`; `again` after it was woken. -/
  | saving (call : Call) (again : Bool)
  | testing (call : Call) (again : Bool)
  /-- In `scheduler_block`, before and after `wait_queue_add`. -/
  | adding (call : Call)
  | switching (call : Call)
  | asleep (call : Call)
  /-- Woken, before and after it runs again. -/
  | ready (call : Call)
  | resumed (call : Call)
  /-- Before `wait_queue_wake_one`. -/
  | waking (call : Call)
  | restoring (call : Call) (result : Bool)
deriving DecidableEq

structure World (T : Type) where
  /-- Whose processor has `g_kernel_lock`. -/
  kernel : Option T
  mutex : Nat → Mutex T
  sem : Nat → Semaphore T
  pc : T → Pc
  /-- `__builtin_trap`: there was no memory for a wait queue. -/
  trapped : Bool
  /-- Auxiliary: who took a mutex and did not give it back; who was woken and did not test since;
  the permits that there were at first, were posted and were taken. -/
  holders : Nat → List T
  woken : Object → List T
  initial : Nat → Nat
  posts : Nat → Nat
  waits : Nat → Nat

inductive Step (T : Type)
  | call (t : T) (call : Call)
  /-- `memory` says whether `kmalloc` finds room for a wait queue. -/
  | go (t : T) (memory : Bool)
deriving DecidableEq

variable {T : Type} [DecidableEq T]

section

variable (w : World T) (t : T)

def World.goto (pc : Pc) : World T := { w with pc := update w.pc t pc }

def World.waiters : Object → Option (List T)
  | .mutex m => (w.mutex m).waiters
  | .sem s => (w.sem s).waiters

def World.setWaiters (q : Object) (waiters : Option (List T)) : World T :=
  match q with
  | .mutex m => { w with mutex := update w.mutex m { w.mutex m with waiters } }
  | .sem s => { w with sem := update w.sem s { w.sem s with waiters } }

def World.retries (q : Object) (again : Bool) : World T :=
  if again then { w with woken := update w.woken q ((w.woken q).erase t) } else w

def World.takeMutex (m : Nat) : World T :=
  { w with
    mutex := update w.mutex m { w.mutex m with locked := true, owner := some t }
    holders := update w.holders m (t :: w.holders m) }

def World.freeMutex (m : Nat) : World T :=
  { w with
    mutex := update w.mutex m { w.mutex m with locked := false, owner := none }
    holders := update w.holders m ((w.holders m).erase t) }

def World.takePermit (s : Nat) : World T :=
  { w with
    sem := update w.sem s { w.sem s with count := (w.sem s).count - 1 }
    waits := update w.waits s (w.waits s + 1) }

def World.addPermit (s : Nat) : World T :=
  { w with
    sem := update w.sem s { w.sem s with count := (w.sem s).count + 1 }
    posts := update w.posts s (w.posts s + 1) }

def World.test : Call → World T
  | .mutexLock m =>
      if (w.mutex m).locked then w.goto t (.adding (.mutexLock m))
      else (w.takeMutex t m).goto t (.restoring (.mutexLock m) true)
  | .mutexTrylock m =>
      if (w.mutex m).locked then w.goto t (.restoring (.mutexTrylock m) false)
      else (w.takeMutex t m).goto t (.restoring (.mutexTrylock m) true)
  | .mutexUnlock m =>
      if (w.mutex m).locked ∧ (w.mutex m).owner ≠ none ∧ (w.mutex m).owner ≠ some t then
        w.goto t (.restoring (.mutexUnlock m) false)
      else (w.freeMutex t m).goto t (.waking (.mutexUnlock m))
  | .semWait s =>
      if 0 < (w.sem s).count then (w.takePermit s).goto t (.restoring (.semWait s) true)
      else w.goto t (.adding (.semWait s))
  | .semTrywait s =>
      if 0 < (w.sem s).count then (w.takePermit s).goto t (.restoring (.semTrywait s) true)
      else w.goto t (.restoring (.semTrywait s) false)
  | .semPost s => (w.addPermit s).goto t (.waking (.semPost s))

def World.waitqueue (q : Object) (memory : Bool) : Option (List T) :=
  (w.waiters q).or (if memory then some [] else none)

def Pc.wake : Pc → Pc
  | .asleep call => .ready call
  | pc => pc

def World.wakeOne (q : Object) (memory : Bool) : World T :=
  match w.waitqueue q memory with
  | none => w
  | some [] => w.setWaiters q (some [])
  | some (first :: rest) =>
      { (w.setWaiters q (some rest)).goto first (w.pc first).wake with
        woken := update w.woken q (first :: w.woken q) }

def World.go (memory : Bool) : World T :=
  match w.pc t with
  | .out | .asleep _ => w
  | .saving call again =>
      if w.kernel = none then { w with kernel := some t }.goto t (.testing call again) else w
  | .testing call again => (w.retries t call.object again).test t call
  | .adding call =>
      match w.waitqueue call.object memory with
      | none => { w with trapped := true }
      | some waiting => (w.setWaiters call.object (some (waiting ++ [t]))).goto t (.switching call)
  | .switching call => { w with kernel := none }.goto t (.asleep call)
  | .ready call => if w.kernel = none then { w with kernel := some t }.goto t (.resumed call) else w
  | .resumed call => { w with kernel := none }.goto t (.saving call true)
  | .waking call => (w.wakeOne call.object memory).goto t (.restoring call true)
  | .restoring _ _ => { w with kernel := none }.goto t .out

end

def World.step (w : World T) (label : Step T) : World T :=
  if w.trapped then w
  else
    match label with
    | .call t call => if w.pc t = .out then w.goto t (.saving call false) else w
    | .go t memory => w.go t memory

/-- `mutex_init` and `sem_init`. -/
def World.init (initial : Nat → Nat) : World T where
  kernel := none
  mutex := fun _ => ⟨false, none, none⟩
  sem := fun s => ⟨initial s, none⟩
  pc := fun _ => .out
  trapped := false
  holders := fun _ => []
  woken := fun _ => []
  initial := initial
  posts := fun _ => 0
  waits := fun _ => 0

def World.queue (w : World T) (q : Object) : List T := (w.waiters q).getD []

def World.available (w : World T) : Object → Int
  | .mutex m => if (w.mutex m).locked then 0 else 1
  | .sem s => (w.sem s).count

def Pc.wokenFor : Pc → Option Object
  | .ready call | .resumed call | .saving call true | .testing call true => some call.object
  | _ => none

def Pc.wakes : Pc → Option Object
  | .waking call => some call.object
  | _ => none

/-- Someone who waits could go on, and nobody was woken or is being woken. -/
def World.Stalled (w : World T) (q : Object) : Prop :=
  0 < w.available q ∧ w.queue q ≠ [] ∧ (∀ t, (w.pc t).wokenFor ≠ some q) ∧
    ∀ t, w.kernel = some t → (w.pc t).wakes ≠ some q

structure LocksOk (w : World T) : Prop where
  exclusive : ∀ m, (w.holders m).length ≤ 1
  /-- The flag and the owner say who it is. -/
  owner : ∀ m, w.holders m = (w.mutex m).owner.toList ∧
    (w.mutex m).locked = (w.mutex m).owner.isSome
  permits : ∀ s, (w.initial s : Int) + w.posts s - w.waits s = (w.sem s).count ∧ 0 ≤ (w.sem s).count
  wakes : ∀ q, ¬ w.Stalled q

end Cos.Sync
