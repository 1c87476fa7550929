import Cos.Lib.Links
import Cos.Lib.Run
import Mathlib

/-! # The queues of the scheduler

A thread is linked into at most one list by its own `next` and `prev`: a run queue, a wait queue or
the sleep list.  Every function runs under the kernel lock, on the processor `cpu`.
-/

namespace Cos.Sched

open Cos.Lib
open Function (update update_of_ne update_self)

/-- `MAX_THREADS`: threads are entries of `thread_table`. -/
def maxThreads : Nat := 1024

instance : NeZero maxThreads := ⟨by decide⟩

abbrev Tid := Fin maxThreads

def schedNumQueues : Nat := 40

def schedPrioLow : Nat := 10

inductive TaskState where
  | unused
  | created
  | ready
  | running
  | blocked
  | sleeping
  | zombie
deriving DecidableEq, Repr

inductive QueueId where
  | run (i : Nat)
  | wait (w : Nat)
  | sleep
deriving DecidableEq, Repr

/-- `thread_t`; `isIdle` are the threads that processors fall back to, `onIst` those whose registers
were saved on an exception stack. -/
structure Thread where
  pid : Nat
  state : TaskState
  priority : Nat
  timeSlice : Nat
  blockedOn : Option Nat
  onCpu : Bool
  smpOk : Bool
  isIdle : Bool
  onIst : Bool
  futexAddr : Nat
  futexDeadline : Nat
  futexWoken : Bool
deriving DecidableEq, Repr

structure SchedState where
  thread : Tid → Thread
  links : Links Tid
  head : QueueId → Option Tid
  tail : QueueId → Option Tid
  count : QueueId → Nat
  current : Nat → Option Tid
  idle : Nat → Option Tid
  schedulerRunning : Bool
  enablePreemption : Bool
  enableBoost : Bool
  boostInterval : Nat
  currentTick : Nat
  lastBoostTick : Nat

def SchedState.setThread (s : SchedState) (t : Tid) (thread : Thread) : SchedState :=
  { s with thread := update s.thread t thread }

def SchedState.setState (s : SchedState) (t : Tid) (state : TaskState) : SchedState :=
  s.setThread t { s.thread t with state := state }

theorem SchedState.setThread_self (s : SchedState) (t : Tid) (thread : Thread) :
    (s.setThread t thread).thread t = thread := update_self _ _ _

theorem SchedState.setThread_other {t u : Tid} (s : SchedState) (thread : Thread)
    (different : u ≠ t) : (s.setThread t thread).thread u = s.thread u := update_of_ne different _ _

/-- The low 32 bits of a priority as a C `int`. -/
def toInt (priority : Nat) : Int :=
  if priority % 2 ^ 32 < 2 ^ 31 then ((priority % 2 ^ 32 : Nat) : Int)
    else (priority % 2 ^ 32 : Nat) - 2 ^ 32

/-- `SCHED_PRIO_MIN` and `SCHED_PRIO_MAX` as bounds. -/
def clampPriority (priority : Int) : Nat := (max 1 (min 99 priority)).toNat

def priorityToQueue (priority : Nat) : Nat :=
  min (schedNumQueues - 1)
    (schedNumQueues - 1 - (clampPriority (toInt priority) - 1) * schedNumQueues / 99)

def timesliceOf (priority : Nat) : Nat :=
  if 80 ≤ toInt priority then 100 else if 40 ≤ toInt priority then 20
    else if toInt priority ≤ 10 then 5 else 10

/-- `detach_linked_thread` and `detach_sleep_thread`. -/
def detachLinked (q : QueueId) (t : Tid) (s : SchedState) : Bool × SchedState :=
  if s.links.meets t maxThreads (s.head q) then
    (true, { s with
      links := s.links.detach t
      head := update s.head q (if (s.links.prev t).isSome then s.head q else s.links.next t)
      tail := update s.tail q (if (s.links.next t).isSome then s.tail q else s.links.prev t)
      count := update s.count q (s.count q - 1) })
  else (false, s)

def SchedState.enqueue (s : SchedState) (q : QueueId) (t : Tid) : SchedState :=
  { s with
    links := s.links.append (s.tail q) t
    head := update s.head q (if (s.tail q).isSome then s.head q else some t)
    tail := update s.tail q (some t)
    count := update s.count q (s.count q + 1) }

def schedulerAddTask (t : Tid) (s : SchedState) : SchedState :=
  let s := s.enqueue (.run (priorityToQueue (s.thread t).priority)) t
  s.setThread t { s.thread t with blockedOn := none, timeSlice := timesliceOf (s.thread t).priority }

def leaveWait (t : Tid) (s : SchedState) : Bool × SchedState :=
  match (s.thread t).blockedOn with
  | none => (false, s)
  | some w =>
      let detached := detachLinked (.wait w) t s
      (detached.1, detached.2.setThread t { detached.2.thread t with blockedOn := none })

def schedulerRemoveTask (t : Tid) (s : SchedState) : SchedState :=
  let fromWait := leaveWait t s
  if fromWait.1 then fromWait.2
  else
    let fromSleep := detachLinked .sleep t fromWait.2
    if fromSleep.1 then fromSleep.2
    else
      let fromRun := detachLinked (.run (priorityToQueue (fromSleep.2.thread t).priority)) t fromSleep.2
      if fromRun.1 then fromRun.2
      else { fromRun.2 with links := (fromRun.2.links.setNext (some t) none).setPrev (some t) none }

def pickFrom (cpu : Nat) (s : SchedState) : Nat → Option Tid → Option Tid
  | 0, _ | _, none => none
  | fuel + 1, some t =>
      if s.current cpu = some t ∨ (s.thread t).onCpu = false ∧ (cpu = 0 ∨ (s.thread t).smpOk = true) then some t
      else pickFrom cpu s fuel (s.links.next t)

/-- `pick_next_task`; `pending` says that the processor has queued kernel work. -/
def pickNextTask (cpu : Nat) (pending : Bool) (s : SchedState) : Option Tid :=
  if cpu ≠ 0 ∧ pending then s.idle cpu
  else
    ((List.range schedNumQueues).findSome? fun i => pickFrom cpu s maxThreads (s.head (.run i))).or
      (s.idle cpu)

def SchedState.leave (s : SchedState) : Option Tid → SchedState
  | none => s
  | some prev =>
      s.setThread prev { s.thread prev with
        state := if (s.thread prev).state = .running then .ready else (s.thread prev).state, onCpu := false }

def contextSwitch (cpu : Nat) (next : Tid) (s : SchedState) : SchedState :=
  if (s.thread next).state = .zombie ∨ (s.thread next).state = .unused then s
  else if (s.thread next).onIst then s.setState next .zombie
  else
    let s := s.leave (s.current cpu)
    { s.setThread next { s.thread next with state := .running, onCpu := true } with
      current := update s.current cpu (some next) }

/-- `scheduler_schedule` and `scheduler_preempt`. -/
def schedulerSchedule (cpu : Nat) (pending : Bool) (s : SchedState) : SchedState :=
  if s.schedulerRunning then
    match pickNextTask cpu pending s with
    | none => s
    | some next =>
        if s.current cpu = some next then
          if (s.thread next).state = .ready then s.setState next .running else s
        else contextSwitch cpu next s
  else s

def schedulerSetPriority (t : Tid) (priority : Int) (s : SchedState) : SchedState :=
  let s := schedulerRemoveTask t s
  let high := (s.thread t).priority / 2 ^ 32 * 2 ^ 32
  let s := s.setThread t { s.thread t with priority := high + clampPriority priority }
  if (s.thread t).state = .ready then schedulerAddTask t s else s

def waitQueueAdd (w : Nat) (t : Tid) (s : SchedState) : SchedState :=
  let s := s.enqueue (.wait w) t
  s.setThread t { s.thread t with blockedOn := some w, state := .blocked }

def waitQueueRemove (w : Nat) (t : Tid) (s : SchedState) : SchedState :=
  if (s.thread t).blockedOn = some w then
    let detached := detachLinked (.wait w) t s
    if detached.1 then detached.2.setThread t { detached.2.thread t with blockedOn := none }
      else detached.2
  else s

def waitQueueWakeOne (w : Nat) (s : SchedState) : SchedState :=
  match s.head (.wait w) with
  | none => s
  | some t =>
      let detached := detachLinked (.wait w) t s
      if detached.1 then
        schedulerAddTask t (detached.2.setThread t { detached.2.thread t with blockedOn := none, state := .ready })
      else detached.2

/-- The loop of `wait_queue_wake_all`. -/
def waitQueueWakeAll (w : Nat) : Nat → SchedState → SchedState
  | 0, s => s
  | fuel + 1, s => if (s.head (.wait w)).isSome then waitQueueWakeAll w fuel (waitQueueWakeOne w s) else s

def schedulerBlock (cpu : Nat) (pending : Bool) (t : Tid) (w : Nat) (s : SchedState) : SchedState :=
  if s.schedulerRunning then
    schedulerSchedule cpu pending (waitQueueAdd w t ((schedulerRemoveTask t s).setState t .blocked))
  else s

def schedulerUnblock (t : Tid) (s : SchedState) : SchedState :=
  if (s.thread t).state = .blocked then
    let s := match (s.thread t).blockedOn with
      | none => s
      | some w =>
          let detached := detachLinked (.wait w) t s
          if detached.1 then detached.2.setThread t { detached.2.thread t with blockedOn := none } else detached.2
    schedulerAddTask t (s.setState t .ready)
  else s

/-- `wait_queue_remove` and `scheduler_unblock` one after the other, as the futexes call them. -/
def wakeWaiter (w : Nat) (t : Tid) (s : SchedState) : SchedState :=
  schedulerUnblock t (waitQueueRemove w t s)

def SchedState.pushSleep (s : SchedState) (t : Tid) (ticks : Nat) : SchedState :=
  { s.setThread t { s.thread t with state := .sleeping, timeSlice := ticks, blockedOn := none } with
    links := s.links.push (s.head .sleep) t
    head := update s.head .sleep (some t) }

def schedulerSleep (cpu : Nat) (pending : Bool) (ms : Nat) (s : SchedState) : SchedState :=
  match s.current cpu with
  | none => s
  | some t => schedulerSchedule cpu pending ((schedulerRemoveTask t s).pushSleep t (max 1 ms))

def schedulerWakeThread (t : Tid) (s : SchedState) : SchedState :=
  if (s.thread t).state = .sleeping then
    let detached := detachLinked .sleep t s
    if detached.1 then schedulerAddTask t (detached.2.setState t .ready) else s
  else s

/-- The walk of `scheduler_rebalance` over a run queue. -/
def rebalanceQueue : Nat → Option Tid → SchedState → SchedState
  | 0, _, s | _, none, s => s
  | fuel + 1, some t, s =>
      let next := s.links.next t
      let s := if schedPrioLow < (s.thread t).priority then
          schedulerSetPriority t (toInt ((s.thread t).priority - 5)) s
        else s
      rebalanceQueue fuel next s

/-- A thread is met at most twice in one queue: it moves to a lower one. -/
def schedulerRebalance (s : SchedState) : SchedState :=
  ((List.range' 5 (schedNumQueues - 5)).reverse).foldl
    (fun s i => rebalanceQueue (2 * maxThreads) (s.head (.run i)) s) s

def wakeSleepers : Nat → Option Tid → SchedState → SchedState
  | 0, _, s | _, none, s => s
  | fuel + 1, some t, s =>
      let next := s.links.next t
      let s := s.setThread t { s.thread t with timeSlice := (s.thread t).timeSlice - 1 }
      let s := if (s.thread t).timeSlice = 0 then
          let s := { s with
            links := s.links.detach t
            head := update s.head .sleep (if s.head .sleep = some t then s.links.next t else s.head .sleep) }
          schedulerAddTask t (s.setState t .ready)
        else s
      wakeSleepers fuel next s

def requeue (t : Tid) (s : SchedState) : SchedState :=
  schedulerAddTask t ((schedulerRemoveTask t s).setState t .ready)

def schedulerYield (cpu : Nat) (pending : Bool) (s : SchedState) : SchedState :=
  match s.current cpu with
  | none => s
  | some t => if s.schedulerRunning then schedulerSchedule cpu pending (requeue t s) else s

def tickCurrent (pending : Bool) (s : SchedState) : SchedState :=
  match s.current 0 with
  | some t =>
      if (s.thread t).state = .zombie ∧ s.idle 0 ≠ some t then schedulerSchedule 0 pending s
      else if s.enablePreemption ∧ (s.thread t).state = .running then
        let s := s.setThread t { s.thread t with timeSlice := (s.thread t).timeSlice - 1 }
        if (s.thread t).timeSlice = 0 then schedulerSchedule 0 pending (requeue t s) else s
      else s
  | none =>
      if (List.range schedNumQueues).any fun i => (s.head (.run i)).isSome then schedulerSchedule 0 pending s else s

def tickBoost (s : SchedState) : SchedState :=
  if s.enableBoost ∧ s.boostInterval ≤ s.currentTick - s.lastBoostTick then
    { schedulerRebalance s with lastBoostTick := s.currentTick }
  else s

def tickRest (s : SchedState) : SchedState := tickBoost (wakeSleepers maxThreads (s.head .sleep) s)

/-- `scheduler_tick`.  A tick that switches to another thread stops there: the sleep list and the
boost are a `tickRest` of their own, run when the thread it switched from is scheduled again. -/
def schedulerTick (pending : Bool) (s : SchedState) : SchedState :=
  if s.schedulerRunning then
    let after := tickCurrent pending { s with currentTick := s.currentTick + 1 }
    if after.current 0 = s.current 0 then tickRest after else after
  else s

/-- `scheduler_cpu_tick` of an application processor. -/
def schedulerCpuTick (cpu : Nat) (pending kicked : Bool) (s : SchedState) : SchedState :=
  match s.current cpu with
  | none => s
  | some t =>
      if s.idle cpu = some t ∨ (s.thread t).state ≠ .running then schedulerSchedule cpu pending s
      else if s.enablePreemption then
        let s := s.setThread t { s.thread t with timeSlice := (s.thread t).timeSlice - 1 }
        if (s.thread t).timeSlice = 0 ∨ kicked then schedulerSchedule cpu pending (requeue t s) else s
      else s

end Cos.Sched
