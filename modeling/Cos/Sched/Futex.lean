import Mathlib.Data.Fintype.Fin
import Mathlib.Data.Finset.Card
import Cos.Sched.Runs

/-! # Futexes

A thread that waits on a word of its memory is on one of 64 wait queues.  The first 64 wait queues
of the scheduler are these buckets.
-/

namespace Cos.Sched

open Cos.Lib
open Function (update update_of_ne update_self)

def futexBuckets : Nat := 64

def futexHash (pid uaddr : Nat) : Nat :=
  let k := (uaddr / 4) ^^^ (pid * 0x9E3779B97F4A7C15 % 2 ^ 64)
  let k := k ^^^ (k / 2 ^ 29)
  let k := k * 0xBF58476D1CE4E5B9 % 2 ^ 64
  let k := k ^^^ (k / 2 ^ 32)
  k % futexBuckets

def futexAddrOk (uaddr : Nat) : Bool :=
  decide (uaddr % 4 = 0 ∧ uaddr ≠ 0 ∧ uaddr < 0x0000800000000000)

/-- `read_futex_word`; `word` is what memory has there, if it is a mapped and writable page. -/
def readFutexWord (uaddr : Nat) (word : Option Nat) : Option Nat :=
  if futexAddrOk uaddr then word else none

/-- `cos_futex_wait` up to the switch; a thread that blocks has no result yet. -/
def cosFutexWait (cpu : Nat) (pending : Bool) (uaddr : Nat) (word : Option Nat)
    (expected timeout now : Nat) (s : SchedState) : Option Int × SchedState :=
  match s.current cpu with
  | none => (some (-22), s)
  | some t =>
      match readFutexWord uaddr word with
      | none => (some (-14), s)
      | some actual =>
          if actual = expected then
            let deadline := if timeout = 0 then 0 else (now + timeout) % 2 ^ 64
            let s := s.setThread t { s.thread t with futexAddr := uaddr, futexWoken := false, futexDeadline := deadline }
            (none, schedulerBlock cpu pending t (futexHash (s.thread t).pid uaddr) s)
          else (some (-11), s)

/-- The rest of `cos_futex_wait`. -/
def futexReturn (t : Tid) (now : Nat) (s : SchedState) : Int × SchedState :=
  let thread := s.thread t
  let timedOut := !thread.futexWoken && decide (thread.futexDeadline ≠ 0 ∧
    thread.futexDeadline ≤ now)
  (if timedOut then -110 else 0, s.setThread t { thread with futexAddr := 0 })

/-- The walk of `cos_futex_wake`, `cos_futex_expire_timeouts` and `cos_futex_release_pid` over a
bucket: it wakes the threads that match, `budget` of them at most. -/
def futexScan (b : Nat) (matching : Thread → Bool) (woken : Bool) :
    Nat → Nat → Option Tid → SchedState → Nat × SchedState
  | 0, _, _, s | _, _, none, s => (0, s)
  | fuel + 1, budget, some t, s =>
      let next := s.links.next t
      if budget = 0 then (0, s)
      else if matching (s.thread t) then
        let rest := futexScan b matching woken fuel (budget - 1) next
          (wakeWaiter b t (s.setThread t { s.thread t with futexWoken := woken }))
        (rest.1 + 1, rest.2)
      else futexScan b matching woken fuel budget next s

def cosFutexWake (pid uaddr count : Nat) (s : SchedState) : Int × SchedState :=
  if futexAddrOk uaddr then
    let b := futexHash pid uaddr
    let scan := futexScan b (fun thread => decide (thread.futexAddr = uaddr)) true maxThreads count (s.head (.wait b)) s
    (scan.1, scan.2)
  else (-22, s)

/-- A scan over all buckets; none of them has more threads than there are. -/
def futexScanAll (matching : Thread → Bool) (woken : Bool) (s : SchedState) : SchedState :=
  (List.range futexBuckets).foldl
    (fun s b => (futexScan b matching woken maxThreads maxThreads (s.head (.wait b)) s).2) s

def cosFutexExpireTimeouts (now : Nat) : SchedState → SchedState :=
  futexScanAll (fun thread => decide (thread.futexDeadline ≠ 0 ∧ thread.futexDeadline ≤ now)) false

def cosFutexReleasePid (pid : Nat) : SchedState → SchedState :=
  futexScanAll (fun thread => decide (thread.pid = pid)) true

/-- A thread of a bucket waits on a word of its process that has this bucket. -/
def futexWaits (w : Nat) (key : Nat × Bool × Nat) : Prop :=
  w < futexBuckets → key.2.1 = false ∧ key.2.2 ≠ 0 ∧ w = futexHash key.1 key.2.2

variable {s : SchedState} {lists : QueueId → List Tid} {place : Tid → Option QueueId} {t u : Tid}
  {b : Nat}

def wokenThread (woken : Bool) (thread : Thread) : Thread :=
  { thread with futexWoken := woken, state := .ready, blockedOn := none, timeSlice := timesliceOf thread.priority }

theorem wakeWaiter_queues (queues : QueuesSound s lists place) (here : place t = some (.wait b))
    (isBlocked : (s.thread t).state = .blocked) (isQueue : (s.thread t).blockedOn = some b) :
    (wakeWaiter b t s).thread = update s.thread t { s.thread t with
        state := .ready, blockedOn := none, timeSlice := timesliceOf (s.thread t).priority } ∧
      (wakeWaiter b t s).idle = s.idle ∧
      ∃ lists', QueuesSound (wakeWaiter b t s) lists'
          (update place t (some (.run (priorityToQueue (s.thread t).priority)))) ∧
        lists' (.wait b) = (lists (.wait b)).erase t := by
  obtain ⟨found, sameThreads, sameIdle, after⟩ := queues.detachLinked here
  obtain ⟨s', isAfter⟩ : ∃ s', (detachLinked (.wait b) t s).2 = s' := ⟨_, rfl⟩
  rw [isAfter] at sameThreads sameIdle after
  have notSleep : QueueId.run (priorityToQueue (s.thread t).priority) ≠ .sleep :=
    fun same => (nomatch same)
  have notWait : QueueId.wait b ≠ .run (priorityToQueue (s.thread t).priority) :=
    fun same => (nomatch same)
  have isWoken : wakeWaiter b t s = schedulerAddTask t
      ((s'.setThread t { s'.thread t with blockedOn := none }).setState t .ready) := by
    have blocked : ((s'.setThread t { s'.thread t with blockedOn := none }).thread t).state =
      .blocked := by
      rw [s'.setThread_self, sameThreads]
      exact isBlocked
    rw [wakeWaiter, waitQueueRemove, if_pos isQueue]
    simp only [found, if_true, isAfter]
    rw [schedulerUnblock, if_pos blocked, s'.setThread_self]
  obtain ⟨left, isLeft⟩ : ∃ left, update lists (.wait b) ((lists (.wait b)).erase t) = left :=
    ⟨_, rfl⟩
  rw [isLeft] at after
  have joined : QueuesSound (wakeWaiter b t s)
      (update left (.run (priorityToQueue (s.thread t).priority))
        (left (.run (priorityToQueue (s.thread t).priority)) ++ [t]))
      (update place t (some (.run (priorityToQueue (s.thread t).priority)))) := by
    have base : QueuesSound ((s'.setThread t { s'.thread t with blockedOn := none }).setState t .ready) left
        (update place t none) := ⟨after.linked, after.tail, after.count, after.placed⟩
    have enqueued := base.enqueue notSleep (update_self _ _ _)
    have isThread : ((s'.setThread t { s'.thread t with blockedOn := none }).setState t .ready).thread t =
        { s.thread t with blockedOn := none, state := .ready } := by
      rw [SchedState.setState, SchedState.setThread_self, s'.setThread_self, sameThreads]
    rw [Function.update_idem] at enqueued
    rw [isWoken, schedulerAddTask, isThread]
    exact ⟨enqueued.linked, enqueued.tail, enqueued.count, enqueued.placed⟩
  refine ⟨?_, ?_, _, joined, ?_⟩
  · rw [isWoken]
    simp only [schedulerAddTask, SchedState.setState, SchedState.setThread, SchedState.enqueue,
      sameThreads, Function.update_self, Function.update_idem]
  · rw [isWoken]
    exact sameIdle
  · rw [update_of_ne notWait, ← isLeft, update_self]

theorem SchedSound.bucket (sound : SchedSound futexWaits s place) (inRange : b < futexBuckets)
    (here : place t = some (.wait b)) :
    (s.thread t).state = .blocked ∧ (s.thread t).blockedOn = some b ∧ (s.thread t).isIdle = false ∧
      (s.thread t).futexAddr ≠ 0 ∧ b = futexHash (s.thread t).pid (s.thread t).futexAddr := by
  obtain ⟨isQueue, known⟩ := (sound.proper t).fits _ here
  obtain ⟨busy, isAddr, isHash⟩ := known inRange
  exact ⟨(sound.proper t).asleep b here busy, isQueue, busy, isAddr, isHash⟩

theorem wakeMatching (sound : SchedSound futexWaits s place) (queues : QueuesSound s lists place)
    (inRange : b < futexBuckets) (here : place t = some (.wait b)) (woken : Bool) :
    (wakeWaiter b t (s.setThread t { s.thread t with futexWoken := woken })).thread =
        update s.thread t (wokenThread woken (s.thread t)) ∧
      ∃ lists' place', SchedSound futexWaits (wakeWaiter b t (s.setThread t { s.thread t with futexWoken := woken })) place' ∧
        QueuesSound (wakeWaiter b t (s.setThread t { s.thread t with futexWoken := woken })) lists'
        place' ∧ lists' (.wait b) = (lists (.wait b)).erase t := by
  obtain ⟨isBlocked, isQueue, -⟩ := sound.bucket inRange here
  have isT := s.setThread_self t { s.thread t with futexWoken := woken }
  have queues₁ : QueuesSound (s.setThread t { s.thread t with futexWoken := woken }) lists place :=
    ⟨queues.linked, queues.tail, queues.count, queues.placed⟩
  obtain ⟨isThread, sameIdle, lists', queues', isErased⟩ := wakeWaiter_queues queues₁ here
    (by rw [isT]; exact isBlocked) (by rw [isT]; exact isQueue)
  have isUpdate : (wakeWaiter b t (s.setThread t { s.thread t with futexWoken := woken })).thread =
      update s.thread t (wokenThread woken (s.thread t)) := by
    rw [isThread, isT]
    simp only [SchedState.setThread, Function.update_idem]
    rfl
  refine ⟨isUpdate, lists', _, ⟨⟨lists', queues'⟩, fun u => ?_, fun cpu u isIdle => ?_⟩, queues',
    isErased⟩
  · rw [isUpdate, isT]
    by_cases isU : u = t
    · subst isU
      rw [update_self, update_self]
      exact @Proper.queued futexWaits (wokenThread woken (s.thread u)) rfl
        (fun same => (by cases same)) (fun same => (by cases same)) (fun same => (by cases same))
    · rw [Function.update_of_ne isU, Function.update_of_ne isU]
      exact sound.proper u
  · rw [sameIdle] at isIdle
    rw [isUpdate]
    by_cases isU : u = t
    · subst isU
      rw [update_self]
      exact sound.idles cpu u isIdle
    · rw [update_of_ne isU]
      exact sound.idles cpu u isIdle

theorem futexScan_spec {matching : Thread → Bool} {woken : Bool} {suffix kept : List Tid}
    {fuel budget : Nat} (sound : SchedSound futexWaits s place) (queues : QueuesSound s lists place)
    (inRange : b < futexBuckets) (isList : lists (.wait b) = kept ++ suffix)
    (enough : suffix.length ≤ fuel) :
    (∃ place', SchedSound futexWaits (futexScan b matching woken fuel budget suffix.head? s).2 place') ∧
      (futexScan b matching woken fuel budget suffix.head? s).1 =
        ((suffix.filter fun t => matching (s.thread t)).take budget).length ∧
      ∀ u, (futexScan b matching woken fuel budget suffix.head? s).2.thread u =
        if u ∈ (suffix.filter fun t => matching (s.thread t)).take budget
        then wokenThread woken (s.thread u) else s.thread u := by
  induction suffix generalizing s lists place kept fuel budget with
  | nil =>
      have isSame : futexScan b matching woken fuel budget none s = (0, s) := by
        cases fuel <;> rfl
      rw [List.head?_nil, isSame]
      simp only [List.filter_nil, List.take_nil, List.length_nil, List.not_mem_nil, if_false,
        implies_true, and_self, and_true]
      exact ⟨place, sound⟩
  | cons t rest ih =>
      cases fuel with
      | zero => exact absurd enough (by simp)
      | succ fuel =>
          have short := Nat.le_of_succ_le_succ enough
          have linked := queues.linked (.wait b)
          rw [isList] at linked
          have here : place t = some (.wait b) := by
            rw [← queues.placed, isList]
            exact List.mem_append_right _ List.mem_cons_self
          obtain ⟨-, -, isNext, -⟩ := Segment.append.mp linked.segment
          rw [Option.or_none] at isNext
          have distinct := List.nodup_append.mp linked.nodup
          have notRest : t ∉ rest := (List.nodup_cons.mp distinct.2.1).1
          have notKept : t ∉ kept := fun inside => distinct.2.2 t inside t List.mem_cons_self rfl
          rw [List.head?_cons, futexScan]
          by_cases isOver : budget = 0
          · subst isOver
            simp only [if_true, List.take_zero, List.length_nil, List.not_mem_nil, if_false, implies_true, and_self, and_true]
            exact ⟨place, sound⟩
          · obtain ⟨left, rfl⟩ := Nat.exists_eq_succ_of_ne_zero isOver
            rw [if_neg isOver, isNext]
            by_cases isMatch : matching (s.thread t) = true
            · obtain ⟨isThread, lists', place', sound', queues', isErased⟩ := wakeMatching sound queues inRange here woken
              have isList' : lists' (.wait b) = kept ++ rest := by
                rw [isErased, isList, List.erase_append_right _ notKept, List.erase_cons_head]
              obtain ⟨s', isAfter⟩ : ∃ s', wakeWaiter b t (s.setThread t { s.thread t with futexWoken := woken }) = s' :=
                ⟨_, rfl⟩
              rw [isAfter] at isThread sound' queues'
              have sameFilter : (rest.filter fun t => matching (s'.thread t)) = rest.filter fun t => matching (s.thread t) := by
                refine List.filter_congr fun u inside => ?_
                have different : u ≠ t := by
                  rintro rfl
                  exact notRest inside
                rw [isThread, update_of_ne different]
              obtain ⟨after, isCount, isThreads⟩ := @ih s' lists' place' kept fuel left sound' queues' isList' short
              rw [sameFilter] at isCount isThreads
              rw [if_pos isMatch, isAfter, List.filter_cons, if_pos isMatch, List.take_succ_cons]
              refine ⟨after, ?_, fun u => ?_⟩
              · rw [List.length_cons, ← isCount]
                rfl
              · have unmoved : t ∉ (rest.filter fun t => matching (s.thread t)).take left := fun inside =>
                  notRest (List.mem_of_mem_filter (List.mem_of_mem_take inside))
                refine (isThreads u).trans ?_
                by_cases isU : u = t
                · subst isU
                  rw [if_neg unmoved, if_pos List.mem_cons_self, isThread, update_self]
                · rw [isThread, update_of_ne isU]
                  simp only [List.mem_cons, isU, false_or]
            · rw [if_neg isMatch, List.filter_cons, if_neg isMatch]
              refine @ih s lists place (kept ++ [t]) fuel (left + 1) sound queues ?_ short
              rw [isList, List.append_assoc]
              rfl

end Cos.Sched
