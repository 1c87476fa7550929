import Cos.Sched.QueuesSound

/-! # The operations of the scheduler keep its queues -/

namespace Cos.Sched

open Cos.Lib
open Function (update update_of_ne update_self)

variable {waits : Nat → Nat × Bool × Nat → Prop} {s : SchedState} {place : Tid → Option QueueId}
  {t u : Tid} {q : QueueId} {cpu w : Nat} {pending : Bool}

theorem SoundBut.removeTask (sound : SoundBut waits t s place)
    (fits : ∀ q, place t = some q → (s.thread t).fits waits q) : SoundBut waits t (schedulerRemoveTask t s) (update place t none) ∧
      (schedulerRemoveTask t s).thread = update s.thread t { s.thread t with blockedOn := none } := by
  have unblocked : (s.thread t).blockedOn = none →
      update s.thread t { s.thread t with blockedOn := none } = s.thread := by
    intro isNone
    rw [← isNone]
    exact Function.update_eq_self _ _
  cases here : place t with
  | none =>
      have free : ∀ q, place t ≠ some q := by
        intro q
        rw [here]
        exact Option.some_ne_none q |>.symm
      have same : update place t none = place := by
        rw [← here]
        exact Function.update_eq_self _ _
      rw [same]
      cases isBlocked : (s.thread t).blockedOn with
      | none =>
          simp only [schedulerRemoveTask, leaveWait, isBlocked, sound.detachLinked_absent (free _), Bool.false_eq_true, if_false]
          exact ⟨sound.unlink here, (unblocked isBlocked).symm⟩
      | some w =>
          have cleared : SoundBut waits t (s.setThread t { s.thread t with blockedOn := none }) place := sound.setThread rfl
          simp only [schedulerRemoveTask, leaveWait, isBlocked, sound.detachLinked_absent (free _),
            cleared.detachLinked_absent (free _), Bool.false_eq_true, if_false]
          exact ⟨cleared.unlink here, rfl⟩
  | some q =>
      have isFit := fits q here
      obtain ⟨found, sameThreads, after⟩ := sound.detachLinked here
      cases q with
      | wait w =>
          have isBlocked : (s.thread t).blockedOn = some w := isFit.1
          simp only [schedulerRemoveTask, leaveWait, isBlocked, found, if_true]
          refine ⟨after.setThread rfl, ?_⟩
          rw [SchedState.setThread, sameThreads]
      | sleep =>
          have isBlocked : (s.thread t).blockedOn = none := isFit
          simp only [schedulerRemoveTask, leaveWait, isBlocked, found, Bool.false_eq_true, if_false, if_true]
          exact ⟨after, sameThreads.trans (unblocked isBlocked).symm⟩
      | run i =>
          obtain ⟨isBlocked, isQueue⟩ : (s.thread t).blockedOn = none ∧ i = priorityToQueue (s.thread t).priority := isFit
          subst isQueue
          have awake : place t ≠ some .sleep := by
            rw [here]
            exact fun same => (nomatch same)
          simp only [schedulerRemoveTask, leaveWait, isBlocked, sound.detachLinked_absent awake,
            found, Bool.false_eq_true, if_false, if_true]
          exact ⟨after, sameThreads.trans (unblocked isBlocked).symm⟩

theorem SoundBut.addTask (sound : SoundBut waits t s place) (free : place t = none) :
    SoundBut waits t (schedulerAddTask t s) (update place t (some (.run (priorityToQueue (s.thread t).priority)))) ∧
      (schedulerAddTask t s).thread = update s.thread t
        { s.thread t with blockedOn := none, timeSlice := timesliceOf (s.thread t).priority } := by
  have notSleep : QueueId.run (priorityToQueue (s.thread t).priority) ≠ .sleep :=
    fun same => (nomatch same)
  exact ⟨(sound.enqueue free notSleep).setThread rfl, rfl⟩

theorem Proper.queued {thread : Thread} (unblocked : thread.blockedOn = none)
    (awake : thread.state ≠ .blocked) (up : thread.state ≠ .sleeping)
    (inUse : thread.state ≠ .unused) :
    Proper waits thread (some (.run (priorityToQueue thread.priority))) := by
  refine ⟨⟨?_, ?_⟩, ?_, ?_⟩
  · rintro q ⟨⟩
    exact ⟨unblocked, rfl⟩
  · rintro (isUnused | ⟨isBlocked, -⟩)
    · exact absurd isUnused inUse
    · exact absurd isBlocked awake
  · rintro w ⟨⟩
  · cases isState : thread.state <;> simp_all [Thread.live, Thread.home]

theorem SoundBut.addReady (sound : SoundBut waits t s place) (free : place t = none)
    (awake : (s.thread t).state ≠ .blocked) (up : (s.thread t).state ≠ .sleeping)
    (inUse : (s.thread t).state ≠ .unused) : SchedSound waits (schedulerAddTask t s)
      (update place t (some (.run (priorityToQueue (s.thread t).priority)))) := by
  obtain ⟨after, isThread⟩ := sound.addTask free
  refine after.close ?_
  rw [isThread, update_self, update_self]
  exact Proper.queued rfl awake up inUse

theorem SoundBut.wake (sound : SoundBut waits t s place) (free : place t = none) :
    SchedSound waits (schedulerAddTask t (s.setState t .ready))
      (update place t (some (.run (priorityToQueue (s.thread t).priority)))) := by
  have ready : SoundBut waits t (s.setState t .ready) place := sound.setThread rfl
  have isReady : ((s.setState t .ready).thread t) = { s.thread t with state := .ready } :=
    s.setThread_self t _
  have joined := ready.addReady free (by rw [isReady]; exact fun same => (nomatch same))
    (by rw [isReady]; exact fun same => (nomatch same))
    (by rw [isReady]; exact fun same => (nomatch same))
  rw [isReady] at joined
  exact joined

theorem SchedSound.requeue (sound : SchedSound waits s place) (t : Tid) :
    SchedSound waits (requeue t s)
    (update place t (some (.run (priorityToQueue (s.thread t).priority)))) := by
  obtain ⟨gone, isThread⟩ := (sound.but t).removeTask (sound.proper t).fits
  have woken := gone.wake (update_self _ _ _)
  rw [isThread, update_self, Function.update_idem] at woken
  exact woken

theorem SchedSound.setThread (sound : SchedSound waits s place) {thread : Thread}
    (sameIdle : thread.isIdle = (s.thread t).isIdle) (proper : Proper waits thread (place t)) :
    SchedSound waits (s.setThread t thread) place := by
  refine ((sound.but t).setThread sameIdle).close ?_
  rw [s.setThread_self]
  exact proper

theorem SchedSound.leave (sound : SchedSound waits s place) (prev : Option Tid) :
    SchedSound waits (s.leave prev) place := by
  cases prev with
  | none => exact sound
  | some t =>
      refine sound.setThread rfl ?_
      have proper := sound.proper t
      by_cases isRunning : (s.thread t).state = .running
      · rw [if_pos isRunning]
        refine ⟨⟨proper.fits, ?_⟩, fun w waiting busy => ?_, fun _ busy => ?_⟩
        · rintro (isUnused | ⟨isBlocked, -⟩)
          · cases isUnused
          · cases isBlocked
        · exact absurd (isRunning.symm.trans (proper.asleep w waiting busy)) (by decide)
        · have present := proper.present (by rw [Thread.live, isRunning]) busy
          rw [Thread.home, isRunning] at present
          exact present
      · rw [if_neg isRunning]
        exact ⟨⟨proper.fits, proper.stray⟩, proper.asleep, proper.present⟩

theorem leave_isIdle (prev : Option Tid) :
    ((s.leave prev).thread u).isIdle = (s.thread u).isIdle := by
  cases prev with
  | none => rfl
  | some t =>
      by_cases isT : u = t
      · rw [isT, SchedState.leave, s.setThread_self]
      · rw [SchedState.leave, s.setThread_other _ isT]

theorem SchedSound.picked (sound : SchedSound waits s place)
    (picked : pickNextTask cpu pending s = some t) :
    (s.thread t).isIdle = true ∨ ∃ i, place t = some (.run i) := by
  rw [pickNextTask] at picked
  split at picked
  · exact .inl (sound.idles cpu t picked)
  · obtain isSome | ⟨-, isIdle⟩ := Option.or_eq_some_iff.mp picked
    · obtain ⟨i, -, isPick⟩ := List.exists_of_findSome?_eq_some isSome
      obtain ⟨lists, queues⟩ := sound.queues
      exact .inr ⟨i, queues.pickFrom_placed (fun u isHead => queues.head_placed isHead) isPick⟩
    · exact .inl (sound.idles cpu t isIdle)

theorem Proper.running {thread : Thread} {p : Option QueueId} (proper : Proper waits thread p)
    (free : thread.isIdle = true ∨ ∃ i, p = some (.run i)) (onCpu : Bool) :
    Proper waits { thread with state := .running, onCpu := onCpu } p := by
  obtain isIdle | ⟨i, rfl⟩ := free
  · refine ⟨⟨proper.fits, ?_⟩, fun _ _ busy => absurd (isIdle.symm.trans busy) (by decide),
      fun _ busy => absurd (isIdle.symm.trans busy) (by decide)⟩
    rintro (isUnused | ⟨isBlocked, -⟩)
    · cases isUnused
    · cases isBlocked
  · obtain ⟨unblocked, rfl⟩ := proper.fits _ rfl
    exact @Proper.queued waits { thread with state := .running, onCpu := onCpu } unblocked
      (fun same => (nomatch same)) (fun same => (nomatch same)) (fun same => (nomatch same))

theorem SchedSound.contextSwitch (sound : SchedSound waits s place)
    (free : (s.thread t).isIdle = true ∨ ∃ i, place t = some (.run i)) :
    SchedSound waits (contextSwitch cpu t s) place := by
  rw [Sched.contextSwitch]
  split
  · exact sound
  · split
    · refine sound.setThread rfl ⟨⟨(sound.proper t).fits, ?_⟩, fun w waiting busy => ?_, fun live => (nomatch live)⟩
      · rintro (isUnused | ⟨isBlocked, -⟩)
        · cases isUnused
        · cases isBlocked
      · obtain isIdle | ⟨i, isRun⟩ := free
        · exact absurd (isIdle.symm.trans busy) (by decide)
        · rw [waiting] at isRun
          cases isRun
    · have left := sound.leave (s.current cpu)
      have ran : SchedSound waits ((s.leave (s.current cpu)).setThread t { (s.leave (s.current cpu)).thread t with
          state := .running, onCpu := true }) place :=
        left.setThread rfl ((left.proper t).running (by rwa [leave_isIdle]) true)
      obtain ⟨lists, queues⟩ := ran.queues
      exact ⟨⟨lists, queues.linked, queues.tail, queues.count, queues.placed⟩, ran.proper, ran.idles⟩

theorem SchedSound.schedule (sound : SchedSound waits s place) (cpu : Nat) (pending : Bool) :
    SchedSound waits (schedulerSchedule cpu pending s) place := by
  rw [schedulerSchedule]
  split
  · cases isPick : pickNextTask cpu pending s with
    | none => exact sound
    | some next =>
        have free := sound.picked isPick
        dsimp only
        split
        · split
          · exact sound.setThread rfl ((sound.proper next).running free _)
          · exact sound
        · exact sound.contextSwitch free
  · exact sound

theorem Proper.waiting {thread : Thread} (isBlocked : thread.state = .blocked)
    (isQueue : thread.blockedOn = some w) (known : waits w thread.key) :
    Proper waits thread (some (.wait w)) := by
  refine ⟨⟨?_, ?_⟩, fun _ _ _ => isBlocked, fun _ _ => ⟨rfl, ?_⟩⟩
  · rintro q ⟨⟩
    exact ⟨isQueue, known⟩
  · rintro (isUnused | ⟨-, isNone⟩)
    · rw [isBlocked] at isUnused
      cases isUnused
    · rw [isQueue] at isNone
      cases isNone
  · rw [Thread.home, isBlocked, isQueue]
    rfl

theorem SoundBut.waitQueueAdd (sound : SoundBut waits t s place) (free : place t = none)
    (known : waits w (s.thread t).key) :
    SchedSound waits (waitQueueAdd w t s) (update place t (some (.wait w))) := by
  have notSleep : QueueId.wait w ≠ .sleep := fun same => (nomatch same)
  have added : SoundBut waits t (Sched.waitQueueAdd w t s) (update place t (some (.wait w))) :=
    (sound.enqueue free notSleep).setThread rfl
  refine added.close ?_
  rw [Sched.waitQueueAdd, SchedState.setThread_self, update_self]
  exact Proper.waiting rfl rfl known

theorem Fitting.waiting {thread : Thread} {p : Option QueueId} (fitting : Fitting waits thread p)
    (isQueue : thread.blockedOn = some w) : p = none ∨ p = some (.wait w) := by
  cases p with
  | none => exact .inl rfl
  | some q =>
      have isFit := fitting.fits q rfl
      cases q with
      | run i => exact absurd (isQueue.symm.trans isFit.1) (by simp)
      | wait v =>
          have same : thread.blockedOn = some v := isFit.1
          rw [isQueue] at same
          cases same
          exact .inr rfl
      | sleep => exact absurd (isQueue.symm.trans isFit) (by simp)

theorem SchedSound.wakeOne (sound : SchedSound waits s place) (w : Nat) :
    ∃ place', SchedSound waits (waitQueueWakeOne w s) place' := by
  rw [waitQueueWakeOne]
  cases isHead : s.head (.wait w) with
  | none => exact ⟨place, sound⟩
  | some t =>
      obtain ⟨lists, queues⟩ := sound.queues
      obtain ⟨found, -, after⟩ := (sound.but t).detachLinked (queues.head_placed isHead)
      simp only [found, if_true]
      have ready : SoundBut waits t ((detachLinked (.wait w) t s).2.setThread t
          { (detachLinked (.wait w) t s).2.thread t with blockedOn := none, state := .ready })
          (update place t none) := after.setThread rfl
      have joined := ready.addReady (update_self _ _ _)
        (by rw [SchedState.setThread_self]; exact fun same => (nomatch same))
        (by rw [SchedState.setThread_self]; exact fun same => (nomatch same))
        (by rw [SchedState.setThread_self]; exact fun same => (nomatch same))
      exact ⟨_, joined⟩

theorem SchedSound.wakeAll (sound : SchedSound waits s place) (w fuel : Nat) :
    ∃ place', SchedSound waits (waitQueueWakeAll w fuel s) place' := by
  induction fuel generalizing s place with
  | zero => exact ⟨place, sound⟩
  | succ fuel ih =>
      rw [waitQueueWakeAll]
      split
      · obtain ⟨place', woken⟩ := sound.wakeOne w
        exact ih woken
      · exact ⟨place, sound⟩

theorem SchedSound.block (sound : SchedSound waits s place) (cpu : Nat) (pending : Bool) (t : Tid)
    (w : Nat) (known : waits w (s.thread t).key) :
    ∃ place', SchedSound waits (schedulerBlock cpu pending t w s) place' := by
  rw [schedulerBlock]
  split
  · obtain ⟨gone, isThread⟩ := (sound.but t).removeTask (sound.proper t).fits
    have blocked : SoundBut waits t ((schedulerRemoveTask t s).setState t .blocked) (update place t none) :=
      gone.setThread rfl
    have sameKey : (((schedulerRemoveTask t s).setState t .blocked).thread t).key = (s.thread t).key := by
      rw [SchedState.setState, SchedState.setThread_self, isThread, update_self]
      rfl
    exact ⟨_, (blocked.waitQueueAdd (update_self _ _ _) (sameKey ▸ known)).schedule cpu pending⟩
  · exact ⟨place, sound⟩

theorem SoundBut.unblock (sound : SoundBut waits t s place)
    (fitting : Fitting waits (s.thread t) (place t)) (isBlocked : (s.thread t).state = .blocked) :
    SchedSound waits (schedulerUnblock t s)
      (update place t (some (.run (priorityToQueue (s.thread t).priority)))) := by
  rw [schedulerUnblock, if_pos isBlocked]
  cases isQueue : (s.thread t).blockedOn with
  | none => exact sound.wake (fitting.stray (.inr ⟨isBlocked, isQueue⟩))
  | some w =>
      obtain free | here := fitting.waiting isQueue
      · have elsewhere : place t ≠ some (.wait w) := by
          rw [free]
          exact (Option.some_ne_none _).symm
        simp only [sound.detachLinked_absent elsewhere, Bool.false_eq_true, if_false]
        exact sound.wake free
      · obtain ⟨found, sameThreads, after⟩ := sound.detachLinked here
        simp only [found, if_true]
        have cleared : SoundBut waits t ((Sched.detachLinked (.wait w) t s).2.setThread t
            { (Sched.detachLinked (.wait w) t s).2.thread t with blockedOn := none }) (update place t none) :=
          after.setThread rfl
        have woken := cleared.wake (Function.update_self _ _ _)
        rw [SchedState.setThread_self, Function.update_idem] at woken
        have samePriority : ((Sched.detachLinked (.wait w) t s).2.thread t).priority = (s.thread t).priority := by
          rw [sameThreads]
        rw [← samePriority]
        exact woken

theorem SoundBut.waitQueueRemove (sound : SoundBut waits t s place)
    (fitting : Fitting waits (s.thread t) (place t)) (isQueue : (s.thread t).blockedOn = some w) :
    SoundBut waits t (waitQueueRemove w t s) (update place t none) ∧
      ((waitQueueRemove w t s).thread t = s.thread t ∨
        (waitQueueRemove w t s).thread t = { s.thread t with blockedOn := none }) := by
  rw [Sched.waitQueueRemove, if_pos isQueue]
  obtain free | here := fitting.waiting isQueue
  · have elsewhere : place t ≠ some (.wait w) := by
      rw [free]
      exact (Option.some_ne_none _).symm
    have same : update place t none = place := by
      rw [← free]
      exact Function.update_eq_self _ _
    simp only [sound.detachLinked_absent elsewhere, Bool.false_eq_true, if_false, same]
    exact ⟨sound, .inl trivial⟩
  · obtain ⟨found, sameThreads, after⟩ := sound.detachLinked here
    simp only [found, if_true]
    refine ⟨after.setThread rfl, .inr ?_⟩
    rw [SchedState.setThread_self, sameThreads]

theorem Fitting.nowhere (thread : Thread) : Fitting waits thread none :=
  ⟨fun _ isPlace => (nomatch isPlace), fun _ => rfl⟩

theorem Proper.nowhere {thread : Thread} (still : thread.live = false ∨ thread.isIdle = true) :
    Proper waits thread none := by
  refine ⟨Fitting.nowhere thread, fun _ isPlace => (nomatch isPlace), fun live busy => ?_⟩
  obtain isDead | isIdle := still
  · rw [isDead] at live
    cases live
  · rw [isIdle] at busy
    cases busy

theorem SchedSound.removeWaiter (sound : SchedSound waits s place)
    (still : (s.thread t).live = false ∨ (s.thread t).isIdle = true ∨
    (s.thread t).blockedOn ≠ some w) :
    ∃ place', SchedSound waits (waitQueueRemove w t s) place' := by
  by_cases isQueue : (s.thread t).blockedOn = some w
  · obtain ⟨gone, same | cleared⟩ := (sound.but t).waitQueueRemove (sound.proper t).toFitting isQueue
    · refine ⟨_, gone.close ?_⟩
      rw [same, Function.update_self]
      exact Proper.nowhere (by tauto)
    · refine ⟨_, gone.close ?_⟩
      rw [cleared, update_self]
      exact Proper.nowhere (by tauto)
  · rw [Sched.waitQueueRemove, if_neg isQueue]
    exact ⟨place, sound⟩

theorem SchedSound.unblock (sound : SchedSound waits s place) (t : Tid) :
    ∃ place', SchedSound waits (schedulerUnblock t s) place' := by
  by_cases isBlocked : (s.thread t).state = .blocked
  · exact ⟨_, (sound.but t).unblock (sound.proper t).toFitting isBlocked⟩
  · rw [schedulerUnblock, if_neg isBlocked]
    exact ⟨place, sound⟩

theorem SchedSound.wakeWaiter (sound : SchedSound waits s place) (w : Nat) (t : Tid) :
    ∃ place', SchedSound waits (wakeWaiter w t s) place' := by
  rw [Sched.wakeWaiter]
  by_cases isQueue : (s.thread t).blockedOn = some w
  · obtain ⟨gone, fields⟩ := (sound.but t).waitQueueRemove (sound.proper t).toFitting isQueue
    have sameState : ((waitQueueRemove w t s).thread t).state = (s.thread t).state := by
      obtain same | cleared := fields
      · rw [same]
      · rw [cleared]
    have sameIdle : ((waitQueueRemove w t s).thread t).isIdle = (s.thread t).isIdle := by
      obtain same | cleared := fields
      · rw [same]
      · rw [cleared]
    have isFree : update place t none t = none := update_self _ _ _
    by_cases isBlocked : (s.thread t).state = .blocked
    · refine ⟨_, gone.unblock ?_ (sameState.trans isBlocked)⟩
      rw [isFree]
      exact Fitting.nowhere _
    · rw [schedulerUnblock, if_neg (sameState ▸ isBlocked)]
      refine ⟨_, gone.close ?_⟩
      rw [isFree]
      refine Proper.nowhere ?_
      -- a thread that is not blocked but has a queue to wait on is on none of the lists it would have to be on
      rw [sameIdle, Thread.live, sameState]
      by_contra awake
      rw [not_or, Bool.not_eq_false, Bool.not_eq_true] at awake
      have present := (sound.proper t).present awake.1 awake.2
      obtain free | here := (sound.proper t).toFitting.waiting isQueue
      · rw [free] at present
        exact absurd present.1 (by decide)
      · have isHome := present.2
        rw [Thread.home] at isHome
        cases isState : (s.thread t).state <;> simp_all
  · rw [Sched.waitQueueRemove, if_neg isQueue]
    exact sound.unblock t

theorem SchedSound.sleep (sound : SchedSound waits s place) (cpu : Nat) (pending : Bool)
    (ms : Nat) : ∃ place', SchedSound waits (schedulerSleep cpu pending ms s) place' := by
  rw [schedulerSleep]
  cases s.current cpu with
  | none => exact ⟨place, sound⟩
  | some t =>
      obtain ⟨gone, -⟩ := (sound.but t).removeTask (sound.proper t).fits
      have slept := gone.pushSleep (update_self _ _ _) (max 1 ms)
      have isThread : ((schedulerRemoveTask t s).pushSleep t (max 1 ms)).thread t =
          { (schedulerRemoveTask t s).thread t with state := .sleeping, timeSlice := max 1 ms, blockedOn := none } :=
        update_self _ _ _
      refine ⟨_, (slept.close ?_).schedule cpu pending⟩
      rw [isThread, update_self]
      refine ⟨⟨?_, ?_⟩, fun _ isPlace => (nomatch isPlace), fun _ _ => ⟨rfl, rfl⟩⟩
      · rintro q ⟨⟩
        exact rfl
      · rintro (isUnused | ⟨isBlocked, -⟩)
        · cases isUnused
        · cases isBlocked

theorem SchedSound.wakeThread (sound : SchedSound waits s place) (t : Tid) :
    ∃ place', SchedSound waits (schedulerWakeThread t s) place' := by
  rw [schedulerWakeThread]
  split
  · by_cases here : place t = some .sleep
    · obtain ⟨found, -, after⟩ := (sound.but t).detachLinked here
      simp only [found, if_true]
      exact ⟨_, after.wake (update_self _ _ _)⟩
    · simp only [(sound.but t).detachLinked_absent here, Bool.false_eq_true, if_false]
      exact ⟨place, sound⟩
  · exact ⟨place, sound⟩

theorem SchedSound.countDown (sound : SchedSound waits s place) (t : Tid) (ticks : Nat) :
    SchedSound waits (s.setThread t { s.thread t with timeSlice := ticks }) place :=
  sound.setThread rfl ⟨⟨(sound.proper t).fits, (sound.proper t).stray⟩, (sound.proper t).asleep,
    (sound.proper t).present⟩

theorem SoundBut.leaveSleep (sound : SoundBut waits t s place) (here : place t = some .sleep) :
    SoundBut waits t { s with
      links := s.links.detach t
      head := update s.head .sleep (if s.head .sleep = some t then s.links.next t else s.head .sleep) }
      (update place t none) := by
  obtain ⟨lists, queues⟩ := sound.queues
  have member := (queues.placed t .sleep).mpr here
  have isHead : (if s.head .sleep = some t then s.links.next t else s.head .sleep) =
      if (s.links.prev t).isSome then s.head .sleep else s.links.next t := by
    by_cases isFirst : s.head .sleep = some t
    · rw [if_pos isFirst, if_neg (Bool.eq_false_iff.mp ((queues.head_iff member).mp isFirst))]
    · have later : (s.links.prev t).isSome = true := by
        rw [← Bool.not_eq_false]
        exact mt (queues.head_iff member).mpr isFirst
      rw [if_neg isFirst, if_pos later]
  refine sound.move ⟨update lists .sleep ((lists .sleep).erase t), ?_, ?_, ?_,
    queues.erasePlaced member⟩ rfl rfl
  · rw [isHead]
    exact queues.detachedLinks member
  · intro q notSleep
    rw [Function.update_of_ne notSleep]
    exact queues.tail q notSleep
  · intro q notSleep
    rw [Function.update_of_ne notSleep]
    exact queues.count q notSleep

theorem SchedSound.wakeSleepers {fuel : Nat} {cur : Option Tid} (sound : SchedSound waits s place)
    (inside : ∀ t, cur = some t → place t = some .sleep) :
    ∃ place', SchedSound waits (wakeSleepers fuel cur s) place' := by
  induction fuel generalizing s place cur with
  | zero => exact ⟨place, sound⟩
  | succ fuel ih =>
      cases cur with
      | none => exact ⟨place, sound⟩
      | some t =>
          have here := inside t rfl
          obtain ⟨lists, queues⟩ := sound.queues
          have ticked := sound.countDown t ((s.thread t).timeSlice - 1)
          rw [Sched.wakeSleepers]
          split
          · have woken := ((ticked.but t).leaveSleep here).wake (update_self _ _ _)
            refine ih woken fun u isNext => ?_
            obtain ⟨there, different⟩ := queues.next_placed here isNext
            rw [Function.update_of_ne different, Function.update_of_ne different]
            exact there
          · exact ih ticked fun u isNext => (queues.next_placed here isNext).1

/-- A thread that may lose its place without being lost: it is ready and comes back, or it need not
be on a list. -/
def Movable (thread : Thread) : Prop :=
  thread.state = .ready ∨ thread.live = false ∨ thread.isIdle = true

instance (thread : Thread) : Decidable (Movable thread) :=
  inferInstanceAs (Decidable (thread.state = .ready ∨ thread.live = false ∨ thread.isIdle = true))

theorem SchedSound.setPriority (sound : SchedSound waits s place) (movable : Movable (s.thread t))
    (priority : Int) :
    (∃ p, SchedSound waits (schedulerSetPriority t priority s) (update place t p)) ∧
      (∀ u, u ≠ t → (schedulerSetPriority t priority s).thread u = s.thread u) ∧
      ((schedulerSetPriority t priority s).thread t).state = (s.thread t).state ∧
      ((schedulerSetPriority t priority s).thread t).isIdle = (s.thread t).isIdle := by
  obtain ⟨gone, isThread⟩ := (sound.but t).removeTask (sound.proper t).fits
  obtain ⟨s', isAfter⟩ : ∃ s', schedulerRemoveTask t s = s' := ⟨_, rfl⟩
  rw [isAfter] at gone isThread
  obtain ⟨thread, isNew⟩ : ∃ thread : Thread, { s'.thread t with
      priority := (s'.thread t).priority / 2 ^ 32 * 2 ^ 32 + clampPriority priority } = thread := ⟨_, rfl⟩
  have sameState : thread.state = (s.thread t).state := by
    rw [← isNew, isThread, update_self]
  have sameIdle : thread.isIdle = (s.thread t).isIdle := by
    rw [← isNew, isThread, update_self]
  have changed : SoundBut waits t (s'.setThread t thread) (update place t none) :=
    gone.setThread (isNew ▸ rfl)
  have others : ∀ u, u ≠ t → (s'.setThread t thread).thread u = s.thread u := by
    intro u different
    rw [s'.setThread_other _ different, isThread, update_of_ne different]
  have isFree : update place t none t = none := update_self _ _ _
  rw [schedulerSetPriority, isAfter]
  simp only [isNew, SchedState.setThread_self]
  by_cases isReady : thread.state = .ready
  · rw [if_pos isReady]
    have isT := s'.setThread_self t thread
    have joined := changed.addReady isFree (by rw [isT, isReady]; exact fun same => (nomatch same))
      (by rw [isT, isReady]; exact fun same => (nomatch same)) (by rw [isT, isReady]; exact fun same => (nomatch same))
    rw [Function.update_idem] at joined
    have isAdded := (changed.addTask isFree).2
    refine ⟨⟨_, joined⟩, fun u different => ?_, ?_, ?_⟩
    · rw [isAdded, Function.update_of_ne different]
      exact others u different
    · rw [isAdded, Function.update_self, isT]
      exact sameState
    · rw [isAdded, Function.update_self, isT]
      exact sameIdle
  · rw [if_neg isReady]
    refine ⟨⟨none, changed.close ?_⟩, others, ?_, ?_⟩
    · rw [s'.setThread_self, isFree]
      refine Proper.nowhere ?_
      rw [Thread.live, sameState, sameIdle]
      exact movable.resolve_left (sameState ▸ isReady)
    · rw [s'.setThread_self]
      exact sameState
    · rw [s'.setThread_self]
      exact sameIdle

def Calm (s : SchedState) : Prop :=
  ∀ t, (s.thread t).state = .running → (s.thread t).isIdle = false →
    (s.thread t).priority ≤ schedPrioLow ∨ priorityToQueue (s.thread t).priority < 5

instance (s : SchedState) : Decidable (Calm s) :=
  inferInstanceAs (Decidable (∀ t, (s.thread t).state = .running → (s.thread t).isIdle = false →
    (s.thread t).priority ≤ schedPrioLow ∨ priorityToQueue (s.thread t).priority < 5))

theorem Proper.onRun {thread : Thread} {i : Nat} (proper : Proper waits thread (some (.run i)))
    (notRunning : ¬ (thread.state = .running ∧ thread.isIdle = false)) : Movable thread := by
  by_cases isIdle : thread.isIdle = true
  · exact Or.inr (.inr isIdle)
  · rw [Bool.not_eq_true] at isIdle
    cases isLive : thread.live with
    | false => exact Or.inr (.inl isLive)
    | true =>
        have isHome := (proper.present isLive isIdle).2
        obtain ⟨unblocked, -⟩ := proper.fits _ rfl
        refine Or.inl ?_
        rw [Thread.home, unblocked] at isHome
        cases isState : thread.state <;> simp_all [Thread.live]

theorem SchedSound.rebalanceQueue {fuel i : Nat} {cur : Option Tid}
    (sound : SchedSound waits s place) (calm : Calm s) (low : 5 ≤ i)
    (inside : ∀ t, cur = some t → place t = some (.run i)) :
    (∃ place', SchedSound waits (rebalanceQueue fuel cur s) place') ∧
    Calm (rebalanceQueue fuel cur s) := by
  induction fuel generalizing s place cur with
  | zero => exact ⟨⟨place, sound⟩, calm⟩
  | succ fuel ih =>
      cases cur with
      | none => exact ⟨⟨place, sound⟩, calm⟩
      | some t =>
          have here := inside t rfl
          obtain ⟨lists, queues⟩ := sound.queues
          rw [Sched.rebalanceQueue]
          split
          case isFalse => exact ih sound calm fun u isNext => (queues.next_placed here isNext).1
          case isTrue high =>
            have proper := sound.proper t
            rw [here] at proper
            have notRunning : ¬ ((s.thread t).state = .running ∧ (s.thread t).isIdle = false) := by
              rintro ⟨isRunning, busy⟩
              obtain ⟨-, isQueue⟩ := proper.fits _ rfl
              have := calm t isRunning busy
              omega
            obtain ⟨⟨p, moved⟩, others, sameState, sameIdle⟩ :=
              sound.setPriority (proper.onRun notRunning) (toInt ((s.thread t).priority - 5))
            refine ih moved (fun u isRunning busy => ?_) fun u isNext => ?_
            · by_cases isT : u = t
              · rw [isT, sameState] at isRunning
                rw [isT, sameIdle] at busy
                exact absurd ⟨isRunning, busy⟩ notRunning
              · rw [others u isT] at isRunning busy ⊢
                exact calm u isRunning busy
            · obtain ⟨there, different⟩ := queues.next_placed here isNext
              rw [Function.update_of_ne different]
              exact there

theorem SchedSound.rebalance (sound : SchedSound waits s place) (calm : Calm s) :
    ∃ place', SchedSound waits (schedulerRebalance s) place' := by
  have walk : ∀ queues : List Nat, (∀ i ∈ queues, 5 ≤ i) → ∀ s place, SchedSound waits s place →
      Calm s → ∃ place', SchedSound waits (queues.foldl
        (fun s i => Sched.rebalanceQueue (2 * maxThreads) (s.head (.run i)) s) s) place' := by
    intro queues
    induction queues with
    | nil => exact fun _ s place sound _ => ⟨place, sound⟩
    | cons i rest ih =>
        intro low s place sound calm
        obtain ⟨lists, linked⟩ := sound.queues
        obtain ⟨⟨place', walked⟩, calm'⟩ := @SchedSound.rebalanceQueue waits s place (2 * maxThreads) i (s.head (.run i))
          sound calm (low i List.mem_cons_self) (fun t isHead => linked.head_placed isHead)
        exact ih (fun j member => low j (List.mem_cons_of_mem _ member)) _ _ walked calm'
  refine walk _ (fun i member => ?_) s place sound calm
  rw [List.mem_reverse, List.mem_range'_1] at member
  exact member.1

theorem SchedSound.requeueSchedule (sound : SchedSound waits s place) (t : Tid) (cpu : Nat)
    (pending : Bool) :
    ∃ place', SchedSound waits (schedulerSchedule cpu pending (Sched.requeue t s)) place' :=
  ⟨_, (sound.requeue t).schedule cpu pending⟩

theorem SchedSound.yield (sound : SchedSound waits s place) (cpu : Nat) (pending : Bool) :
    ∃ place', SchedSound waits (schedulerYield cpu pending s) place' := by
  rw [schedulerYield]
  cases s.current cpu with
  | none => exact ⟨place, sound⟩
  | some t =>
      dsimp only
      split
      · exact sound.requeueSchedule t cpu pending
      · exact ⟨place, sound⟩

theorem SchedSound.tickCurrent (sound : SchedSound waits s place) (pending : Bool) :
    ∃ place', SchedSound waits (tickCurrent pending s) place' := by
  rw [Sched.tickCurrent]
  cases s.current 0 with
  | none =>
      dsimp only
      split
      · exact ⟨place, sound.schedule 0 pending⟩
      · exact ⟨place, sound⟩
  | some t =>
      dsimp only
      split
      · exact ⟨place, sound.schedule 0 pending⟩
      · split
        · split
          · exact (sound.countDown t _).requeueSchedule t 0 pending
          · exact ⟨place, sound.countDown t _⟩
        · exact ⟨place, sound⟩

theorem SchedSound.cpuTick (sound : SchedSound waits s place) (cpu : Nat) (pending kicked : Bool) :
    ∃ place', SchedSound waits (schedulerCpuTick cpu pending kicked s) place' := by
  rw [schedulerCpuTick]
  cases s.current cpu with
  | none => exact ⟨place, sound⟩
  | some t =>
      dsimp only
      split
      · exact ⟨place, sound.schedule cpu pending⟩
      · split
        · split
          · exact (sound.countDown t _).requeueSchedule t cpu pending
          · exact ⟨place, sound.countDown t _⟩
        · exact ⟨place, sound⟩

end Cos.Sched
