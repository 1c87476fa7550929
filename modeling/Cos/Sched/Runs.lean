import Cos.Sched.Calls

/-! # Runs of the scheduler

In every run in which no running, blocked or sleeping thread gets another priority, a live thread is
on the one list that its state demands.
-/

namespace Cos.Sched

open Cos.Lib

variable {waits : Nat → Nat × Bool × Nat → Prop} {s s' : SchedState} {place : Tid → Option QueueId}
  {t u : Tid} {cpu w : Nat} {pending : Bool}

def SchedState.clock (s : SchedState) : Bool × Nat × Nat × Nat :=
  (s.enableBoost, s.boostInterval, s.currentTick, s.lastBoostTick)

def NoNewRunner (s s' : SchedState) : Prop :=
  ∀ t, (s'.thread t).state = .running →
    (s.thread t).state = .running ∧ (s'.thread t).priority = (s.thread t).priority ∧
      (s'.thread t).isIdle = (s.thread t).isIdle

theorem NoNewRunner.refl (s : SchedState) : NoNewRunner s s :=
  fun _ isRunning => ⟨isRunning, rfl, rfl⟩

theorem NoNewRunner.trans {s'' : SchedState} (first : NoNewRunner s s')
    (second : NoNewRunner s' s'') : NoNewRunner s s'' := by
  intro t isRunning
  obtain ⟨later, priority', idle'⟩ := second t isRunning
  obtain ⟨before, priority, idle⟩ := first t later
  exact ⟨before, priority'.trans priority, idle'.trans idle⟩

theorem NoNewRunner.calm (runners : NoNewRunner s s') (calm : Calm s) : Calm s' := by
  intro t isRunning busy
  obtain ⟨before, samePriority, sameIdle⟩ := runners t isRunning
  rw [samePriority]
  exact calm t before (sameIdle ▸ busy)

theorem NoNewRunner.setThread {thread : Thread}
    (kept : thread.state = .running → (s.thread t).state = .running ∧ thread.priority = (s.thread t).priority ∧
      thread.isIdle = (s.thread t).isIdle) : NoNewRunner s (s.setThread t thread) := by
  intro u isRunning
  by_cases isT : u = t
  · subst isT
    rw [s.setThread_self] at isRunning ⊢
    exact kept isRunning
  · rw [s.setThread_other _ isT] at isRunning ⊢
    exact ⟨isRunning, rfl, rfl⟩

theorem outside_detachLinked (q : QueueId) (t : Tid) (s : SchedState) :
    (detachLinked q t s).2.clock = s.clock ∧ (detachLinked q t s).2.current = s.current := by
  rw [detachLinked]
  split <;> exact ⟨rfl, rfl⟩

theorem outside_removeTask (t : Tid) (s : SchedState) :
    (schedulerRemoveTask t s).clock = s.clock ∧ (schedulerRemoveTask t s).current = s.current := by
  have fromWait : (leaveWait t s).2.clock = s.clock ∧ (leaveWait t s).2.current = s.current := by
    rw [leaveWait]
    cases (s.thread t).blockedOn with
    | none => exact ⟨rfl, rfl⟩
    | some w => exact outside_detachLinked (.wait w) t s
  have further : ∀ q s', s'.clock = s.clock ∧ s'.current = s.current →
      (detachLinked q t s').2.clock = s.clock ∧ (detachLinked q t s').2.current = s.current := by
    intro q s' same
    obtain ⟨sameClock, sameCurrent⟩ := outside_detachLinked q t s'
    exact ⟨sameClock.trans same.1, sameCurrent.trans same.2⟩
  rw [schedulerRemoveTask]
  dsimp only
  split
  · exact fromWait
  · split
    · exact further _ _ fromWait
    · split
      · exact further _ _ (further _ _ fromWait)
      · exact further _ _ (further _ _ fromWait)

theorem clock_leave (s : SchedState) (prev : Option Tid) : (s.leave prev).clock = s.clock := by
  cases prev <;> rfl

theorem clock_schedule (cpu : Nat) (pending : Bool) (s : SchedState) :
    (schedulerSchedule cpu pending s).clock = s.clock := by
  rw [schedulerSchedule]
  split
  · cases pickNextTask cpu pending s with
    | none => rfl
    | some next =>
        dsimp only
        split
        · split <;> rfl
        · rw [contextSwitch]
          split
          · rfl
          · split
            · rfl
            · exact clock_leave s (s.current cpu)
  · rfl

theorem clock_tickCurrent (pending : Bool) (s : SchedState) :
    (tickCurrent pending s).clock = s.clock := by
  rw [tickCurrent]
  cases s.current 0 with
  | none =>
      dsimp only
      split
      · exact clock_schedule 0 pending s
      · rfl
  | some t =>
      dsimp only
      split
      · exact clock_schedule 0 pending s
      · split
        · split
          · exact (clock_schedule 0 pending _).trans (outside_removeTask t _).1
          · rfl
        · rfl

theorem wakeSleepers_quiet (fuel : Nat) (cur : Option Tid) (s : SchedState) :
    (wakeSleepers fuel cur s).clock = s.clock ∧ NoNewRunner s (wakeSleepers fuel cur s) := by
  induction fuel generalizing s cur with
  | zero => exact ⟨rfl, NoNewRunner.refl s⟩
  | succ fuel ih =>
      cases cur with
      | none => exact ⟨rfl, NoNewRunner.refl s⟩
      | some t =>
          have ticked : NoNewRunner s (s.setThread t { s.thread t with timeSlice := (s.thread t).timeSlice - 1 }) :=
            NoNewRunner.setThread fun isRunning => ⟨isRunning, rfl, rfl⟩
          rw [wakeSleepers]
          split
          · obtain ⟨sameClock, runners⟩ := ih (s.links.next t) _
            refine ⟨sameClock, NoNewRunner.trans ?_ runners⟩
            intro u isRunning
            by_cases isT : u = t
            · subst isT
              simp [schedulerAddTask, SchedState.setState, SchedState.setThread, SchedState.enqueue] at isRunning
            · have same : ∀ s : SchedState, (schedulerAddTask t (s.setState t .ready)).thread u = s.thread u := by
                simp [schedulerAddTask, SchedState.setState, SchedState.setThread, SchedState.enqueue, isT]
              rw [same] at isRunning ⊢
              exact ticked u isRunning
          · obtain ⟨sameClock, runners⟩ := ih (s.links.next t) _
            exact ⟨sameClock, ticked.trans runners⟩

theorem schedule_runners (unswitched :
    (schedulerSchedule cpu pending s).current cpu =
    s.current cpu) (isRunning : ((schedulerSchedule cpu pending s).thread u).state = .running) :
    (s.current cpu = some u ∧ (s.thread u).state = .ready ∨ (s.thread u).state = .running) ∧
      ((schedulerSchedule cpu pending s).thread u).priority = (s.thread u).priority ∧
      ((schedulerSchedule cpu pending s).thread u).isIdle = (s.thread u).isIdle := by
  rw [schedulerSchedule] at unswitched isRunning ⊢
  split at isRunning
  case isFalse stopped =>
    rw [if_neg stopped]
    exact ⟨.inr isRunning, rfl, rfl⟩
  case isTrue started =>
    rw [if_pos started] at unswitched ⊢
    cases isPick : pickNextTask cpu pending s with
    | none =>
        rw [isPick] at isRunning
        exact ⟨.inr isRunning, rfl, rfl⟩
    | some next =>
        rw [isPick] at isRunning unswitched
        dsimp only at isRunning unswitched ⊢
        by_cases isCurrent : s.current cpu = some next
        · rw [if_pos isCurrent] at isRunning ⊢
          by_cases isReady : (s.thread next).state = .ready
          · rw [if_pos isReady] at isRunning ⊢
            by_cases isNext : u = next
            · subst isNext
              rw [SchedState.setState, s.setThread_self]
              exact ⟨.inl ⟨isCurrent, isReady⟩, rfl, rfl⟩
            · rw [SchedState.setState, s.setThread_other _ isNext] at isRunning ⊢
              exact ⟨.inr isRunning, rfl, rfl⟩
          · rw [if_neg isReady] at isRunning ⊢
            exact ⟨.inr isRunning, rfl, rfl⟩
        · rw [if_neg isCurrent] at isRunning unswitched ⊢
          rw [contextSwitch] at isRunning unswitched ⊢
          by_cases isDead : (s.thread next).state = .zombie ∨ (s.thread next).state = .unused
          · rw [if_pos isDead] at isRunning ⊢
            exact ⟨.inr isRunning, rfl, rfl⟩
          · rw [if_neg isDead] at isRunning unswitched ⊢
            by_cases onIst : (s.thread next).onIst = true
            · rw [if_pos onIst] at isRunning ⊢
              by_cases isNext : u = next
              · subst isNext
                rw [SchedState.setState, s.setThread_self] at isRunning
                cases isRunning
              · rw [SchedState.setState, s.setThread_other _ isNext] at isRunning ⊢
                exact ⟨.inr isRunning, rfl, rfl⟩
            · rw [if_neg onIst] at unswitched
              simp only [Function.update_self] at unswitched
              exact absurd unswitched.symm isCurrent

theorem tickCurrent_runners (sound : SchedSound waits s place)
    (unswitched : (tickCurrent pending s).current 0 = s.current 0) :
    NoNewRunner s (tickCurrent pending s) := by
  rw [tickCurrent] at unswitched ⊢
  cases isCurrent : s.current 0 with
  | none =>
      rw [isCurrent] at unswitched
      dsimp only at unswitched ⊢
      split at unswitched
      · rename_i isWork
        rw [if_pos isWork]
        intro u isRunning
        obtain ⟨⟨isU, -⟩ | before, same⟩ := schedule_runners (unswitched.trans isCurrent.symm) isRunning
        · rw [isCurrent] at isU
          cases isU
        · exact ⟨before, same⟩
      · rename_i noWork
        rw [if_neg noWork]
        exact NoNewRunner.refl s
  | some t =>
      rw [isCurrent] at unswitched
      dsimp only at unswitched ⊢
      by_cases isZombie : (s.thread t).state = .zombie ∧ s.idle 0 ≠ some t
      · rw [if_pos isZombie] at unswitched ⊢
        intro u isRunning
        obtain ⟨⟨isU, isReady⟩ | before, same⟩ := schedule_runners (unswitched.trans isCurrent.symm) isRunning
        · rw [isCurrent] at isU
          cases isU
          rw [isZombie.1] at isReady
          cases isReady
        · exact ⟨before, same⟩
      · rw [if_neg isZombie] at unswitched ⊢
        by_cases isTimed : s.enablePreemption = true ∧ (s.thread t).state = .running
        · rw [if_pos isTimed] at unswitched ⊢
          have counted := sound.countDown t ((s.thread t).timeSlice - 1)
          have ticked : NoNewRunner s (s.setThread t { s.thread t with timeSlice := (s.thread t).timeSlice - 1 }) :=
            NoNewRunner.setThread fun isRunning => ⟨isRunning, rfl, rfl⟩
          obtain ⟨s₁, isTicked⟩ : ∃ s₁, s.setThread t { s.thread t with timeSlice := (s.thread t).timeSlice - 1 } = s₁ :=
            ⟨_, rfl⟩
          have sameCurrent : s₁.current = s.current := by
            rw [← isTicked]
            rfl
          have isT : s₁.thread t = { s.thread t with timeSlice := (s.thread t).timeSlice - 1 } := by
            rw [← isTicked]
            exact s.setThread_self t _
          rw [isTicked] at counted ticked unswitched ⊢
          by_cases isOver : (s₁.thread t).timeSlice = 0
          · rw [if_pos isOver] at unswitched ⊢
            obtain ⟨-, isThread⟩ := (counted.but t).removeTask (counted.proper t).fits
            have requeued : (requeue t s₁).current = s.current :=
              (outside_removeTask t s₁).2.trans sameCurrent
            intro u isRunning
            have still := schedule_runners (unswitched.trans (isCurrent.symm.trans (congrFun requeued.symm 0))) isRunning
            by_cases isU : u = t
            · subst isU
              refine ⟨isTimed.2, still.2.1.trans ?_, still.2.2.trans ?_⟩
              · simp [requeue, schedulerAddTask, SchedState.setState, SchedState.setThread, SchedState.enqueue, isThread, isT]
              · simp [requeue, schedulerAddTask, SchedState.setState, SchedState.setThread, SchedState.enqueue, isThread, isT]
            · have same : (requeue t s₁).thread u = s₁.thread u := by
                simp [requeue, schedulerAddTask, SchedState.setState, SchedState.setThread, SchedState.enqueue, isThread, isU]
              rw [same, requeued, isCurrent] at still
              obtain ⟨⟨isOther, -⟩ | before, samePriority, sameIdle⟩ := still
              · exact absurd (Option.some.inj isOther).symm isU
              · obtain ⟨running, priority, idle⟩ := ticked u before
                exact ⟨running, samePriority.trans priority, sameIdle.trans idle⟩
          · rw [if_neg isOver]
            exact ticked
        · rw [if_neg isTimed]
          exact NoNewRunner.refl s

def boostDue (s : SchedState) : Bool :=
  s.enableBoost && decide (s.boostInterval ≤ s.currentTick - s.lastBoostTick)

theorem boostDue_congr (same : s'.clock = s.clock) : boostDue s' = boostDue s := by
  simp only [SchedState.clock, Prod.mk.injEq] at same
  obtain ⟨sameBoost, sameInterval, sameTick, sameLast⟩ := same
  rw [boostDue, boostDue, sameBoost, sameInterval, sameTick, sameLast]

theorem SchedSound.ticks (sound : SchedSound waits s place) (currentTick lastBoostTick : Nat) :
    SchedSound waits { s with currentTick := currentTick, lastBoostTick := lastBoostTick }
    place := by
  obtain ⟨lists, queues⟩ := sound.queues
  exact ⟨⟨lists, queues.linked, queues.tail, queues.count, queues.placed⟩, sound.proper,
    sound.idles⟩

theorem SchedSound.boost (sound : SchedSound waits s place) (calm : boostDue s = true → Calm s) :
    ∃ place', SchedSound waits (tickBoost s) place' := by
  rw [tickBoost]
  split
  · rename_i due
    obtain ⟨place', moved⟩ := sound.rebalance (calm (by rw [boostDue, due.1]; exact decide_eq_true due.2))
    exact ⟨place', moved.ticks (schedulerRebalance s).currentTick s.currentTick⟩
  · exact ⟨place, sound⟩

theorem SchedSound.tickRest (sound : SchedSound waits s place) (calm : boostDue s = true → Calm s) :
    ∃ place', SchedSound waits (tickRest s) place' := by
  obtain ⟨lists, queues⟩ := sound.queues
  obtain ⟨place', woken⟩ := @SchedSound.wakeSleepers waits s place maxThreads (s.head .sleep) sound
    (fun t isHead => queues.head_placed isHead)
  obtain ⟨sameClock, runners⟩ := wakeSleepers_quiet maxThreads (s.head .sleep) s
  exact woken.boost fun due => runners.calm (calm (boostDue_congr sameClock ▸ due))

theorem SchedSound.tick (sound : SchedSound waits s place)
    (calm : boostDue { s with currentTick := s.currentTick + 1 } = true → Calm s) :
    ∃ place', SchedSound waits (schedulerTick pending s) place' := by
  rw [schedulerTick]
  split
  · have counted : SchedSound waits { s with currentTick := s.currentTick + 1 } place :=
      sound.ticks (s.currentTick + 1) s.lastBoostTick
    obtain ⟨place', ticked⟩ := counted.tickCurrent pending
    dsimp only
    split
    · rename_i unswitched
      have runners := tickCurrent_runners counted unswitched
      refine ticked.tickRest fun due => runners.calm (calm ?_)
      rwa [boostDue_congr (clock_tickCurrent pending _)] at due
    · exact ⟨place', ticked⟩
  · exact ⟨place, sound⟩

/-- Calls of the scheduler; `create`, `exit` and `destroy` are the calls around it in `task.c`, and
`wakeWaiter` is what the futexes do. -/
inductive SchedCall where
  | addTask (t : Tid)
  | removeTask (t : Tid)
  | create (t : Tid) (thread : Thread)
  | exit (t : Tid)
  | destroy (t : Tid)
  | setPriority (t : Tid) (priority : Int)
  | block (cpu : Nat) (pending : Bool) (t : Tid) (w : Nat)
  | unblock (t : Tid)
  | sleep (cpu : Nat) (pending : Bool) (ms : Nat)
  | wakeThread (t : Tid)
  | waitQueueAdd (w : Nat) (t : Tid)
  | waitQueueRemove (w : Nat) (t : Tid)
  | wakeWaiter (w : Nat) (t : Tid)
  | wakeOne (w : Nat)
  | wakeAll (w : Nat)
  | rebalance
  | tick (pending : Bool)
  | tickRest
  | cpuTick (cpu : Nat) (pending kicked : Bool)
  | yield (cpu : Nat) (pending : Bool)
  | schedule (cpu : Nat) (pending : Bool)

/-- `thread_create` of a thread that is not an idle one. -/
def threadCreate (t : Tid) (thread : Thread) (s : SchedState) : SchedState :=
  schedulerAddTask t (s.setThread t { thread with state := .ready, isIdle := false })

def schedStep (s : SchedState) : SchedCall → SchedState
  | .addTask t => schedulerAddTask t s
  | .removeTask t => schedulerRemoveTask t s
  | .create t thread => threadCreate t thread s
  | .exit t => (schedulerRemoveTask t s).setState t .zombie
  | .destroy t => (schedulerRemoveTask t s).setState t .unused
  | .setPriority t priority => schedulerSetPriority t priority s
  | .block cpu pending t w => schedulerBlock cpu pending t w s
  | .unblock t => schedulerUnblock t s
  | .sleep cpu pending ms => schedulerSleep cpu pending ms s
  | .wakeThread t => schedulerWakeThread t s
  | .waitQueueAdd w t => waitQueueAdd w t s
  | .waitQueueRemove w t => waitQueueRemove w t s
  | .wakeWaiter w t => wakeWaiter w t s
  | .wakeOne w => waitQueueWakeOne w s
  | .wakeAll w => waitQueueWakeAll w maxThreads s
  | .rebalance => schedulerRebalance s
  | .tick pending => schedulerTick pending s
  | .tickRest => tickRest s
  | .cpuTick cpu pending kicked => schedulerCpuTick cpu pending kicked s
  | .yield cpu pending => schedulerYield cpu pending s
  | .schedule cpu pending => schedulerSchedule cpu pending s

/-- The walks that `scheduler_remove_task` makes find the thread. -/
def SchedState.listed (s : SchedState) (t : Tid) : Bool :=
  (match (s.thread t).blockedOn with
    | none => false
    | some w => s.links.meets t maxThreads (s.head (.wait w))) ||
  s.links.meets t maxThreads (s.head .sleep) ||
  s.links.meets t maxThreads (s.head (.run (priorityToQueue (s.thread t).priority)))

/-- What a caller has to see to.  A thread joins a list only from none, and loses its place only
when it comes back or need not be on a list. -/
def schedCondition (s : SchedState) : SchedCall → Prop
  | .addTask t =>
      s.listed t = false ∧ (s.thread t).state ≠ .blocked ∧ (s.thread t).state ≠ .sleeping ∧ (s.thread t).state ≠ .unused
  | .removeTask t => (s.thread t).live = false ∨ (s.thread t).isIdle = true
  | .create t _ => (s.thread t).state = .unused ∧ (s.thread t).isIdle = false
  | .setPriority t _ => Movable (s.thread t)
  | .waitQueueAdd _ t => s.listed t = false
  | .waitQueueRemove w t =>
      (s.thread t).live = false ∨ (s.thread t).isIdle = true ∨ (s.thread t).blockedOn ≠ some w
  | .rebalance => Calm s
  | .tick _ => boostDue { s with currentTick := s.currentTick + 1 } = true → Calm s
  | .tickRest => boostDue s = true → Calm s
  | _ => True

instance (s : SchedState) : ∀ call, Decidable (schedCondition s call)
  | .addTask t => inferInstanceAs (Decidable (s.listed t = false ∧ _))
  | .removeTask t => inferInstanceAs (Decidable ((s.thread t).live = false ∨ _))
  | .create t _ => inferInstanceAs (Decidable ((s.thread t).state = .unused ∧ _))
  | .setPriority t _ => inferInstanceAs (Decidable (Movable (s.thread t)))
  | .waitQueueAdd _ t => inferInstanceAs (Decidable (s.listed t = false))
  | .waitQueueRemove _ t => inferInstanceAs (Decidable ((s.thread t).live = false ∨ _))
  | .rebalance => inferInstanceAs (Decidable (Calm s))
  | .tick _ => inferInstanceAs (Decidable (boostDue { s with currentTick := s.currentTick + 1 } = true → Calm s))
  | .tickRest => inferInstanceAs (Decidable (boostDue s = true → Calm s))
  | .exit _ | .destroy _ | .block .. | .unblock _ | .sleep .. | .wakeThread _ | .wakeWaiter ..
  | .wakeOne _
  | .wakeAll _ | .cpuTick .. | .yield .. | .schedule .. => isTrue trivial

theorem SchedSound.unlisted (sound : SchedSound waits s place) (unlisted : s.listed t = false) :
    place t = none := by
  obtain ⟨lists, queues⟩ := sound.queues
  cases here : place t with
  | none => rfl
  | some q =>
      have isFit := (sound.proper t).fits q here
      have found : s.links.meets t maxThreads (s.head q) = true := by
        rw [queues.meets, decide_eq_true_eq, queues.placed]
        exact here
      rw [SchedState.listed, Bool.or_eq_false_iff, Bool.or_eq_false_iff] at unlisted
      obtain ⟨⟨notWaiting, notSleeping⟩, notQueued⟩ := unlisted
      cases q with
      | run i =>
          obtain ⟨-, rfl⟩ := isFit
          rw [found] at notQueued
          cases notQueued
      | wait w =>
          have isQueue : (s.thread t).blockedOn = some w := isFit.1
          rw [isQueue] at notWaiting
          exact absurd (found.symm.trans notWaiting) (by decide)
      | sleep =>
          rw [found] at notSleeping
          cases notSleeping

theorem SchedSound.finish (sound : SchedSound waits s place) {state : TaskState}
    (dead : Thread.live { s.thread t with blockedOn := none, state := state } = false) :
    ∃ place', SchedSound waits ((schedulerRemoveTask t s).setState t state) place' := by
  obtain ⟨gone, isThread⟩ := (sound.but t).removeTask (sound.proper t).fits
  have ended : SoundBut waits t ((schedulerRemoveTask t s).setState t state)
    (Function.update place t none) := gone.setThread rfl
  refine ⟨_, ended.close ?_⟩
  rw [SchedState.setState, SchedState.setThread_self, Function.update_self, isThread,
    Function.update_self]
  exact Proper.nowhere (.inl dead)

def SchedCall.joins : SchedCall → Option (Nat × Tid)
  | .block _ _ t w | .waitQueueAdd w t => some (w, t)
  | _ => none

theorem SchedSound.step (sound : SchedSound waits s place) {call : SchedCall}
    (condition : schedCondition s call)
    (known : ∀ w t, call.joins = some (w, t) → waits w (s.thread t).key) :
    ∃ place', SchedSound waits (schedStep s call) place' := by
  cases call with
  | addTask t =>
      obtain ⟨unlisted, awake, up, inUse⟩ := condition
      exact ⟨_, (sound.but t).addReady (sound.unlisted unlisted) awake up inUse⟩
  | removeTask t =>
      obtain ⟨gone, isThread⟩ := (sound.but t).removeTask (sound.proper t).fits
      refine ⟨_, gone.close ?_⟩
      rw [isThread, Function.update_self, Function.update_self]
      exact Proper.nowhere condition
  | create t thread =>
      obtain ⟨isUnused, busy⟩ := condition
      have free := (sound.proper t).stray (.inl isUnused)
      have filled : SoundBut waits t (s.setThread t { thread with state := .ready, isIdle := false }) place :=
        (sound.but t).setThread busy.symm
      have joined := filled.addReady free (by rw [s.setThread_self]; exact fun same => (nomatch same))
        (by rw [s.setThread_self]; exact fun same => (nomatch same))
        (by rw [s.setThread_self]; exact fun same => (nomatch same))
      exact ⟨_, joined⟩
  | exit t => exact sound.finish rfl
  | destroy t => exact sound.finish rfl
  | setPriority t priority =>
      obtain ⟨⟨p, moved⟩, -⟩ := sound.setPriority condition priority
      exact ⟨_, moved⟩
  | block cpu pending t w => exact sound.block cpu pending t w (known w t rfl)
  | unblock t => exact sound.unblock t
  | sleep cpu pending ms => exact sound.sleep cpu pending ms
  | wakeThread t => exact sound.wakeThread t
  | waitQueueAdd w t =>
    exact ⟨_, (sound.but t).waitQueueAdd (sound.unlisted condition) (known w t rfl)⟩
  | waitQueueRemove w t => exact sound.removeWaiter condition
  | wakeWaiter w t => exact sound.wakeWaiter w t
  | wakeOne w => exact sound.wakeOne w
  | wakeAll w => exact sound.wakeAll w maxThreads
  | rebalance => exact sound.rebalance condition
  | tick pending => exact sound.tick condition
  | tickRest => exact sound.tickRest condition
  | cpuTick cpu pending kicked => exact sound.cpuTick cpu pending kicked
  | yield cpu pending => exact sound.yield cpu pending
  | schedule cpu pending => exact ⟨place, sound.schedule cpu pending⟩

/-- `scheduler_init`: no lists, and no threads but the idle ones. -/
structure Boots (s : SchedState) : Prop where
  head : ∀ q, s.head q = none
  tail : ∀ q, s.tail q = none
  count : ∀ q, s.count q = 0
  threads : ∀ t, (s.thread t).state = .unused ∨ (s.thread t).isIdle = true
  idles : ∀ cpu t, s.idle cpu = some t → (s.thread t).isIdle = true

/-- Every live thread is on the one list that its state demands, and the lists are in order. -/
def EveryThreadListed (s : SchedState) : Prop :=
  ∃ lists : QueueId → List Tid,
    (∀ q, Linked s.links (s.head q) (lists q)) ∧
    (∀ q, q ≠ .sleep → s.tail q = (lists q).getLast? ∧ s.count q = (lists q).length) ∧
    ∀ t, (s.thread t).live = true → (s.thread t).isIdle = false →
      ∃ q, (s.thread t).home = some q ∧ ∀ p, t ∈ lists p ↔ p = q

theorem Boots.sound (boots : Boots s) : SchedSound waits s (fun _ => none) := by
  refine ⟨⟨fun _ => [], fun q => ⟨boots.head q, trivial, List.nodup_nil⟩, fun q _ => boots.tail q,
    fun q _ => boots.count q,
    fun t q => ⟨fun member => (nomatch member), fun isPlace => (nomatch isPlace)⟩⟩,
    fun t => Proper.nowhere ?_, boots.idles⟩
  obtain isUnused | isIdle := boots.threads t
  · exact .inl (by rw [Thread.live, isUnused])
  · exact .inr isIdle

theorem SchedSound.everyThreadListed (sound : SchedSound waits s place) : EveryThreadListed s := by
  obtain ⟨lists, queues⟩ := sound.queues
  refine ⟨lists, queues.linked, fun q notSleep => ⟨queues.tail q notSleep, queues.count q notSleep⟩,
    fun t live busy => ?_⟩
  obtain ⟨isSome, isHome⟩ := (sound.proper t).present live busy
  obtain ⟨q, isPlace⟩ := Option.isSome_iff_exists.mp isSome
  refine ⟨q, isHome.trans isPlace, fun p => ?_⟩
  rw [queues.placed, isPlace, Option.some.injEq]
  exact eq_comm

theorem runs_keep_threads_listed {start : SchedState} (boots : Boots start)
    (reached : Reaches schedStep schedCondition start s) : EveryThreadListed s := by
  obtain ⟨place, sound⟩ := @Reaches.invariant _ _ schedStep schedCondition start s
    (fun s => ∃ place, SchedSound (fun _ _ => True) s place) reached ⟨_, boots.sound⟩
    (fun _ _ ⟨_, sound⟩ condition => sound.step condition fun _ _ _ => trivial)
  exact sound.everyThreadListed

/-- The machine after `task_init`, with the idle thread of the boot processor. -/
def bootState : SchedState where
  thread t :=
    { pid := 0, state := if t = 0 then .ready else .unused, priority := 1, timeSlice := 10, blockedOn := none, onCpu := false,
      smpOk := false, isIdle := decide (t = 0), onIst := false, futexAddr := 0, futexDeadline := 0, futexWoken := false }
  links := ⟨fun _ => none, fun _ => none⟩
  head _ := none
  tail _ := none
  count _ := 0
  current _ := none
  idle cpu := if cpu = 0 then some 0 else none
  schedulerRunning := true
  enablePreemption := true
  enableBoost := true
  boostInterval := 10000
  currentTick := 0
  lastBoostTick := 0

/-- A new thread has `SCHED_PRIO_DEFAULT`. -/
def newThread : Thread where
  pid := 1
  state := .created
  priority := 20
  timeSlice := 10
  blockedOn := none
  onCpu := false
  smpOk := true
  isIdle := false
  onIst := false
  futexAddr := 0
  futexDeadline := 0
  futexWoken := false

theorem bootState_boots : Boots bootState := by
  refine ⟨fun _ => rfl, fun _ => rfl, fun _ => rfl, fun t => ?_, fun cpu t isIdle => ?_⟩
  · by_cases isZero : t = 0
    · exact .inr (decide_eq_true isZero)
    · exact .inl (if_neg isZero)
  · refine decide_eq_true ?_
    by_cases isBoot : cpu = 0
    · have same : some (0 : Tid) = some t := by
        rw [← isIdle]
        exact (if_pos isBoot).symm
      exact (Option.some.inj same).symm
    · have absent : (none : Option Tid) = some t := by
        rw [← isIdle]
        exact (if_neg isBoot).symm
      cases absent

theorem runs_keep_threads_listed_wait : EveryThreadListed (runSteps schedStep bootState
    [.create 1 newThread, .schedule 0 false, .block 0 false 1 7, .tick false, .wakeOne 7,
      .schedule 0 false, .sleep 0 false 3, .setPriority 2 50, .tick false]) :=
  runs_keep_threads_listed bootState_boots (Reaches.refl.runSteps (by decide))

/-- The boost takes the running thread from its queue and does not put it back. -/
theorem boost_loses_running : Boots bootState ∧ ¬ EveryThreadListed (runSteps schedStep bootState
    [.create 1 newThread, .schedule 0 false, .rebalance]) := by
  refine ⟨bootState_boots, ?_⟩
  rintro ⟨lists, linked, -, every⟩
  obtain ⟨q, isHome, member⟩ := every 1 (by decide) (by decide)
  have isQueue : q = .run 34 := by
    rw [← Option.some.injEq, ← isHome]
    decide
  have inside := (member q).mpr rfl
  have isHead := (linked q).head
  rw [isQueue] at inside isHead
  rw [List.head?_eq_none_iff.mp isHead.symm] at inside
  cases inside

end Cos.Sched
