import Cos.Sched.Futex

/-! # Runs of the futexes

Threads of any processes wait, wake, time out and end in any order.  A wake matches waiters by their
address alone, so it is exact just when the waiters that it comes to first are its own.
-/

namespace Cos.Sched

open Cos.Lib

variable {s : SchedState} {lists : QueueId → List Tid} {place : Tid → Option QueueId} {t u : Tid}
  {b cpu : Nat} {p uaddr n : Nat}

inductive FutexCall where
  | sched (call : SchedCall)
  | wait (cpu : Nat) (pending : Bool) (uaddr : Nat) (word : Option Nat) (expected timeout now : Nat)
  | resume (t : Tid) (now : Nat)
  | wake (pid uaddr count : Nat)
  | expire (now : Nat)
  | release (pid : Nat)

def futexStep (s : SchedState) : FutexCall → SchedState
  | .sched call => schedStep s call
  | .wait cpu pending uaddr word expected timeout now =>
    (cosFutexWait cpu pending uaddr word expected timeout now s).2
  | .resume t now => (futexReturn t now s).2
  | .wake pid uaddr count => (cosFutexWake pid uaddr count s).2
  | .expire now => cosFutexExpireTimeouts now s
  | .release pid => cosFutexReleasePid pid s

/-- The scheduler is used as it asks for, only futex calls use the buckets, and a thread runs when
it makes a call. -/
def futexAllowed (s : SchedState) : FutexCall → Prop
  | .sched call => schedCondition s call ∧ (call.joins.all fun joined => decide (futexBuckets ≤ joined.1)) = true
  | .wait cpu .. => ((s.current cpu).all fun t => decide ((s.thread t).state = .running ∧ (s.thread t).isIdle = false)) = true
  | .resume t _ => (s.thread t).state = .running ∧ (s.thread t).isIdle = false
  | .wake .. | .expire _ | .release _ => True

instance (s : SchedState) : ∀ call, Decidable (futexAllowed s call)
  | .sched call => inferInstanceAs (Decidable (schedCondition s call ∧ _ = true))
  | .wait cpu .. => inferInstanceAs (Decidable (((s.current cpu).all fun t =>
      decide ((s.thread t).state = .running ∧ (s.thread t).isIdle = false)) = true))
  | .resume t _ => inferInstanceAs (Decidable ((s.thread t).state = .running ∧ (s.thread t).isIdle = false))
  | .wake .. | .expire _ | .release _ => isTrue trivial

theorem futexHash_lt (pid uaddr : Nat) : futexHash pid uaddr < futexBuckets :=
  Nat.mod_lt _ (by decide)

theorem SchedSound.setFutex (sound : SchedSound futexWaits s place)
    (isRunning : (s.thread t).state = .running) (busy : (s.thread t).isIdle = false)
    (addr deadline : Nat) (woken : Bool) : SchedSound futexWaits (s.setThread t { s.thread t with
      futexAddr := addr, futexDeadline := deadline, futexWoken := woken }) place := by
  have proper := sound.proper t
  obtain ⟨-, isHome⟩ := proper.present (by rw [Thread.live, isRunning]) busy
  rw [Thread.home, isRunning] at isHome
  refine sound.setThread rfl ?_
  rw [← isHome] at proper ⊢
  obtain ⟨unblocked, -⟩ := proper.fits _ rfl
  exact @Proper.queued futexWaits
    { s.thread t with futexAddr := addr, futexDeadline := deadline, futexWoken := woken } unblocked
    (fun same => (by cases isRunning.symm.trans same))
    (fun same => (by cases isRunning.symm.trans same))
    (fun same => (by cases isRunning.symm.trans same))

theorem SchedSound.futexWait {pending : Bool} {word : Option Nat} {expected timeout now : Nat}
    (sound : SchedSound futexWaits s place)
    (runs : ∀ t, s.current cpu = some t →
    (s.thread t).state = .running ∧ (s.thread t).isIdle = false) :
    ∃ place', SchedSound futexWaits (cosFutexWait cpu pending uaddr word expected timeout now s).2
    place' := by
  rw [cosFutexWait]
  cases isCurrent : s.current cpu with
  | none => exact ⟨place, sound⟩
  | some t =>
      obtain ⟨isRunning, busy⟩ := runs t isCurrent
      cases isWord : readFutexWord uaddr word with
      | none => exact ⟨place, sound⟩
      | some actual =>
          dsimp only
          split
          · have isAddr : uaddr ≠ 0 := by
              rw [readFutexWord] at isWord
              split at isWord
              · rename_i isOk
                exact (of_decide_eq_true isOk).2.1
              · cases isWord
            refine (sound.setFutex isRunning busy uaddr (if timeout = 0 then 0
              else (now + timeout) % 2 ^ 64) false).block cpu pending t _ ?_
            rw [s.setThread_self]
            exact fun _ => ⟨busy, isAddr, rfl⟩
          · exact ⟨place, sound⟩

theorem SchedSound.scan {matching : Thread → Bool} {woken : Bool} {budget : Nat}
    (sound : SchedSound futexWaits s place) (inRange : b < futexBuckets) :
    ∃ place', SchedSound futexWaits
    (futexScan b matching woken maxThreads budget (s.head (.wait b)) s).2 place' := by
  obtain ⟨lists, queues⟩ := sound.queues
  have scanned := @futexScan_spec s lists place b matching woken (lists (.wait b)) [] maxThreads
    budget sound queues inRange rfl (queues.length_le _)
  rw [← (queues.linked (.wait b)).head] at scanned
  exact scanned.1

theorem SchedSound.scanAll (sound : SchedSound futexWaits s place) (matching : Thread → Bool)
    (woken : Bool) : ∃ place', SchedSound futexWaits (futexScanAll matching woken s) place' := by
  have walk : ∀ buckets : List Nat, (∀ b ∈ buckets, b < futexBuckets) →
      ∀ s place, SchedSound futexWaits s place → ∃ place', SchedSound futexWaits (buckets.foldl
        (fun s b => (futexScan b matching woken maxThreads maxThreads (s.head (.wait b)) s).2) s) place' := by
    intro buckets
    induction buckets with
    | nil => exact fun _ s place sound => ⟨place, sound⟩
    | cons b rest ih =>
        intro inRange s place sound
        obtain ⟨place', scanned⟩ := @SchedSound.scan s place b matching woken maxThreads sound (inRange b List.mem_cons_self)
        exact ih (fun c member => inRange c (List.mem_cons_of_mem _ member)) _ _ scanned
  exact walk _ (fun b member => List.mem_range.mp member) s place sound

theorem SchedSound.futexStep (sound : SchedSound futexWaits s place) {call : FutexCall}
    (allowed : futexAllowed s call) :
    ∃ place', SchedSound futexWaits (futexStep s call) place' := by
  cases call with
  | sched call =>
      obtain ⟨condition, apart⟩ := allowed
      refine sound.step condition fun w t joined => ?_
      rw [joined] at apart
      intro inRange
      exact absurd inRange (Nat.not_lt.mpr (of_decide_eq_true apart))
  | wait cpu pending uaddr word expected timeout now =>
      refine sound.futexWait fun t isCurrent => ?_
      have runs : ((s.current cpu).all fun t =>
        decide ((s.thread t).state = .running ∧ (s.thread t).isIdle = false)) = true := allowed
      rw [isCurrent] at runs
      exact of_decide_eq_true runs
  | resume t now =>
      exact ⟨place, sound.setFutex allowed.1 allowed.2 0 (s.thread t).futexDeadline (s.thread t).futexWoken⟩
  | wake pid uaddr count =>
      simp only [Sched.futexStep, cosFutexWake]
      split
      · exact sound.scan (futexHash_lt pid uaddr)
      · exact ⟨place, sound⟩
  | expire now =>
      exact sound.scanAll (fun thread => decide (thread.futexDeadline ≠ 0 ∧ thread.futexDeadline ≤ now)) false
  | release pid => exact sound.scanAll (fun thread => decide (thread.pid = pid)) true

def bucketThreads (s : SchedState) (b : Nat) : List Tid :=
  s.links.walk maxThreads (s.head (.wait b))

/-- The threads of process `p` that wait on `uaddr`. -/
def futexWaiters (s : SchedState) (p uaddr : Nat) : Finset Tid :=
  Finset.univ.filter fun t => (s.thread t).isIdle = false ∧ (s.thread t).state = .blocked ∧
    ((s.thread t).blockedOn.any fun b => decide (b < futexBuckets)) = true ∧ (s.thread t).pid = p ∧
    (s.thread t).futexAddr = uaddr

def wokenBy (s : SchedState) (p uaddr n : Nat) : Finset Tid :=
  Finset.univ.filter fun t =>
    (s.thread t).state = .blocked ∧ ((cosFutexWake p uaddr n s).2.thread t).state ≠ .blocked

/-- A wake of `n` by process `p` wakes its own waiters on `uaddr`, as many as there are up to `n`,
and says how many. -/
structure WakeExact (s : SchedState) (p uaddr n : Nat) : Prop where
  own : wokenBy s p uaddr n ⊆ futexWaiters s p uaddr
  count : (wokenBy s p uaddr n).card = min n (futexWaiters s p uaddr).card
  result : (cosFutexWake p uaddr n s).1 = (wokenBy s p uaddr n).card

/-- The waiters on `uaddr` that a wake of `n` comes to first. -/
def firstWaiters (s : SchedState) (p uaddr n : Nat) : List Tid :=
  ((bucketThreads s (futexHash p uaddr)).filter fun t =>
    decide ((s.thread t).futexAddr = uaddr)).take n

theorem bucketThreads_eq (queues : QueuesSound s lists place) (b : Nat) :
    bucketThreads s b = lists (.wait b) := by
  rw [bucketThreads, (queues.linked (.wait b)).head]
  exact (queues.linked (.wait b)).segment.walk (queues.length_le _)

theorem wokenBy_eq (sound : SchedSound futexWaits s place) (isAddr : futexAddrOk uaddr = true) :
    wokenBy s p uaddr n = (firstWaiters s p uaddr n).toFinset ∧
      (cosFutexWake p uaddr n s).1 = (firstWaiters s p uaddr n).length := by
  obtain ⟨lists, queues⟩ := sound.queues
  have scanned := @futexScan_spec s lists place (futexHash p uaddr)
    (fun thread => decide (thread.futexAddr = uaddr)) true
    (lists (.wait (futexHash p uaddr))) [] maxThreads n sound queues (futexHash_lt p uaddr) rfl
    (queues.length_le _)
  rw [← (queues.linked (.wait (futexHash p uaddr))).head, ← bucketThreads_eq queues] at scanned
  obtain ⟨-, isCount, isThreads⟩ := scanned
  rw [cosFutexWake, if_pos isAddr]
  refine ⟨?_, congrArg Nat.cast isCount⟩
  ext u
  rw [wokenBy, Finset.mem_filter, cosFutexWake, if_pos isAddr, List.mem_toFinset, firstWaiters]
  rw [isThreads u]
  constructor
  · rintro ⟨-, isBlocked, isAwake⟩
    by_contra outside
    rw [if_neg outside] at isAwake
    exact isAwake isBlocked
  · intro inside
    have member : u ∈ lists (.wait (futexHash p uaddr)) := by
      rw [← bucketThreads_eq queues]
      exact List.mem_of_mem_filter (List.mem_of_mem_take inside)
    obtain ⟨isBlocked, -⟩ := sound.bucket (futexHash_lt p uaddr) ((queues.placed _ _).mp member)
    refine ⟨Finset.mem_univ u, isBlocked, ?_⟩
    rw [if_pos inside]
    exact fun same => (nomatch same)

theorem futexWaiters_eq (sound : SchedSound futexWaits s place) :
    futexWaiters s p uaddr = (((bucketThreads s (futexHash p uaddr)).filter fun t =>
      decide ((s.thread t).futexAddr = uaddr)).filter fun t => decide ((s.thread t).pid = p)).toFinset := by
  obtain ⟨lists, queues⟩ := sound.queues
  ext u
  rw [futexWaiters, Finset.mem_filter, List.mem_toFinset, List.mem_filter, List.mem_filter,
    decide_eq_true_eq, decide_eq_true_eq, bucketThreads_eq queues, queues.placed]
  constructor
  · rintro ⟨-, busy, isBlocked, isBucket, isPid, isAddr⟩
    cases isQueue : (s.thread u).blockedOn with
    | none =>
        rw [isQueue] at isBucket
        cases isBucket
    | some c =>
        rw [isQueue, Option.any_some, decide_eq_true_eq] at isBucket
        obtain ⟨-, isHome⟩ := (sound.proper u).present (by rw [Thread.live, isBlocked]) busy
        rw [Thread.home, isBlocked, isQueue] at isHome
        obtain ⟨-, -, -, -, isHash⟩ := sound.bucket isBucket isHome.symm
        rw [isPid, isAddr] at isHash
        refine ⟨⟨?_, isAddr⟩, isPid⟩
        rw [← isHome, ← isHash]
        rfl
  · rintro ⟨⟨here, isAddr⟩, isPid⟩
    obtain ⟨isBlocked, isQueue, busy, -, -⟩ := sound.bucket (futexHash_lt p uaddr) here
    refine ⟨Finset.mem_univ u, busy, isBlocked, ?_, isPid, isAddr⟩
    rw [isQueue, Option.any_some, decide_eq_true_eq]
    exact futexHash_lt p uaddr

theorem length_take_filter {α : Type} {list : List α} {passes : α → Bool} {n : Nat}
    (all : ∀ x ∈ list.take n, passes x = true) :
    (list.take n).length = min n (list.filter passes).length := by
  have split : (list.filter passes).length =
    (list.take n).length + ((list.drop n).filter passes).length := by
    conv_lhs => rw [← List.take_append_drop n list, List.filter_append, List.length_append,
      List.filter_eq_self.mpr all]
  rw [split]
  by_cases isShort : list.length ≤ n
  · rw [List.drop_eq_nil_of_le isShort, List.length_take]
    simp
  · rw [List.length_take]
    omega

theorem wakeExact_iff (sound : SchedSound futexWaits s place) (isAddr : futexAddrOk uaddr = true) :
    WakeExact s p uaddr n ↔ ∀ t ∈ firstWaiters s p uaddr n, (s.thread t).pid = p := by
  obtain ⟨isWoken, isResult⟩ := @wokenBy_eq s place p uaddr n sound isAddr
  have isWaiters := @futexWaiters_eq s place p uaddr sound
  constructor
  · intro exact t first
    have woken : t ∈ wokenBy s p uaddr n := by
      rw [isWoken]
      exact List.mem_toFinset.mpr first
    exact (Finset.mem_filter.mp (exact.own woken)).2.2.2.2.1
  · intro own
    obtain ⟨lists, queues⟩ := sound.queues
    have nodup : (bucketThreads s (futexHash p uaddr)).Nodup := by
      rw [bucketThreads_eq queues]
      exact (queues.linked _).nodup
    have passes : ∀ t ∈ firstWaiters s p uaddr n, decide ((s.thread t).pid = p) = true := fun t first =>
      decide_eq_true (own t first)
    have nodupFirst : (firstWaiters s p uaddr n).Nodup := (nodup.filter _).sublist (List.take_sublist _ _)
    have isCard : (wokenBy s p uaddr n).card = (firstWaiters s p uaddr n).length := by
      rw [isWoken, List.toFinset_card_of_nodup nodupFirst]
    refine ⟨?_, ?_, ?_⟩
    · rw [isWoken, isWaiters]
      intro t first
      rw [List.mem_toFinset] at first ⊢
      exact List.mem_filter.mpr ⟨List.mem_of_mem_take first, passes t first⟩
    · rw [isCard, isWaiters, List.toFinset_card_of_nodup ((nodup.filter _).filter _)]
      exact length_take_filter passes
    · rw [isResult, isCard]

/-- A thread on a futex bucket is blocked in a futex wait, and is on one bucket only. -/
def BucketsKept (s : SchedState) : Prop :=
  ∀ t b, b < futexBuckets → t ∈ bucketThreads s b →
    (s.thread t).state = .blocked ∧ (s.thread t).futexAddr ≠ 0 ∧
      b = futexHash (s.thread t).pid (s.thread t).futexAddr ∧ ∀ c, t ∈ bucketThreads s c → c = b

theorem SchedSound.bucketsKept (sound : SchedSound futexWaits s place) : BucketsKept s := by
  obtain ⟨lists, queues⟩ := sound.queues
  intro t b inRange member
  rw [bucketThreads_eq queues, queues.placed] at member
  obtain ⟨isBlocked, -, -, isAddr, isHash⟩ := sound.bucket inRange member
  refine ⟨isBlocked, isAddr, isHash, fun c elsewhere => ?_⟩
  rw [bucketThreads_eq queues, queues.placed, member] at elsewhere
  cases elsewhere
  rfl

theorem futex_wakes_own_first {start : SchedState} (boots : Boots start)
    (reached : Reaches futexStep futexAllowed start s) :
    BucketsKept s ∧ ∀ p uaddr n, futexAddrOk uaddr = true →
      (WakeExact s p uaddr n ↔ ∀ t ∈ firstWaiters s p uaddr n, (s.thread t).pid = p) := by
  obtain ⟨place, sound⟩ := @Reaches.invariant _ _ futexStep futexAllowed start s
    (fun s => ∃ place, SchedSound futexWaits s place) reached ⟨_, boots.sound⟩
    (fun _ _ ⟨_, sound⟩ allowed => sound.futexStep allowed)
  exact ⟨sound.bucketsKept, fun p uaddr n isAddr => wakeExact_iff sound isAddr⟩

/-- Threads of the processes 2 and 12 wait on the same address.  Their words have the same
bucket. -/
def twoWaiters : List FutexCall :=
  [.sched (.create 1 { newThread with pid := 2 }), .sched (.schedule 0 false),
    .wait 0 false 0x1000 (some 0) 0 0 0, .sched (.create 2 { newThread with pid := 12 }),
    .sched (.schedule 0 false), .wait 0 false 0x1000 (some 0) 0 0 0]

theorem futex_wakes_own_first_two :
    WakeExact (runSteps futexStep bootState twoWaiters) 2 0x1000 1 :=
  ((futex_wakes_own_first bootState_boots (Reaches.refl.runSteps (by decide))).2
    2 0x1000 1 (by decide)).mpr (by set_option maxRecDepth 100000 in decide)

/-- The second process wakes one thread, and it is the first process's. -/
theorem wake_leaves_process : StepsAllowed futexStep futexAllowed bootState twoWaiters ∧
    ¬ WakeExact (runSteps futexStep bootState twoWaiters) 12 0x1000 1 := by
  refine ⟨by decide, fun exact => ?_⟩
  have woken : (1 : Tid) ∈ wokenBy (runSteps futexStep bootState twoWaiters) 12 0x1000 1 :=
    Finset.mem_filter.mpr ⟨Finset.mem_univ _, by decide, by decide⟩
  have isPid := (Finset.mem_filter.mp (exact.own woken)).2.2.2.2.1
  exact absurd isPid (by decide)

end Cos.Sched
