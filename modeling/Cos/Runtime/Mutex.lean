import Cos.Runtime.RwLock
import Mathlib.Data.Set.Basic

/-! # The mutex and the condition variable

`cos_mutex_*` and `cos_cond_*` of `cos_sync.c` over one mutex and one condition variable, one atomic
step of one thread at a time.
-/

namespace Cos.Runtime

open Cos.Lib
open Function (update)

/-- `ATOMIC_SUB(p, 1)`. -/
def decrement (v : Nat) : Nat := add32 v 0xffffffff

def spinTries : Nat := 64

inductive SyncPc
  | idle
  | lockCas
  | spinLoad (i : Nat)
  | spinCas (i : Nat)
  | tryCas
  | timedCas
  | xchg (timed : Bool)
  | clock
  | futex (timed : Bool)
  | sleep (timed : Bool)
  | unlock
  | wake
  | condLoad
  | condAdd (seen : Nat)
  | condUnlock (seen : Nat)
  | condWake (seen : Nat)
  | condFutex (seen : Nat)
  | condSleep
  | condSub
  | signalAdd (all : Bool)
  | signalLoad (all : Bool)
  | signalWake (all : Bool)
deriving DecidableEq

structure Monitor (T : Type) where
  /-- `m->state` and who is parked there. -/
  mutex : Nat
  lockers : List T
  seq : Nat
  waiters : Nat
  /-- Who is parked at `seq`. -/
  waiting : List T
  pcs : T → SyncPc
  /-- Auxiliary: who is between lock and unlock; how often `seq` was counted up, in all and before
  each thread read it; a number for each wait, with the next one free; who is counted in
  `waiters`. -/
  holders : List T
  adds : Nat
  readAt : T → Nat
  waitId : T → Nat
  waits : Nat
  counted : List T
  /-- Auxiliary: the waits each signal found, while it runs and once it is over. -/
  found : T → Set Nat
  signalled : List (Set Nat)

inductive SyncStep (T : Type)
  | lock (t : T)
  | trylock (t : T)
  | timedlock (t : T)
  /-- By the thread that holds the mutex, as `condWait`. -/
  | unlock (t : T)
  | condWait (t : T)
  | signal (t : T) (all : Bool)
  /-- The clock says that the deadline has passed, where it is read. -/
  | go (t : T) (late : Bool)
  /-- The futex returns early. -/
  | leave (t : T)
deriving DecidableEq

variable {T : Type} [DecidableEq T]

section

variable (s : Monitor T) (t : T)

def Monitor.goto (pc : SyncPc) : Monitor T := { s with pcs := update s.pcs t pc }

def Monitor.enter (pc : SyncPc) : Monitor T := if s.pcs t = .idle then s.goto t pc else s

def Monitor.acquire (word : Nat) : Monitor T :=
  { s with mutex := word, holders := t :: s.holders }.goto t .idle

/-- `for (i = 0; i < COS_SPIN_TRIES; ++i)`. -/
def spinNext (i : Nat) : SyncPc := if i + 1 < spinTries then .spinLoad (i + 1) else .xchg false

/-- A wait some thread is in: it has read `seq`, released the mutex and is not woken. -/
def Monitor.IsWaiting (i : Nat) : Prop :=
  ∃ t, s.waitId t = i ∧
    (t ∈ s.waiting ∨ ∃ seen, s.pcs t = .condWake seen ∨ s.pcs t = .condFutex seen)

def syncGo (late : Bool) : Monitor T :=
  match s.pcs t with
  | .idle => s
  -- cos_mutex_lock
  | .lockCas => if s.mutex = 0 then s.acquire t 1 else s.goto t (.spinLoad 0)
  | .spinLoad i => s.goto t (if s.mutex = 0 then .spinCas i else spinNext i)
  | .spinCas i => if s.mutex = 0 then s.acquire t 1 else s.goto t (spinNext i)
  -- cos_mutex_trylock
  | .tryCas => if s.mutex = 0 then s.acquire t 1 else s.goto t .idle
  -- cos_mutex_timedlock
  | .timedCas => if s.mutex = 0 then s.acquire t 1 else s.goto t (.xchg true)
  | .xchg timed =>
      if s.mutex = 0 then s.acquire t 2
      else { s with mutex := 2 }.goto t (if timed then .clock else .futex false)
  | .clock => s.goto t (if late then .idle else .futex true)
  | .futex timed =>
      if s.mutex = 2 then { s with lockers := s.lockers ++ [t] }.goto t (.sleep timed) else s.goto t (.xchg timed)
  | .sleep timed => if t ∈ s.lockers then s else s.goto t (.xchg timed)
  -- cos_mutex_unlock
  | .unlock =>
      { s with mutex := 0, holders := s.holders.erase t }.goto t (if s.mutex = 2 then .wake else .idle)
  | .wake => { s with lockers := s.lockers.drop 1 }.goto t .idle
  -- cos_cond_timedwait
  | .condLoad =>
      { s with
        readAt := update s.readAt t s.adds
        waitId := update s.waitId t s.waits
        waits := s.waits + 1 }.goto t (.condAdd s.seq)
  | .condAdd seen =>
      { s with waiters := add32 s.waiters 1, counted := t :: s.counted }.goto t (.condUnlock seen)
  | .condUnlock seen =>
      { s with mutex := 0, holders := s.holders.erase t }.goto t
        (if s.mutex = 2 then .condWake seen else .condFutex seen)
  | .condWake seen => { s with lockers := s.lockers.drop 1 }.goto t (.condFutex seen)
  | .condFutex seen =>
      if s.seq = seen then { s with waiting := s.waiting ++ [t] }.goto t .condSleep else s.goto t .condSub
  | .condSleep => if t ∈ s.waiting then s else s.goto t .condSub
  | .condSub =>
      { s with waiters := decrement s.waiters, counted := s.counted.erase t }.goto t .lockCas
  -- cos_cond_signal, cos_cond_broadcast
  | .signalAdd all =>
      { s with
        seq := add32 s.seq 1
        adds := s.adds + 1
        found := update s.found t { i | s.IsWaiting i } }.goto t (.signalLoad all)
  | .signalLoad all =>
      if 0 < s.waiters then s.goto t (.signalWake all)
      else { s with signalled := s.found t :: s.signalled }.goto t .idle
  | .signalWake all =>
      { s with
        waiting := s.waiting.drop (if all then wakeAll else 1)
        signalled := s.found t :: s.signalled }.goto t .idle

end

def syncStep (s : Monitor T) : SyncStep T → Monitor T
  | .lock t => s.enter t .lockCas
  | .trylock t => s.enter t .tryCas
  | .timedlock t => s.enter t .timedCas
  | .unlock t => if t ∈ s.holders then s.enter t .unlock else s
  | .condWait t => if t ∈ s.holders then s.enter t .condLoad else s
  | .signal t all => s.enter t (.signalAdd all)
  | .go t late => syncGo s t late
  | .leave t => { s with lockers := s.lockers.erase t, waiting := s.waiting.erase t }

/-- `cos_mutex_init` and `cos_cond_init`. -/
def syncInit : Monitor T where
  mutex := 0
  lockers := []
  seq := 0
  waiters := 0
  waiting := []
  pcs := fun _ => .idle
  holders := []
  adds := 0
  readAt := fun _ => 0
  waitId := fun _ => 0
  waits := 0
  counted := []
  found := fun _ => ∅
  signalled := []

/-- The thread is about to wake a locker, or to look at the mutex once more before it parks. -/
def SyncPc.contends : SyncPc → Bool
  | .xchg _ | .sleep _ | .wake | .condWake _ => true
  | _ => false

structure MutexOk (s : Monitor T) : Prop where
  exclusive : s.holders.length ≤ 1
  /-- Nobody sleeps at a free mutex. -/
  awake : s.mutex = 0 → s.lockers ≠ [] → ∃ t, t ∉ s.lockers ∧ (s.pcs t).contends = true

def SyncPc.holds : SyncPc → Bool
  | .unlock | .condLoad | .condAdd _ | .condUnlock _ => true
  | _ => false

structure MutexSound (word : Nat) (parked : List T) (pcs : T → SyncPc) (holders : List T) :
    Prop where
  held : (word = 0 ∧ holders = []) ∨ (word ≠ 0 ∧ holders.length = 1)
  holding : ∀ t, (pcs t).holds = true → t ∈ holders
  asleep : ∀ t ∈ parked, ∃ timed, pcs t = .sleep timed
  once : parked.Nodup
  woken : parked ≠ [] → word = 2 ∨ ∃ t, t ∉ parked ∧ (pcs t).contends = true

variable {word : Nat} {parked holders : List T} {pcs : T → SyncPc} {t u : T} {pc : SyncPc}

omit [DecidableEq T] in
theorem MutexSound.not_parked (sound : MutexSound word parked pcs holders)
    (awake : ∀ timed, pcs t ≠ .sleep timed) : t ∉ parked := by
  intro member
  obtain ⟨timed, asleep⟩ := sound.asleep t member
  exact awake timed asleep

theorem MutexSound.changed {word' : Nat} {holders' : List T}
    (sound : MutexSound word parked pcs holders) (awake : t ∉ parked)
    (isWord : (word' = 0 ∧ holders' = []) ∨ (word' ≠ 0 ∧ holders'.length = 1))
    (others : ∀ u, u ≠ t → (pcs u).holds = true → u ∈ holders')
    (own : pc.holds = true → t ∈ holders')
    (woken : parked ≠ [] → word' = 2 ∨ pc.contends = true ∨ ∃ u, u ≠ t ∧ u ∉ parked ∧
    (pcs u).contends = true) : MutexSound word' parked (update pcs t pc) holders' where
  held := isWord
  holding := by
    intro u
    by_cases same : u = t
    · rw [same, Function.update_self]
      exact own
    · rw [Function.update_of_ne same]
      exact others u same
  asleep := by
    intro u member
    have differ : u ≠ t := by
      rintro rfl
      exact awake member
    rw [Function.update_of_ne differ]
    exact sound.asleep u member
  once := sound.once
  woken := by
    intro some
    rcases woken some with full | contends | ⟨u, differ, free, contends⟩
    · exact Or.inl full
    · exact Or.inr ⟨t, awake, by rw [Function.update_self]; exact contends⟩
    · exact Or.inr ⟨u, free, by rw [Function.update_of_ne differ]; exact contends⟩

omit [DecidableEq T] in
theorem MutexSound.contention (sound : MutexSound word parked pcs holders)
    (quiet : (pcs t).contends = false) (some : parked ≠ []) :
    word = 2 ∨ ∃ u, u ≠ t ∧ u ∉ parked ∧ (pcs u).contends = true := by
  refine (sound.woken some).imp_right ?_
  rintro ⟨u, free, contends⟩
  refine ⟨u, ?_, free, contends⟩
  rintro rfl
  rw [contends] at quiet
  cases quiet

theorem MutexSound.moved (sound : MutexSound word parked pcs holders) (awake : t ∉ parked)
    (own : pc.holds = true → t ∈ holders)
    (contends : (pcs t).contends = true → pc.contends = true) :
    MutexSound word parked (update pcs t pc) holders := by
  refine sound.changed awake sound.held (fun u _ => sound.holding u) own fun some => ?_
  cases quiet : (pcs t).contends with
  | false => exact (sound.contention quiet some).imp_right Or.inr
  | true => exact Or.inr (Or.inl (contends quiet))

theorem MutexSound.acquire {word' : Nat} (sound : MutexSound word parked pcs holders)
    (awake : t ∉ parked) (free : word = 0) (set : word' ≠ 0)
    (kept : (pcs t).contends = true → word' = 2) :
    MutexSound word' parked (update pcs t .idle) (t :: holders) := by
  have none : holders = [] := by
    rcases sound.held with ⟨-, none⟩ | ⟨held, -⟩
    · exact none
    · exact absurd free held
  refine sound.changed awake (Or.inr ⟨set, by rw [none]; rfl⟩) ?_ (fun wrong => by cases wrong)
    fun some => ?_
  · intro u _ holds
    exact List.mem_cons_of_mem t (sound.holding u holds)
  · cases quiet : (pcs t).contends with
    | false =>
      rcases sound.contention quiet some with full | other
      · rw [free] at full
        cases full
      · exact Or.inr (Or.inr other)
    | true => exact Or.inl (kept quiet)

theorem MutexSound.mark (sound : MutexSound word parked pcs holders) (awake : t ∉ parked)
    (held : word ≠ 0) (own : pc.holds = false) : MutexSound 2 parked (update pcs t pc) holders := by
  have one : holders.length = 1 := by
    rcases sound.held with ⟨free, -⟩ | ⟨-, one⟩
    · exact absurd free held
    · exact one
  refine sound.changed awake (Or.inr ⟨by simp, one⟩) (fun u _ => sound.holding u) ?_ fun _ =>
    Or.inl rfl
  intro wrong
  rw [own] at wrong
  cases wrong

theorem MutexSound.release (sound : MutexSound word parked pcs holders) (awake : t ∉ parked)
    (holds : t ∈ holders) (quiet : (pcs t).contends = false) (own : pc.holds = false)
    (wakes : word = 2 → pc.contends = true) :
    MutexSound 0 parked (update pcs t pc) (holders.erase t) := by
  have one : holders.length = 1 := by
    rcases sound.held with ⟨-, none⟩ | ⟨-, one⟩
    · rw [none] at holds
      cases holds
    · exact one
  have none : holders.erase t = [] := by
    rw [← List.length_eq_zero_iff, List.length_erase_of_mem holds, one]
  refine sound.changed awake (Or.inl ⟨rfl, none⟩) ?_ ?_ fun some => ?_
  · intro u differ member
    exact (List.mem_erase_of_ne differ).mpr (sound.holding u member)
  · intro wrong
    rw [own] at wrong
    cases wrong
  · rcases sound.contention quiet some with full | other
    · exact Or.inr (Or.inl (wakes full))
    · exact Or.inr (Or.inr other)

omit [DecidableEq T] in
theorem MutexSound.unpark {fewer : List T} (sound : MutexSound word parked pcs holders)
    (part : fewer.Sublist parked) (woke : fewer ≠ [] → ∃ u ∈ parked, u ∉ fewer) :
    MutexSound word fewer pcs holders where
  held := sound.held
  holding := sound.holding
  asleep := fun u member => sound.asleep u (part.subset member)
  once := part.nodup sound.once
  woken := by
    intro some
    obtain ⟨u, member, free⟩ := woke some
    obtain ⟨timed, asleep⟩ := sound.asleep u member
    exact Or.inr ⟨u, free, by rw [asleep]; rfl⟩

theorem MutexSound.wake (sound : MutexSound word parked pcs holders) (awake : t ∉ parked)
    (own : pc.holds = false) : MutexSound word (parked.drop 1) (update pcs t pc) holders := by
  have owns : pc.holds = true → t ∈ holders := by
    intro wrong
    rw [own] at wrong
    cases wrong
  cases parked with
  | nil =>
    refine sound.changed awake sound.held (fun u _ => sound.holding u) owns fun some => ?_
    exact absurd rfl some
  | cons first rest =>
    have nodup := List.nodup_cons.mp sound.once
    have woken : MutexSound word rest pcs holders :=
      sound.unpark (List.sublist_cons_self first rest) fun _ => ⟨first, List.mem_cons_self, nodup.1⟩
    obtain ⟨timed, asleep⟩ := sound.asleep first List.mem_cons_self
    refine woken.changed (fun member => awake (List.mem_cons_of_mem first member)) woken.held
      (fun u _ => woken.holding u) owns fun _ =>
      Or.inr (Or.inr ⟨first, ?_, nodup.1, by rw [asleep]; rfl⟩)
    rintro rfl
    exact awake List.mem_cons_self

theorem MutexSound.park {timed : Bool} (sound : MutexSound word parked pcs holders)
    (awake : t ∉ parked) (full : word = 2) :
    MutexSound word (parked ++ [t]) (update pcs t (.sleep timed)) holders := by
  have moved : MutexSound word parked (update pcs t (.sleep timed)) holders :=
    sound.moved awake (fun wrong => by cases wrong) fun _ => rfl
  refine { moved with asleep := ?_, once := ?_, woken := fun _ => Or.inl full }
  · intro u member
    rcases List.mem_append.mp member with member | self
    · exact moved.asleep u member
    · rw [List.mem_singleton.mp self]
      exact ⟨timed, Function.update_self _ _ _⟩
  · refine List.nodup_append.mpr ⟨sound.once, List.nodup_singleton t, ?_⟩
    rintro u member v self rfl
    exact awake (List.mem_singleton.mp self ▸ member)

theorem MutexSound.leave (sound : MutexSound word parked pcs holders) :
    MutexSound word (parked.erase t) pcs holders := by
  by_cases member : t ∈ parked
  · exact sound.unpark List.erase_sublist fun _ => ⟨t, member, sound.once.not_mem_erase⟩
  · rw [List.erase_of_not_mem member]
    exact sound

def Monitor.MutexSound (s : Monitor T) : Prop :=
  Cos.Runtime.MutexSound s.mutex s.lockers s.pcs s.holders

variable {s : Monitor T}

omit [DecidableEq T] in
theorem MutexSound.ok (sound : s.MutexSound) : MutexOk s where
  exclusive := by
    rcases MutexSound.held sound with ⟨-, none⟩ | ⟨-, one⟩
    · rw [none]
      exact Nat.zero_le 1
    · exact Nat.le_of_eq one
  awake := by
    intro free some
    rcases MutexSound.woken sound some with full | contender
    · rw [free] at full
      cases full
    · exact contender

theorem Monitor.MutexSound.enter (sound : s.MutexSound) (own : pc.holds = true → t ∈ s.holders) :
    (s.enter t pc).MutexSound := by
  unfold Monitor.enter
  split
  · next idle =>
    exact Cos.Runtime.MutexSound.moved sound (MutexSound.not_parked sound (by rw [idle]; simp)) own
      (by rw [idle]; simp [SyncPc.contends])
  · exact sound

theorem MutexSound.counter {counter : Nat} {counted : List T} (sound : (s.goto t pc).MutexSound) :
    ({ s with waiters := counter, counted := counted }.goto t pc).MutexSound := sound

theorem spinNext_holds (i : Nat) : (spinNext i).holds = false := by
  unfold spinNext
  split <;> rfl

theorem Monitor.MutexSound.go (sound : s.MutexSound) (late : Bool) :
    (syncGo s t late).MutexSound := by
  have awake : (∀ timed, s.pcs t ≠ .sleep timed) → t ∉ s.lockers :=
    fun other => MutexSound.not_parked sound other
  have free : ∀ {pc : SyncPc}, pc.holds = false → pc.holds = true → t ∈ s.holders := by
    intro pc clear set
    rw [clear] at set
    cases set
  have held := MutexSound.holding sound t
  unfold syncGo
  split <;> rename_i here <;> rw [here] at awake held
  · exact sound
  · split
    · next zero => exact MutexSound.acquire sound (awake (by simp)) zero Nat.one_ne_zero (by rw [here]; simp [SyncPc.contends])
    · exact MutexSound.moved sound (awake (by simp)) (free rfl) (by rw [here]; simp [SyncPc.contends])
  · refine MutexSound.moved sound (awake (by simp)) (free ?_) (by rw [here]; simp [SyncPc.contends])
    split
    · rfl
    · exact spinNext_holds _
  · split
    · next zero => exact MutexSound.acquire sound (awake (by simp)) zero Nat.one_ne_zero (by rw [here]; simp [SyncPc.contends])
    · exact MutexSound.moved sound (awake (by simp)) (free (spinNext_holds _)) (by rw [here]; simp [SyncPc.contends])
  · split
    · next zero => exact MutexSound.acquire sound (awake (by simp)) zero Nat.one_ne_zero (by rw [here]; simp [SyncPc.contends])
    · exact MutexSound.moved sound (awake (by simp)) (free rfl) (by rw [here]; simp [SyncPc.contends])
  · split
    · next zero => exact MutexSound.acquire sound (awake (by simp)) zero Nat.one_ne_zero (by rw [here]; simp [SyncPc.contends])
    · exact MutexSound.moved sound (awake (by simp)) (free rfl) fun _ => rfl
  · split
    · next zero => exact MutexSound.acquire sound (awake (by simp)) zero (Nat.succ_ne_zero 1) fun _ => rfl
    · next set =>
      refine MutexSound.mark sound (awake (by simp)) set ?_
      split <;> rfl
  · refine MutexSound.moved sound (awake (by simp)) (free ?_) (by rw [here]; simp [SyncPc.contends])
    split <;> rfl
  · split
    · next full => exact MutexSound.park sound (awake (by simp)) full
    · exact MutexSound.moved sound (awake (by simp)) (free rfl) fun _ => rfl
  · split
    · exact sound
    · next out => exact MutexSound.moved sound out (free rfl) fun _ => rfl
  · refine MutexSound.release sound (awake (by simp)) (held rfl) (by rw [here]; rfl) ?_ fun full =>
      ?_
    · split <;> rfl
    · rw [if_pos full]
      rfl
  · exact MutexSound.wake sound (awake (by simp)) rfl
  · exact MutexSound.moved sound (awake (by simp)) (fun _ => held rfl)
      (by rw [here]; simp [SyncPc.contends])
  · exact MutexSound.moved sound (awake (by simp)) (fun _ => held rfl)
      (by rw [here]; simp [SyncPc.contends])
  · refine MutexSound.release sound (awake (by simp)) (held rfl) (by rw [here]; rfl) ?_ fun full =>
      ?_
    · split <;> rfl
    · rw [if_pos full]
      rfl
  · exact MutexSound.wake sound (awake (by simp)) rfl
  · split
    · exact MutexSound.moved sound (awake (by simp)) (free rfl) (by rw [here]; simp [SyncPc.contends])
    · exact MutexSound.moved sound (awake (by simp)) (free rfl) (by rw [here]; simp [SyncPc.contends])
  · split
    · exact sound
    · exact MutexSound.moved sound (awake (by simp)) (free rfl) (by rw [here]; simp [SyncPc.contends])
  · refine MutexSound.counter ?_
    exact MutexSound.moved sound (awake (by simp)) (free rfl) (by rw [here]; simp [SyncPc.contends])
  · exact MutexSound.moved sound (awake (by simp)) (free rfl) (by rw [here]; simp [SyncPc.contends])
  · split
    · exact MutexSound.moved sound (awake (by simp)) (free rfl) (by rw [here]; simp [SyncPc.contends])
    · exact MutexSound.moved sound (awake (by simp)) (free rfl) (by rw [here]; simp [SyncPc.contends])
  · exact MutexSound.moved sound (awake (by simp)) (free rfl) (by rw [here]; simp [SyncPc.contends])

theorem Monitor.MutexSound.step (sound : s.MutexSound) (label : SyncStep T) :
    (syncStep s label).MutexSound := by
  cases label with
  | lock t => exact sound.enter fun wrong => by cases wrong
  | trylock t => exact sound.enter fun wrong => by cases wrong
  | timedlock t => exact sound.enter fun wrong => by cases wrong
  | unlock t =>
    dsimp only [syncStep]
    split
    · next holds => exact sound.enter fun _ => holds
    · exact sound
  | condWait t =>
    dsimp only [syncStep]
    split
    · next holds => exact sound.enter fun _ => holds
    · exact sound
  | signal t all => exact sound.enter fun wrong => by cases wrong
  | go t late => exact sound.go late
  | leave t => exact Cos.Runtime.MutexSound.leave sound

omit [DecidableEq T] in
theorem MutexSound.init : (syncInit : Monitor T).MutexSound where
  held := Or.inl ⟨rfl, rfl⟩
  holding := fun u holds => by cases holds
  asleep := fun u member => by cases member
  once := List.nodup_nil
  woken := fun some => absurd rfl some

theorem mutexOk_of_reaches {allowed : Monitor T → SyncStep T → Prop}
    (reached : Reaches syncStep allowed syncInit s) : MutexOk s :=
  MutexSound.ok (reached.invariant MutexSound.init fun _ label sound _ => sound.step label)

end Cos.Runtime
