import Mathlib.Data.Fintype.Card
import Cos.Sched.Queues

/-! # What the queues of the scheduler keep

`QueuesSound` ties the links to lists of threads and every thread to the list it is on.  `Proper`
says what the fields of a thread and its place have to do with each other.
-/

namespace Cos.Sched

open Cos.Lib
open Function (update update_of_ne update_self)

variable {s : SchedState} {lists : QueueId → List Tid} {place : Tid → Option QueueId} {t u : Tid}
  {q : QueueId} {p : Option QueueId} {cpu w : Nat} {pending : Bool}

/-- `place` is the list a thread is on.  The sleep list has no tail and no count. -/
structure QueuesSound (s : SchedState) (lists : QueueId → List Tid) (place : Tid → Option QueueId) :
    Prop where
  linked : ∀ q, Linked s.links (s.head q) (lists q)
  tail : ∀ q, q ≠ .sleep → s.tail q = (lists q).getLast?
  count : ∀ q, q ≠ .sleep → s.count q = (lists q).length
  placed : ∀ t q, t ∈ lists q ↔ place t = some q

namespace QueuesSound

theorem apart (sound : QueuesSound s lists place) (member : t ∈ lists q) {other : QueueId}
    (different : other ≠ q) : t ∉ lists other := by
  intro elsewhere
  have here := (sound.placed t q).mp member
  have there := (sound.placed t other).mp elsewhere
  exact different (Option.some.inj (there.symm.trans here))

theorem enqueue (sound : QueuesSound s lists place) (notSleep : q ≠ .sleep)
    (free : place t = none) :
    QueuesSound (s.enqueue q t) (update lists q (lists q ++ [t])) (update place t (some q)) := by
  have absent : ∀ p, t ∉ lists p := by
    intro p member
    rw [sound.placed, free] at member
    cases member
  refine ⟨fun p => ?_, fun p notSleepP => ?_, fun p notSleepP => ?_, fun u p => ?_⟩
  · by_cases isQ : p = q
    · subst isQ
      simp only [SchedState.enqueue, update_self]
      exact (sound.linked p).append (sound.tail p notSleep) (absent p)
    · simp only [SchedState.enqueue, update_of_ne isQ]
      refine (sound.linked p).frame fun x inside => Links.append_other (fun same => absent p (same ▸ inside)) ?_
      intro isTail
      rw [sound.tail q notSleep] at isTail
      exact sound.apart inside (Ne.symm isQ) (List.mem_of_getLast? isTail)
  · by_cases isQ : p = q
    · subst isQ
      simp [SchedState.enqueue]
    · simp only [SchedState.enqueue, Function.update_of_ne isQ]
      exact sound.tail p notSleepP
  · by_cases isQ : p = q
    · subst isQ
      simp [SchedState.enqueue, sound.count p notSleepP]
    · simp only [SchedState.enqueue, Function.update_of_ne isQ]
      exact sound.count p notSleepP
  · by_cases isT : u = t
    · subst isT
      by_cases isQ : p = q
      · subst isQ
        simp
      · rw [Function.update_of_ne isQ]
        simp [absent p, Ne.symm isQ]
    · rw [Function.update_of_ne isT, ← sound.placed u p]
      by_cases isQ : p = q
      · subst isQ
        simp [isT]
      · rw [Function.update_of_ne isQ]

theorem detachedLinks (sound : QueuesSound s lists place) (member : t ∈ lists q) (p : QueueId) :
    Linked (s.links.detach t)
      (update s.head q (if (s.links.prev t).isSome then s.head q else s.links.next t) p)
      (update lists q ((lists q).erase t) p) := by
  by_cases isQ : p = q
  · subst isQ
    rw [update_self, update_self]
    exact ((sound.linked p).detach member).1
  · rw [update_of_ne isQ, update_of_ne isQ]
    refine (sound.linked p).frame fun x inside => ?_
    have outside : x ∉ lists q := sound.apart inside (Ne.symm isQ)
    obtain ⟨front, back, isList, -, -, isPrev, isNext, -, -⟩ := (sound.linked q).split member
    refine Links.detach_other (fun same => outside (same ▸ member)) (fun isX => ?_) (fun isX => ?_)
    · rw [isPrev] at isX
      exact outside (isList ▸ List.mem_append_left _ (List.mem_of_getLast? isX))
    · rw [isNext] at isX
      exact outside (isList ▸ List.mem_append_right _ (List.mem_cons_of_mem _ (List.mem_of_head? isX)))

theorem erasePlaced (sound : QueuesSound s lists place) (member : t ∈ lists q) (u : Tid)
    (p : QueueId) : u ∈ update lists q ((lists q).erase t) p ↔ update place t none u = some p := by
  by_cases isT : u = t
  · subst isT
    by_cases isQ : p = q
    · subst isQ
      simp [(sound.linked p).nodup.mem_erase_iff]
    · rw [update_of_ne isQ]
      simp [sound.apart member isQ]
  · rw [Function.update_of_ne isT, ← sound.placed u p]
    by_cases isQ : p = q
    · subst isQ
      rw [Function.update_self]
      exact List.mem_erase_of_ne isT
    · rw [Function.update_of_ne isQ]

theorem length_le (sound : QueuesSound s lists place) (q : QueueId) :
    (lists q).length ≤ maxThreads := by
  have bound := List.Nodup.length_le_card (sound.linked q).nodup
  rwa [Fintype.card_fin] at bound

theorem meets (sound : QueuesSound s lists place) (t : Tid) (q : QueueId) :
    s.links.meets t maxThreads (s.head q) = decide (t ∈ lists q) := by
  rw [(sound.linked q).head]
  exact (sound.linked q).segment.meets (sound.length_le q)

theorem detachLinked_absent (sound : QueuesSound s lists place) (elsewhere : place t ≠ some q) :
    detachLinked q t s = (false, s) := by
  rw [detachLinked, sound.meets, if_neg]
  rw [decide_eq_true_eq, sound.placed]
  exact elsewhere

theorem detachLinked (sound : QueuesSound s lists place) (member : place t = some q) :
    (detachLinked q t s).1 = true ∧ (detachLinked q t s).2.thread = s.thread ∧
      (detachLinked q t s).2.idle = s.idle ∧
      QueuesSound (detachLinked q t s).2 (update lists q ((lists q).erase t)) (update place t none) := by
  rw [← sound.placed] at member
  rw [Sched.detachLinked, sound.meets, if_pos (decide_eq_true member)]
  refine ⟨rfl, rfl, rfl, sound.detachedLinks member, fun p notSleep => ?_, fun p notSleep => ?_,
    sound.erasePlaced member⟩
  · by_cases isQ : p = q
    · subst isQ
      simp only [update_self]
      rw [sound.tail p notSleep]
      exact ((sound.linked p).detach member).2
    · simp only [Function.update_of_ne isQ]
      exact sound.tail p notSleep
  · by_cases isQ : p = q
    · subst isQ
      simp only [Function.update_self]
      rw [sound.count p notSleep, List.length_erase_of_mem member]
    · simp only [Function.update_of_ne isQ]
      exact sound.count p notSleep

theorem head_iff (sound : QueuesSound s lists place) (member : t ∈ lists q) :
    s.head q = some t ↔ (s.links.prev t).isSome = false := by
  obtain ⟨front, back, isList, notFront, -, isPrev, -, -, -⟩ := (sound.linked q).split member
  rw [(sound.linked q).head, isPrev, isList]
  cases front with
  | nil => simp
  | cons first rest =>
      have different : first ≠ t := fun same => notFront (same ▸ List.mem_cons_self)
      have last : (first :: rest).getLast?.isSome = true := List.getLast?_isSome.mpr (List.cons_ne_nil _ _)
      simp [different, last]

theorem pushSleep (sound : QueuesSound s lists place) (free : place t = none) (ticks : Nat) :
    QueuesSound (s.pushSleep t ticks) (update lists .sleep (t :: lists .sleep))
      (update place t (some .sleep)) := by
  have absent : ∀ p, t ∉ lists p := by
    intro p member
    rw [sound.placed, free] at member
    cases member
  refine ⟨fun p => ?_, fun p notSleep => ?_, fun p notSleep => ?_, fun u p => ?_⟩
  · by_cases isSleep : p = .sleep
    · subst isSleep
      exact (sound.linked .sleep).push (absent .sleep)
    · simp only [SchedState.pushSleep, update_of_ne isSleep]
      refine (sound.linked p).frame fun x inside => Links.push_other (fun same => absent p (same ▸ inside)) ?_
      intro isHead
      rw [(sound.linked .sleep).head] at isHead
      exact sound.apart inside (Ne.symm isSleep) (List.mem_of_head? isHead)
  · rw [update_of_ne notSleep]
    exact sound.tail p notSleep
  · rw [update_of_ne notSleep]
    exact sound.count p notSleep
  · by_cases isT : u = t
    · subst isT
      by_cases isSleep : p = .sleep
      · subst isSleep
        simp
      · rw [Function.update_of_ne isSleep]
        simp [absent p, Ne.symm isSleep]
    · rw [Function.update_of_ne isT, ← sound.placed u p]
      by_cases isSleep : p = .sleep
      · subst isSleep
        simp [isT]
      · rw [Function.update_of_ne isSleep]

theorem unlink (sound : QueuesSound s lists place) (free : place t = none) :
    QueuesSound { s with links := (s.links.setNext (some t) none).setPrev (some t) none } lists
    place := by
  refine { sound with linked := fun q => (sound.linked q).frame fun x inside => ?_ }
  have different : ¬ t = x := by
    rintro rfl
    rw [sound.placed, free] at inside
    cases inside
  rw [Links.setPrev_next, Links.setNext_next, Links.setPrev_prev, Links.setNext_prev]
  simp [different]

theorem next_placed (sound : QueuesSound s lists place) (member : place t = some q)
    (isNext : s.links.next t = some u) : place u = some q ∧ u ≠ t := by
  rw [← sound.placed] at member ⊢
  obtain ⟨front, back, isList, -, notBack, -, isHead, -, -⟩ := (sound.linked q).split member
  rw [isHead] at isNext
  have inside := List.mem_of_head? isNext
  exact ⟨isList ▸ List.mem_append_right _ (List.mem_cons_of_mem _ inside),
    fun same => notBack (same ▸ inside)⟩

theorem head_placed (sound : QueuesSound s lists place) (isHead : s.head q = some t) :
    place t = some q := by
  rw [← sound.placed]
  rw [(sound.linked q).head] at isHead
  exact List.mem_of_head? isHead

theorem pickFrom_placed (sound : QueuesSound s lists place) {fuel : Nat} {cur : Option Tid}
    (inside : ∀ t, cur = some t → place t = some q) (picked : pickFrom cpu s fuel cur = some u) :
    place u = some q := by
  induction fuel generalizing cur with
  | zero => cases picked
  | succ fuel ih =>
      cases cur with
      | none => cases picked
      | some t =>
          rw [pickFrom] at picked
          split at picked
          · cases picked
            exact inside u rfl
          · exact ih (fun next isNext => (sound.next_placed (inside t rfl) isNext).1) picked

end QueuesSound

def Thread.key (thread : Thread) : Nat × Bool × Nat := (thread.pid, thread.isIdle, thread.futexAddr)

variable {waits : Nat → Nat × Bool × Nat → Prop}

/-- What a list says of the threads on it; `waits` is what the users of a wait queue say of
theirs. -/
def Thread.fits (waits : Nat → Nat × Bool × Nat → Prop) (thread : Thread) : QueueId → Prop
  | .run i => thread.blockedOn = none ∧ i = priorityToQueue thread.priority
  | .wait w => thread.blockedOn = some w ∧ waits w thread.key
  | .sleep => thread.blockedOn = none

def Thread.home (thread : Thread) : Option QueueId :=
  match thread.state with
  | .ready | .running => some (.run (priorityToQueue thread.priority))
  | .blocked => thread.blockedOn.map .wait
  | .sleeping => some .sleep
  | .unused | .created | .zombie => none

def Thread.live (thread : Thread) : Bool :=
  match thread.state with
  | .ready | .running | .blocked | .sleeping => true
  | .unused | .created | .zombie => false

structure Fitting (waits : Nat → Nat × Bool × Nat → Prop) (thread : Thread)
    (place : Option QueueId) : Prop where
  fits : ∀ q, place = some q → thread.fits waits q
  stray : thread.state = .unused ∨ thread.state = .blocked ∧ thread.blockedOn = none → place = none

structure Proper (waits : Nat → Nat × Bool × Nat → Prop) (thread : Thread)
    (place : Option QueueId) : Prop extends Fitting waits thread place where
  asleep : ∀ w, place = some (.wait w) → thread.isIdle = false → thread.state = .blocked
  present : thread.live = true → thread.isIdle = false → place.isSome = true ∧ thread.home = place

structure SoundBut (waits : Nat → Nat × Bool × Nat → Prop) (t : Tid) (s : SchedState)
    (place : Tid → Option QueueId) : Prop where
  queues : ∃ lists, QueuesSound s lists place
  others : ∀ u, u ≠ t → Proper waits (s.thread u) (place u)
  idles : ∀ cpu u, s.idle cpu = some u → (s.thread u).isIdle = true

structure SchedSound (waits : Nat → Nat × Bool × Nat → Prop) (s : SchedState)
    (place : Tid → Option QueueId) : Prop where
  queues : ∃ lists, QueuesSound s lists place
  proper : ∀ u, Proper waits (s.thread u) (place u)
  idles : ∀ cpu u, s.idle cpu = some u → (s.thread u).isIdle = true

theorem SchedSound.but (sound : SchedSound waits s place) (t : Tid) : SoundBut waits t s place :=
  ⟨sound.queues, fun u _ => sound.proper u, sound.idles⟩

namespace SoundBut

theorem close (sound : SoundBut waits t s place) (proper : Proper waits (s.thread t) (place t)) :
    SchedSound waits s place := by
  refine ⟨sound.queues, fun u => ?_, sound.idles⟩
  by_cases isT : u = t
  · rw [isT]
    exact proper
  · exact sound.others u isT

theorem setThread (sound : SoundBut waits t s place) {thread : Thread}
    (sameIdle : thread.isIdle = (s.thread t).isIdle) :
    SoundBut waits t (s.setThread t thread) place := by
  obtain ⟨lists, queues⟩ := sound.queues
  refine ⟨⟨lists, queues.linked, queues.tail, queues.count, queues.placed⟩, fun u different => ?_,
    fun cpu u isIdle => ?_⟩
  · rw [s.setThread_other _ different]
    exact sound.others u different
  · by_cases isT : u = t
    · rw [isT, s.setThread_self, sameIdle, ← isT]
      exact sound.idles cpu u isIdle
    · rw [s.setThread_other _ isT]
      exact sound.idles cpu u isIdle

theorem move {s' : SchedState} (sound : SoundBut waits t s place)
    (queues : ∃ lists, QueuesSound s' lists (update place t p))
    (sameThreads : s'.thread = s.thread) (sameIdle : s'.idle = s.idle) :
    SoundBut waits t s' (update place t p) := by
  refine ⟨queues, fun u different => ?_, fun cpu u isIdle => ?_⟩
  · rw [sameThreads, Function.update_of_ne different]
    exact sound.others u different
  · rw [sameThreads]
    exact sound.idles cpu u (sameIdle ▸ isIdle)

theorem enqueue (sound : SoundBut waits t s place) (free : place t = none) (notSleep : q ≠ .sleep) :
    SoundBut waits t (s.enqueue q t) (update place t (some q)) := by
  obtain ⟨lists, queues⟩ := sound.queues
  exact sound.move ⟨_, queues.enqueue notSleep free⟩ rfl rfl

theorem detachLinked (sound : SoundBut waits t s place) (here : place t = some q) :
    (detachLinked q t s).1 = true ∧ (detachLinked q t s).2.thread = s.thread ∧
      SoundBut waits t (detachLinked q t s).2 (update place t none) := by
  obtain ⟨lists, queues⟩ := sound.queues
  obtain ⟨found, sameThreads, sameIdle, after⟩ := queues.detachLinked here
  exact ⟨found, sameThreads, sound.move ⟨_, after⟩ sameThreads sameIdle⟩

theorem detachLinked_absent (sound : SoundBut waits t s place) (elsewhere : place t ≠ some q) :
    Sched.detachLinked q t s = (false, s) := by
  obtain ⟨lists, queues⟩ := sound.queues
  exact queues.detachLinked_absent elsewhere

theorem pushSleep (sound : SoundBut waits t s place) (free : place t = none) (ticks : Nat) :
    SoundBut waits t (s.pushSleep t ticks) (update place t (some .sleep)) := by
  obtain ⟨lists, queues⟩ := sound.queues
  have slept : SoundBut waits t
      (s.setThread t { s.thread t with state := .sleeping, timeSlice := ticks, blockedOn := none }) place :=
    sound.setThread rfl
  exact slept.move ⟨_, queues.pushSleep free ticks⟩ rfl rfl

theorem unlink (sound : SoundBut waits t s place) (free : place t = none) :
    SoundBut waits t { s with links := (s.links.setNext (some t) none).setPrev (some t) none }
    place := by
  obtain ⟨lists, queues⟩ := sound.queues
  exact ⟨⟨lists, queues.unlink free⟩, sound.others, sound.idles⟩

end SoundBut

end Cos.Sched
