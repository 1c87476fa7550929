import Cos.Sync.Locks
import Mathlib.Data.List.Nodup

/-! # Mutexes and semaphores over whole runs

While a thread waits, there are at most as many permits as threads that were woken and did not test
again yet.
-/

namespace Cos.Sync

open Cos.Lib
open Function (update update_of_ne update_self update_apply)

variable {T : Type} [DecidableEq T] {w : World T} {t u : T} {q : Object} {call : Call} {pc : Pc}
  {memory : Bool}

def Pc.inside : Pc → Bool
  | .testing _ _ | .adding _ | .switching _ | .resumed _ | .waking _ | .restoring _ _ => true
  | .out | .saving _ _ | .asleep _ | .ready _ => false

def Pc.waitsOn : Pc → Option Object
  | .switching call | .asleep call => some call.object
  | _ => none

/-- `mutex_lock` and `sem_wait`. -/
def Call.blocks : Call → Bool
  | .mutexLock _ | .semWait _ => true
  | _ => false

def Pc.sane : Pc → Bool
  | .saving call true | .testing call true | .adding call | .switching call | .asleep call
  | .ready call | .resumed call =>
      call.blocks
  | _ => true

/-- Whether the thread with the kernel lock is about to wake one. -/
def World.due (w : World T) (q : Object) : Nat :=
  match w.kernel with
  | none => 0
  | some t => if (w.pc t).wakes = some q then 1 else 0

structure LocksSound (w : World T) : Prop where
  inside : ∀ t, (w.pc t).inside = true ↔ w.kernel = some t
  queued : ∀ q t, t ∈ w.queue q ↔ (w.pc t).waitsOn = some q
  queueOnce : ∀ q, (w.queue q).Nodup
  woken : ∀ q t, t ∈ w.woken q ↔ (w.pc t).wokenFor = some q
  wokenOnce : ∀ q, (w.woken q).Nodup
  sane : ∀ t, (w.pc t).sane = true
  /-- What a thread gets on a queue for is still not to be had. -/
  adding : ∀ t call, w.pc t = .adding call → w.available call.object ≤ 0
  supply : ∀ q, w.queue q ≠ [] → w.available q ≤ ((w.woken q).length + w.due q : Nat)
  owner : ∀ m, w.holders m = (w.mutex m).owner.toList ∧
    (w.mutex m).locked = (w.mutex m).owner.isSome
  permits : ∀ s, (w.initial s : Int) + w.posts s - w.waits s = (w.sem s).count ∧ 0 ≤ (w.sem s).count

omit [DecidableEq T] in
theorem LocksSound.ok (sound : LocksSound w) : LocksOk w where
  exclusive m := by
    rw [(sound.owner m).1]
    exact Option.length_toList_le
  owner := sound.owner
  permits := sound.permits
  wakes q stalled := by
    obtain ⟨available, waiting, nobody, noone⟩ := stalled
    have enough := sound.supply q waiting
    have none : w.woken q = [] := List.eq_nil_iff_forall_not_mem.mpr fun t inside => nobody t ((sound.woken q t).mp inside)
    have notDue : w.due q = 0 := by
      unfold World.due
      split
      · rfl
      · next t isKernel => rw [if_neg (noone t isKernel)]
    rw [none, notDue, List.length_nil] at enough
    omega

omit [DecidableEq T] in
theorem LocksSound.init (initial : Nat → Nat) : LocksSound (World.init initial : World T) where
  inside _ := by simp [World.init, Pc.inside]
  queued q _ := by cases q <;> simp [World.init, World.queue, World.waiters, Pc.waitsOn]
  queueOnce q := by cases q <;> simp [World.init, World.queue, World.waiters]
  woken _ _ := by simp [World.init, Pc.wokenFor]
  wokenOnce _ := List.nodup_nil
  sane _ := rfl
  adding _ _ adding := by cases adding
  supply q waiting := by cases q <;> exact absurd rfl waiting
  owner _ := ⟨rfl, rfl⟩
  permits s := by simp [World.init]

section

@[simp] theorem goto_self : (w.goto t pc).pc t = pc := update_self _ _ _

theorem goto_other (other : u ≠ t) : (w.goto t pc).pc u = w.pc u := update_of_ne other _ _

theorem goto_pc : (w.goto t pc).pc u = if u = t then pc else w.pc u := update_apply _ _ _ _

@[simp] theorem goto_queue : (w.goto t pc).queue q = w.queue q := by
  cases q <;> rfl

@[simp] theorem goto_available : (w.goto t pc).available q = w.available q := by
  cases q <;> rfl

omit [DecidableEq T] in
theorem setWaiters_queue {other : Object} (waiting : List T) :
    (w.setWaiters q (some waiting)).queue other = if other = q then waiting else w.queue other := by
  cases q with
  | mutex m =>
    cases other with
    | mutex o =>
      by_cases same : o = m
      · subst same
        simp [World.setWaiters, World.queue, World.waiters]
      · simp [World.setWaiters, World.queue, World.waiters, same]
    | sem o => rfl
  | sem s =>
    cases other with
    | mutex o => rfl
    | sem o =>
      by_cases same : o = s
      · subst same
        simp [World.setWaiters, World.queue, World.waiters]
      · simp [World.setWaiters, World.queue, World.waiters, same]

omit [DecidableEq T] in
@[simp] theorem setWaiters_available {other : Object} {waiting : Option (List T)} :
    (w.setWaiters q waiting).available other = w.available other := by
  cases q with
  | mutex m =>
    cases other with
    | mutex o => by_cases same : o = m <;> simp [World.setWaiters, World.available, same]
    | sem o => rfl
  | sem s =>
    cases other with
    | mutex o => rfl
    | sem o => by_cases same : o = s <;> simp [World.setWaiters, World.available, same]

structure SameButQueues (w w' : World T) : Prop where
  kernel : w'.kernel = w.kernel
  pc : w'.pc = w.pc
  woken : w'.woken = w.woken
  available : ∀ q, w'.available q = w.available q
  owner : ∀ m, w'.holders m = w.holders m ∧ (w'.mutex m).owner = (w.mutex m).owner ∧
    (w'.mutex m).locked = (w.mutex m).locked
  permits : ∀ s, w'.initial s = w.initial s ∧ w'.posts s = w.posts s ∧ w'.waits s = w.waits s ∧
    (w'.sem s).count = (w.sem s).count

omit [DecidableEq T] in
theorem setWaiters_same {waiting : Option (List T)} : SameButQueues w (w.setWaiters q waiting) := by
  cases q with
  | mutex m =>
    refine ⟨rfl, rfl, rfl, fun _ => setWaiters_available, fun o => ⟨rfl, ?_⟩, fun _ => ⟨rfl, rfl, rfl, rfl⟩⟩
    by_cases same : o = m
    · subst same
      simp [World.setWaiters]
    · simp [World.setWaiters, same]
  | sem s =>
    refine ⟨rfl, rfl, rfl, fun _ => setWaiters_available, fun _ => ⟨rfl, rfl, rfl⟩, fun o => ⟨rfl, rfl, rfl, ?_⟩⟩
    by_cases same : o = s
    · subst same
      simp [World.setWaiters]
    · simp [World.setWaiters, same]

omit [DecidableEq T] in
theorem due_of_kernel (isKernel : w.kernel = some t) (silent : (w.pc t).wakes ≠ some q) :
    w.due q = 0 := by
  unfold World.due
  rw [isKernel]
  exact if_neg silent

theorem due_le {w' : World T} (silent : (w.pc t).wakes = none)
    (stays : ∀ u, u ≠ t → w.kernel = some u → w'.kernel = some u ∧ w'.pc u = w.pc u) :
    w.due q ≤ w'.due q := by
  cases isKernel : w.kernel with
  | none =>
      unfold World.due
      rw [isKernel]
      exact Nat.zero_le _
  | some u =>
      by_cases same : u = t
      · rw [due_of_kernel isKernel (by rw [same, silent]; exact nofun)]
        exact Nat.zero_le _
      · obtain ⟨stillKernel, samePc⟩ := stays u same isKernel
        unfold World.due
        rw [isKernel, stillKernel]
        simp only [samePc, Nat.le_refl]

end

theorem LocksSound.shift (sound : LocksSound w) {kernel : Option T}
    (self : pc.inside = true ↔ kernel = some t)
    (rest : ∀ u, u ≠ t → (kernel = some u ↔ w.kernel = some u)) (on : pc.waitsOn = (w.pc t).waitsOn)
    (woken : pc.wokenFor = (w.pc t).wokenFor) (silent : (w.pc t).wakes = none)
    (sane : pc.sane = true) (notAdding : ∀ call, pc ≠ .adding call) :
    LocksSound ({ w with kernel }.goto t pc) where
  inside u := by
    by_cases same : u = t
    · subst same
      rw [goto_self]
      exact self
    · rw [goto_other same]
      exact (sound.inside u).trans (rest u same).symm
  queued q u := by
    refine (sound.queued q u).trans ?_
    by_cases same : u = t
    · rw [same, goto_self, on]
    · rw [goto_other same]
  queueOnce q := by
    exact sound.queueOnce q
  woken q u := by
    refine (sound.woken q u).trans ?_
    by_cases same : u = t
    · rw [same, goto_self, woken]
    · rw [goto_other same]
  wokenOnce := sound.wokenOnce
  sane u := by
    by_cases same : u = t
    · rw [same, goto_self]
      exact sane
    · rw [goto_other same]
      exact sound.sane u
  adding u call isAdding := by
    by_cases same : u = t
    · rw [same, goto_self] at isAdding
      exact absurd isAdding (notAdding call)
    · rw [goto_other same] at isAdding
      exact sound.adding u call isAdding
  supply q waiting := by
    have before := sound.supply q waiting
    have due : w.due q ≤ ({ w with kernel }.goto t pc).due q :=
      due_le silent fun u other isKernel => ⟨(rest u other).mpr isKernel, goto_other other⟩
    exact Int.le_trans before (Int.ofNat_le.mpr (Nat.add_le_add_left due _))
  owner := sound.owner
  permits := sound.permits

/-- What a test leaves behind: it changes at most the object it is about, and the thread keeps the
kernel lock. -/
structure Tested (w w' : World T) (t : T) (call : Call) (again : Bool) (pc : Pc) : Prop where
  pcs : w'.pc = update w.pc t pc
  kernel : w'.kernel = w.kernel
  queues : ∀ q, w'.queue q = w.queue q
  woken : w'.woken = (w.retries t call.object again).woken
  inside : pc.inside = true
  notOn : pc.waitsOn = none
  notWoken : pc.wokenFor = none
  sane : pc.sane = true
  others : ∀ q, q ≠ call.object → w'.available q = w.available q
  /-- Nothing to be had, one less, or one more that somebody is woken for. -/
  own : w'.available call.object ≤ 0 ∨ w'.available call.object + 1 ≤ w.available call.object ∨
    again = false ∧ w'.available call.object ≤ w.available call.object + 1 ∧
    pc.wakes = some call.object
  adding : ∀ c, pc = .adding c → w'.available c.object ≤ 0

theorem LocksSound.tested {w' : World T} {again : Bool} (sound : LocksSound w)
    (isPc : w.pc t = .testing call again) (tested : Tested w w' t call again pc)
    (owner : ∀ m, w'.holders m = (w'.mutex m).owner.toList ∧
    (w'.mutex m).locked = (w'.mutex m).owner.isSome)
    (permits : ∀ s, (w'.initial s : Int) + w'.posts s - w'.waits s = (w'.sem s).count ∧
    0 ≤ (w'.sem s).count) : LocksSound w' := by
  have isKernel : w.kernel = some t := (sound.inside t).mp (by rw [isPc]; rfl)
  have self : w'.pc t = pc := by rw [tested.pcs, update_self]
  have other : ∀ u, u ≠ t → w'.pc u = w.pc u := fun u differ => by
    rw [tested.pcs, update_of_ne differ]
  have notOn : ∀ q, t ∉ w.queue q := fun q inside => by
    rw [sound.queued, isPc] at inside
    cases inside
  have wokenSelf : ∀ q, t ∈ w.woken q ↔ again = true ∧ q = call.object := fun q => by
    rw [sound.woken, isPc]
    cases again with
    | false => simp [Pc.wokenFor]
    | true => simp [Pc.wokenFor, eq_comm]
  have wokenLists : ∀ q, w'.woken q = if again = true ∧ q = call.object then (w.woken q).erase t
    else w.woken q := by
    intro q
    rw [tested.woken]
    cases again with
    | false => simp [World.retries]
    | true =>
      by_cases same : q = call.object
      · subst same
        simp [World.retries]
      · simp [World.retries, same]
  refine ⟨fun u => ?_, fun q u => ?_, fun q => ?_, fun q u => ?_, fun q => ?_, fun u => ?_,
    fun u c isAdding => ?_, fun q waiting => ?_, owner, permits⟩
  · rw [tested.kernel]
    by_cases same : u = t
    · rw [same, self, isKernel]
      exact ⟨fun _ => rfl, fun _ => tested.inside⟩
    · rw [other u same]
      exact sound.inside u
  · rw [tested.queues]
    by_cases same : u = t
    · rw [same, self, tested.notOn]
      exact ⟨fun inside => absurd inside (notOn q), nofun⟩
    · rw [other u same]
      exact sound.queued q u
  · rw [tested.queues]
    exact sound.queueOnce q
  · rw [wokenLists]
    by_cases same : u = t
    · rw [same, self, tested.notWoken]
      refine ⟨fun inside => ?_, nofun⟩
      split at inside
      · exact absurd rfl ((sound.wokenOnce q).mem_erase_iff.mp inside).1
      · next notHere => exact absurd ((wokenSelf q).mp inside) notHere
    · rw [other u same, ← sound.woken q u]
      split
      · exact List.mem_erase_of_ne same
      · exact Iff.rfl
  · rw [wokenLists]
    split
    · exact (sound.wokenOnce q).erase t
    · exact sound.wokenOnce q
  · by_cases same : u = t
    · rw [same, self]
      exact tested.sane
    · rw [other u same]
      exact sound.sane u
  · by_cases same : u = t
    · rw [same, self] at isAdding
      exact tested.adding c isAdding
    · rw [other u same] at isAdding
      have holds : w.kernel = some u := (sound.inside u).mp (by rw [isAdding]; rfl)
      rw [isKernel] at holds
      exact absurd (Option.some.inj holds).symm same
  · rw [tested.queues] at waiting
    have before := sound.supply q waiting
    have due : w.due q = 0 := due_of_kernel isKernel (by rw [isPc]; exact nofun)
    have dueAfter : w'.due q = if pc.wakes = some q then 1 else 0 := by
      unfold World.due
      rw [tested.kernel, isKernel]
      simp only [self]
    by_cases same : q = call.object
    · subst same
      have enough : (w.woken call.object).length ≤ (w'.woken call.object).length + if again then 1 else 0 := by
        rw [wokenLists]
        cases again with
        | false => simp
        | true =>
          rw [if_pos ⟨rfl, rfl⟩, List.length_erase_of_mem ((wokenSelf _).mpr ⟨rfl, rfl⟩), if_pos rfl]
          omega
      rcases tested.own with nothing | less | ⟨first, more, wakes⟩
      · omega
      · split at enough <;> omega
      · rw [first] at enough
        rw [dueAfter, if_pos wakes]
        simp only [Bool.false_eq_true, if_false] at enough
        omega
    · rw [wokenLists, if_neg (fun both => same both.2), tested.others q same]
      omega

theorem LocksSound.added (sound : LocksSound w) (isPc : w.pc t = .adding call) :
    LocksSound ((w.setWaiters call.object (some (w.queue call.object ++ [t]))).goto t (.switching call)) := by
  have isKernel : w.kernel = some t := (sound.inside t).mp (by rw [isPc]; rfl)
  have notOn : t ∉ w.queue call.object := fun inside => by
    rw [sound.queued, isPc] at inside
    cases inside
  have nothing := sound.adding t call isPc
  obtain ⟨w', isW'⟩ : ∃ w', w.setWaiters call.object (some (w.queue call.object ++ [t])) = w' :=
    ⟨_, rfl⟩
  have same : SameButQueues w w' := isW' ▸ setWaiters_same
  have queues : ∀ q, w'.queue q = if q = call.object then w.queue call.object ++ [t]
    else w.queue q := fun q => by
    rw [← isW', setWaiters_queue]
  rw [isW']
  refine ⟨fun u => ?_, fun q u => ?_, fun q => ?_, fun q u => ?_, fun q => ?_, fun u => ?_,
    fun u c isAdding => ?_, fun q waiting => ?_, fun m => ?_, fun s => ?_⟩
  · rw [show (w'.goto t (.switching call)).kernel = w.kernel from same.kernel, goto_pc, same.pc]
    split
    · next isT => exact ⟨fun _ => isT ▸ isKernel, fun _ => rfl⟩
    · exact sound.inside u
  · rw [goto_queue, queues, goto_pc, same.pc]
    by_cases isT : u = t
    · rw [if_pos isT, isT]
      split
      · next here =>
        rw [here]
        exact ⟨fun _ => rfl, fun _ => by simp⟩
      · next elsewhere =>
        refine ⟨fun inside => ?_, fun here => absurd (Option.some.inj here).symm elsewhere⟩
        rw [sound.queued, isPc] at inside
        cases inside
    · rw [if_neg isT, ← sound.queued q u]
      split
      · next here => simp [here, isT]
      · exact Iff.rfl
  · rw [goto_queue, queues]
    split
    · exact List.nodup_append.mpr ⟨sound.queueOnce _, List.nodup_singleton t, fun a inside b last => by
        rw [List.mem_singleton.mp last]
        exact fun isT => notOn (isT ▸ inside)⟩
    · exact sound.queueOnce q
  · rw [show (w'.goto t (.switching call)).woken = w.woken from same.woken, goto_pc, same.pc, sound.woken q u]
    split
    · next isT =>
      rw [isT, isPc]
      exact Iff.rfl
    · exact Iff.rfl
  · rw [show (w'.goto t (.switching call)).woken = w.woken from same.woken]
    exact sound.wokenOnce q
  · rw [goto_pc, same.pc]
    split
    · have sane := sound.sane t
      rw [isPc] at sane
      exact sane
    · exact sound.sane u
  · rw [goto_pc, same.pc] at isAdding
    split at isAdding
    · cases isAdding
    · rw [goto_available, same.available]
      exact sound.adding u c isAdding
  · rw [goto_available, same.available, show (w'.goto t (.switching call)).woken = w.woken from same.woken]
    by_cases here : q = call.object
    · rw [here]
      exact Int.le_trans nothing (Int.natCast_nonneg _)
    · rw [goto_queue, queues, if_neg here] at waiting
      have due : w.due q = 0 := due_of_kernel isKernel (by rw [isPc]; exact nofun)
      have before := sound.supply q waiting
      rw [due] at before
      exact Int.le_trans before (Int.ofNat_le.mpr (Nat.add_le_add_left (Nat.zero_le _) _))
  · obtain ⟨holders, isOwner, isLocked⟩ := same.owner m
    have before := sound.owner m
    rw [← holders, ← isOwner, ← isLocked] at before
    exact before
  · obtain ⟨initial, posts, waits, count⟩ := same.permits s
    have before := sound.permits s
    rw [← initial, ← posts, ← waits, ← count] at before
    exact before

theorem LocksSound.wokeNobody {w' : World T} (sound : LocksSound w) (isPc : w.pc t = .waking call)
    (same : SameButQueues w w') (queues : ∀ q, w'.queue q = w.queue q)
    (empty : w.queue call.object = []) : LocksSound (w'.goto t (.restoring call true)) := by
  have isKernel : w.kernel = some t := (sound.inside t).mp (by rw [isPc]; rfl)
  have others : ∀ q, q ≠ call.object → w.due q = 0 := fun q differ =>
    due_of_kernel isKernel (by rw [isPc]; exact fun wakes => differ (Option.some.inj wakes).symm)
  refine ⟨fun u => ?_, fun q u => ?_, fun q => ?_, fun q u => ?_, fun q => ?_, fun u => ?_,
    fun u c isAdding => ?_, fun q waiting => ?_, fun m => ?_, fun s => ?_⟩
  · rw [show (w'.goto t (.restoring call true)).kernel = w.kernel from same.kernel, goto_pc, same.pc]
    split
    · next isT => exact ⟨fun _ => isT ▸ isKernel, fun _ => rfl⟩
    · exact sound.inside u
  · rw [goto_queue, queues, goto_pc, same.pc, sound.queued q u]
    split
    · next isT =>
      rw [isT, isPc]
      exact Iff.rfl
    · exact Iff.rfl
  · rw [goto_queue, queues]
    exact sound.queueOnce q
  · rw [show (w'.goto t (.restoring call true)).woken = w.woken from same.woken, goto_pc, same.pc, sound.woken q u]
    split
    · next isT =>
      rw [isT, isPc]
      exact Iff.rfl
    · exact Iff.rfl
  · rw [show (w'.goto t (.restoring call true)).woken = w.woken from same.woken]
    exact sound.wokenOnce q
  · rw [goto_pc, same.pc]
    split
    · rfl
    · exact sound.sane u
  · rw [goto_pc, same.pc] at isAdding
    split at isAdding
    · cases isAdding
    · rw [goto_available, same.available]
      exact sound.adding u c isAdding
  · rw [goto_available, same.available, show (w'.goto t (.restoring call true)).woken = w.woken from same.woken]
    rw [goto_queue, queues] at waiting
    have elsewhere : q ≠ call.object := fun here => waiting (here ▸ empty)
    have before := sound.supply q waiting
    rw [others q elsewhere] at before
    exact Int.le_trans before (Int.ofNat_le.mpr (Nat.add_le_add_left (Nat.zero_le _) _))
  · obtain ⟨holders, isOwner, isLocked⟩ := same.owner m
    have before := sound.owner m
    rw [← holders, ← isOwner, ← isLocked] at before
    exact before
  · obtain ⟨initial, posts, waits, count⟩ := same.permits s
    have before := sound.permits s
    rw [← initial, ← posts, ← waits, ← count] at before
    exact before

omit [DecidableEq T] in
theorem LocksSound.firstAsleep {first : T} {rest : List T} (sound : LocksSound w)
    (isKernel : w.kernel = some t) (isPc : w.pc t = .waking call)
    (waiting : w.queue call.object = first :: rest) :
    first ≠ t ∧ ∃ c, w.pc first = .asleep c ∧ c.object = call.object := by
  have on := (sound.queued call.object first).mp (waiting ▸ List.mem_cons_self)
  have differ : first ≠ t := by
    rintro rfl
    rw [isPc] at on
    cases on
  have outside : (w.pc first).inside ≠ true := fun inside =>
    differ (Option.some.inj (((sound.inside first).mp inside).symm.trans isKernel))
  refine ⟨differ, ?_⟩
  cases here : w.pc first with
  | asleep c =>
      rw [here] at on
      exact ⟨c, rfl, Option.some.inj on⟩
  | switching c =>
      rw [here] at outside
      exact absurd rfl outside
  | _ =>
      rw [here] at on
      cases on

theorem LocksSound.wokeFirst {w' : World T} {first : T} {rest : List T} (sound : LocksSound w)
    (isPc : w.pc t = .waking call) (same : SameButQueues w w')
    (waiting : w.queue call.object = first :: rest)
    (queues : ∀ q, w'.queue q = if q = call.object then rest else w.queue q) :
    LocksSound (({ w'.goto first (w.pc first).wake with
      woken := update w.woken call.object (first :: w.woken call.object) } : World T).goto t
        (.restoring call true)) := by
  have isKernel : w.kernel = some t := (sound.inside t).mp (by rw [isPc]; rfl)
  obtain ⟨differ, c, isAsleep, isObject⟩ := sound.firstAsleep isKernel isPc waiting
  have once := sound.queueOnce call.object
  rw [waiting, List.nodup_cons] at once
  obtain ⟨w'', isW''⟩ : ∃ w'', ({ w'.goto first (w.pc first).wake with
      woken := update w.woken call.object (first :: w.woken call.object) } : World T).goto t
        (.restoring call true) = w'' := ⟨_, rfl⟩
  have pcSelf : w''.pc t = .restoring call true := by rw [← isW'', goto_self]
  have pcFirst : w''.pc first = .ready c := by
    rw [← isW'', goto_other differ]
    exact (goto_self (w := w')).trans (by rw [isAsleep]; rfl)
  have pcOther : ∀ u, u ≠ t → u ≠ first → w''.pc u = w.pc u := fun u notT notFirst => by
    rw [← isW'', goto_other notT, ← same.pc]
    exact goto_other notFirst
  have lists : ∀ q, w''.queue q = if q = call.object then rest else w.queue q := fun q => by
    rw [← isW'', goto_queue, ← queues q]
    cases q <;> rfl
  have available : ∀ q, w''.available q = w.available q := fun q => by
    rw [← isW'', goto_available, ← same.available q]
    cases q <;> rfl
  have woken : ∀ q, w''.woken q = if q = call.object then first :: w.woken q
    else w.woken q := fun q => by
    rw [← isW'']
    refine (update_apply _ _ _ _).trans ?_
    split
    · next here => rw [here]
    · rfl
  have kernel : w''.kernel = some t := by
    rw [← isW'', ← isKernel]
    exact same.kernel
  have notWoken : first ∉ w.woken call.object := fun inside => by
    rw [sound.woken, isAsleep] at inside
    cases inside
  have owners : ∀ m, w''.holders m = w.holders m ∧ (w''.mutex m).owner = (w.mutex m).owner ∧
      (w''.mutex m).locked = (w.mutex m).locked := isW'' ▸ same.owner
  have counts : ∀ s, w''.initial s = w.initial s ∧ w''.posts s = w.posts s ∧
      w''.waits s = w.waits s ∧ (w''.sem s).count = (w.sem s).count := isW'' ▸ same.permits
  rw [isW'']
  refine ⟨fun u => ?_, fun q u => ?_, fun q => ?_, fun q u => ?_, fun q => ?_, fun u => ?_,
    fun u d isAdding => ?_, fun q stillWaiting => ?_, fun m => ?_, fun s => ?_⟩
  · rw [kernel]
    by_cases isT : u = t
    · rw [isT, pcSelf]
      exact ⟨fun _ => rfl, fun _ => rfl⟩
    · by_cases isFirst : u = first
      · rw [isFirst, pcFirst]
        exact ⟨nofun, fun here => absurd (Option.some.inj here).symm differ⟩
      · rw [pcOther u isT isFirst, ← isKernel]
        exact sound.inside u
  · rw [lists]
    by_cases isT : u = t
    · have notOn := sound.queued q u
      rw [isT, isPc] at notOn
      rw [isT, pcSelf]
      refine ⟨fun inside => ?_, nofun⟩
      split at inside
      · next here => exact notOn.mp (here ▸ waiting ▸ List.mem_cons_of_mem _ inside)
      · exact notOn.mp inside
    · by_cases isFirst : u = first
      · rw [isFirst, pcFirst]
        refine ⟨fun inside => ?_, nofun⟩
        split at inside
        · exact absurd inside once.1
        · next elsewhere =>
          rw [sound.queued, isAsleep] at inside
          exact absurd (Option.some.inj inside).symm (isObject ▸ elsewhere)
      · rw [pcOther u isT isFirst, ← sound.queued q u]
        split
        · next here => simp [here, waiting, isFirst]
        · exact Iff.rfl
  · rw [lists]
    split
    · exact once.2
    · exact sound.queueOnce q
  · rw [woken]
    by_cases isT : u = t
    · have before := sound.woken q u
      rw [isT, isPc] at before
      rw [isT, pcSelf]
      refine ⟨fun inside => ?_, nofun⟩
      split at inside
      · exact before.mp ((List.mem_cons.mp inside).resolve_left (Ne.symm differ))
      · exact before.mp inside
    · by_cases isFirst : u = first
      · rw [isFirst, pcFirst]
        refine ⟨fun inside => ?_, fun here => ?_⟩
        · split at inside
          · next here => rw [here, ← isObject]; rfl
          · rw [sound.woken, isAsleep] at inside
            cases inside
        · rw [if_pos ((Option.some.inj here).symm.trans isObject)]
          exact List.mem_cons_self
      · rw [pcOther u isT isFirst, ← sound.woken q u]
        split
        · simp [isFirst]
        · exact Iff.rfl
  · rw [woken]
    split
    · next here => exact List.nodup_cons.mpr ⟨here ▸ notWoken, sound.wokenOnce q⟩
    · exact sound.wokenOnce q
  · by_cases isT : u = t
    · rw [isT, pcSelf]
      rfl
    · by_cases isFirst : u = first
      · have sane := sound.sane first
        rw [isAsleep] at sane
        rw [isFirst, pcFirst]
        exact sane
      · rw [pcOther u isT isFirst]
        exact sound.sane u
  · by_cases isT : u = t
    · rw [isT, pcSelf] at isAdding
      cases isAdding
    · by_cases isFirst : u = first
      · rw [isFirst, pcFirst] at isAdding
        cases isAdding
      · rw [pcOther u isT isFirst] at isAdding
        rw [available]
        exact sound.adding u d isAdding
  · rw [available, woken]
    by_cases here : q = call.object
    · rw [if_pos here]
      have before := sound.supply q (by rw [here, waiting]; exact List.cons_ne_nil _ _)
      have due : w.due q = 1 := by
        unfold World.due
        rw [isKernel]
        simp [isPc, Pc.wakes, here]
      rw [List.length_cons]
      omega
    · rw [if_neg here]
      rw [lists, if_neg here] at stillWaiting
      have before := sound.supply q stillWaiting
      have due : w.due q = 0 := due_of_kernel isKernel (by rw [isPc]; exact fun wakes => here (Option.some.inj wakes).symm)
      omega
  · obtain ⟨holders, isOwner, isLocked⟩ := owners m
    rw [holders, isOwner, isLocked]
    exact sound.owner m
  · obtain ⟨initial, posts, waits, count⟩ := counts s
    rw [initial, posts, waits, count]
    exact sound.permits s

omit [DecidableEq T] in
theorem queue_of_waitqueue {waiting : List T} (isQueue : w.waitqueue q memory = some waiting) :
    w.queue q = waiting := by
  unfold World.queue
  unfold World.waitqueue at isQueue
  cases found : w.waiters q with
  | none =>
      rw [found] at isQueue
      cases memory with
      | false => cases isQueue
      | true => exact Option.some.inj isQueue
  | some inside =>
      rw [found] at isQueue
      exact Option.some.inj isQueue

structure OneChanged (w w' : World T) (q : Object) : Prop where
  waiters : ∀ p, w'.waiters p = w.waiters p
  others : ∀ p, p ≠ q → w'.available p = w.available p
  pc : w'.pc = w.pc
  kernel : w'.kernel = w.kernel
  woken : w'.woken = w.woken

omit [DecidableEq T] in
theorem takeMutex_changed {m : Nat} : OneChanged w (w.takeMutex t m) (.mutex m) := by
  refine ⟨fun p => ?_, fun p other => ?_, rfl, rfl, rfl⟩
  · cases p with
    | mutex o => by_cases same : o = m <;> simp [World.takeMutex, World.waiters, same]
    | sem s => rfl
  · cases p with
    | mutex o =>
      have differ : o ≠ m := fun same => other (same ▸ rfl)
      simp [World.takeMutex, World.available, differ]
    | sem s => rfl

theorem freeMutex_changed {m : Nat} : OneChanged w (w.freeMutex t m) (.mutex m) := by
  refine ⟨fun p => ?_, fun p other => ?_, rfl, rfl, rfl⟩
  · cases p with
    | mutex o => by_cases same : o = m <;> simp [World.freeMutex, World.waiters, same]
    | sem s => rfl
  · cases p with
    | mutex o =>
      have differ : o ≠ m := fun same => other (same ▸ rfl)
      simp [World.freeMutex, World.available, differ]
    | sem s => rfl

omit [DecidableEq T] in
theorem takePermit_changed {s : Nat} : OneChanged w (w.takePermit s) (.sem s) := by
  refine ⟨fun p => ?_, fun p other => ?_, rfl, rfl, rfl⟩
  · cases p with
    | mutex m => rfl
    | sem o => by_cases same : o = s <;> simp [World.takePermit, World.waiters, same]
  · cases p with
    | mutex m => rfl
    | sem o =>
      have differ : o ≠ s := fun same => other (same ▸ rfl)
      simp [World.takePermit, World.available, differ]

omit [DecidableEq T] in
theorem addPermit_changed {s : Nat} : OneChanged w (w.addPermit s) (.sem s) := by
  refine ⟨fun p => ?_, fun p other => ?_, rfl, rfl, rfl⟩
  · cases p with
    | mutex m => rfl
    | sem o => by_cases same : o = s <;> simp [World.addPermit, World.waiters, same]
  · cases p with
    | mutex m => rfl
    | sem o =>
      have differ : o ≠ s := fun same => other (same ▸ rfl)
      simp [World.addPermit, World.available, differ]

theorem retries_same (again : Bool) :
    (∀ p, (w.retries t q again).waiters p = w.waiters p) ∧ (∀ p, (w.retries t q again).available p = w.available p) ∧
      (w.retries t q again).pc = w.pc ∧ (w.retries t q again).kernel = w.kernel := by
  cases again
  · exact ⟨fun _ => rfl, fun _ => rfl, rfl, rfl⟩
  · exact ⟨fun p => by cases p <;> rfl, fun p => by cases p <;> rfl, rfl, rfl⟩

theorem tested_refused {again : Bool} (inside : pc.inside = true) (notOn : pc.waitsOn = none)
    (notWoken : pc.wokenFor = none) (sane : pc.sane = true) (nothing : w.available call.object ≤ 0)
    (adding : ∀ c, pc = .adding c → c = call) :
    Tested w ((w.retries t call.object again).goto t pc) t call again pc := by
  obtain ⟨waiters, available, pcs, kernel⟩ :=
    retries_same (w := w) (t := t) (q := call.object) again
  refine ⟨?_, kernel, fun q => ?_, rfl, inside, notOn, notWoken, sane, fun q _ => ?_, .inl ?_,
    fun c isAdding => ?_⟩
  · rw [← pcs]
    rfl
  · rw [goto_queue, World.queue, waiters, World.queue]
  · rw [goto_available, available]
  · rw [goto_available, available]
    exact nothing
  · rw [goto_available, available, adding c isAdding]
    exact nothing

theorem tested_changed (again : Bool) {w' : World T}
    (changed : OneChanged (w.retries t call.object again) w' call.object)
    (inside : pc.inside = true) (notOn : pc.waitsOn = none) (notWoken : pc.wokenFor = none)
    (sane : pc.sane = true) (own : w'.available call.object + 1 ≤ w.available call.object ∨
      again = false ∧ w'.available call.object ≤ w.available call.object + 1 ∧ pc.wakes = some call.object)
    (notAdding : ∀ c, pc ≠ .adding c) : Tested w (w'.goto t pc) t call again pc := by
  obtain ⟨waiters, available, pcs, kernel⟩ :=
    retries_same (w := w) (t := t) (q := call.object) again
  refine ⟨?_, changed.kernel.trans kernel, fun q => ?_, changed.woken, inside, notOn, notWoken,
    sane, fun q other => ?_, .inr ?_, fun c isAdding => absurd isAdding (notAdding c)⟩
  · rw [← pcs, ← changed.pc]
    rfl
  · rw [goto_queue, World.queue, changed.waiters, waiters, World.queue]
  · rw [goto_available, changed.others q other, available]
  · exact own

omit [DecidableEq T] in
theorem LocksSound.noOwner {m : Nat} (sound : LocksSound w) (free : (w.mutex m).locked = false) :
    (w.mutex m).owner = none := by
  have said := (sound.owner m).2
  rw [free] at said
  exact Option.not_isSome_iff_eq_none.mp (by rw [← said]; decide)

omit [DecidableEq T] in
theorem LocksSound.nobody {m : Nat} (sound : LocksSound w) (free : (w.mutex m).owner = none) :
    w.holders m = [] := by
  rw [(sound.owner m).1, free]
  rfl

theorem LocksSound.tookMutex {again : Bool} {m : Nat} (sound : LocksSound w)
    (isPc : w.pc t = .testing call again) (isObject : call.object = .mutex m)
    (free : (w.mutex m).locked = false) :
    LocksSound (((w.retries t call.object again).takeMutex t m).goto t (.restoring call true)) := by
  have mutexes : (w.retries t call.object again).mutex = w.mutex := by cases again <;> rfl
  have holders : (w.retries t call.object again).holders = w.holders := by cases again <;> rfl
  have changed : OneChanged (w.retries t call.object again)
    ((w.retries t call.object again).takeMutex t m) call.object := by
    rw [isObject]
    exact takeMutex_changed
  refine sound.tested isPc (tested_changed _ changed rfl rfl rfl rfl (.inl ?_) nofun) (fun o => ?_)
    ?_
  · rw [isObject]
    simp [World.available, World.takeMutex, free]
  · by_cases same : o = m
    · subst same
      simp [World.goto, World.takeMutex, holders, sound.nobody (sound.noOwner free)]
    · simp only [World.goto, World.takeMutex, Function.update_of_ne same, holders, mutexes]
      exact sound.owner o
  · cases again <;> exact sound.permits

theorem LocksSound.freedMutex {m : Nat} (sound : LocksSound w)
    (isPc : w.pc t = .testing (.mutexUnlock m) false)
    (own : (w.mutex m).locked = false ∨ (w.mutex m).owner = none ∨ (w.mutex m).owner = some t) :
    LocksSound ((w.freeMutex t m).goto t (.waking (.mutexUnlock m))) := by
  refine sound.tested isPc
    (tested_changed false freeMutex_changed rfl rfl rfl rfl (.inr ⟨rfl, ?_, rfl⟩) nofun)
    (fun o => ?_) sound.permits
  · have atMost : (w.freeMutex t m).available (.mutex m) ≤ 1 := by
      simp only [World.available]
      split <;> omega
    have atLeast : 0 ≤ w.available (.mutex m) := by
      simp only [World.available]
      split <;> omega
    simp only [Call.object]
    omega
  · by_cases same : o = m
    · subst same
      have said := sound.owner o
      have nobodyElse : (w.holders o).erase t = [] := by
        rw [said.1]
        rcases own with free | none | mine
        · rw [sound.noOwner free]
          rfl
        · rw [none]
          rfl
        · rw [mine]
          simp
      simp [World.goto, World.freeMutex, nobodyElse]
    · simp only [World.goto, World.freeMutex, Function.update_of_ne same]
      exact sound.owner o

theorem LocksSound.tookPermit {again : Bool} {s : Nat} (sound : LocksSound w)
    (isPc : w.pc t = .testing call again) (isObject : call.object = .sem s)
    (some : 0 < (w.sem s).count) :
    LocksSound (((w.retries t call.object again).takePermit s).goto t (.restoring call true)) := by
  have sems : ∀ q, (w.retries t q again).sem = w.sem := fun _ => by cases again <;> rfl
  have counts : (w.retries t call.object again).initial = w.initial ∧ (w.retries t call.object again).posts = w.posts ∧
      (w.retries t call.object again).waits = w.waits := by cases again <;> exact ⟨rfl, rfl, rfl⟩
  have changed : OneChanged (w.retries t call.object again)
    ((w.retries t call.object again).takePermit s) call.object := by
    rw [isObject]
    exact takePermit_changed
  refine sound.tested isPc (tested_changed _ changed rfl rfl rfl rfl (.inl ?_) nofun) ?_
    (fun o => ?_)
  · rw [isObject]
    simp [World.available, World.takePermit, sems]
  · cases again <;> exact sound.owner
  · have before := sound.permits o
    by_cases same : o = s
    · subst same
      simp only [World.goto, World.takePermit, update_self, sems, counts]
      omega
    · simp only [World.goto, World.takePermit, Function.update_of_ne same, sems, counts]
      exact before

theorem LocksSound.addedPermit {s : Nat} (sound : LocksSound w)
    (isPc : w.pc t = .testing (.semPost s) false) :
    LocksSound ((w.addPermit s).goto t (.waking (.semPost s))) := by
  refine sound.tested isPc
    (tested_changed false addPermit_changed rfl rfl rfl rfl (.inr ⟨rfl, ?_, rfl⟩) nofun)
    sound.owner (fun o => ?_)
  · simp [World.available, World.addPermit, Call.object]
  · have before := sound.permits o
    by_cases same : o = s
    · subst same
      simp only [World.goto, World.addPermit, update_self]
      omega
    · simp only [World.goto, World.addPermit, Function.update_of_ne same]
      exact before

theorem LocksSound.test {again : Bool} (sound : LocksSound w)
    (isPc : w.pc t = .testing call again) :
    LocksSound ((w.retries t call.object again).test t call) := by
  have sane := sound.sane t
  rw [isPc] at sane
  have mutexes : (w.retries t call.object again).mutex = w.mutex := by cases again <;> rfl
  have sems : (w.retries t call.object again).sem = w.sem := by cases again <;> rfl
  have refused : ∀ pc, pc.inside = true → pc.waitsOn = none → pc.wokenFor = none → pc.sane = true →
      w.available call.object ≤ 0 → (∀ c, pc = .adding c → c = call) →
      LocksSound ((w.retries t call.object again).goto t pc) := fun pc inside notOn notWoken sane nothing adding =>
    sound.tested isPc (tested_refused inside notOn notWoken sane nothing adding)
      (by cases again <;> exact sound.owner) (by cases again <;> exact sound.permits)
  cases call with
  | mutexLock m =>
      simp only [World.test, mutexes]
      split
      · next held => exact refused _ rfl rfl rfl rfl (by simp [World.available, Call.object, held]) fun c same => (Pc.adding.inj same).symm
      · next free => exact sound.tookMutex isPc rfl (Bool.eq_false_iff.mpr free)
  | mutexTrylock m =>
      simp only [World.test, mutexes]
      split
      · next held => exact refused _ rfl rfl rfl rfl (by simp [World.available, Call.object, held]) nofun
      · next free => exact sound.tookMutex isPc rfl (Bool.eq_false_iff.mpr free)
  | mutexUnlock m =>
      simp only [World.test, mutexes]
      split
      · next held => exact refused _ rfl rfl rfl rfl (by simp [World.available, Call.object, held.1]) nofun
      · next own =>
        cases again with
        | true => cases sane
        | false =>
          refine sound.freedMutex isPc ?_
          by_cases free : (w.mutex m).locked = false
          · exact .inl free
          · by_cases none : (w.mutex m).owner = none
            · exact .inr (.inl none)
            · exact .inr (.inr (Classical.not_not.mp fun other => own ⟨Bool.not_eq_false _ ▸ free, none, other⟩))
  | semWait s =>
      simp only [World.test, sems]
      split
      · next some => exact sound.tookPermit isPc rfl some
      · next none =>
        exact refused _ rfl rfl rfl rfl (Int.not_lt.mp none) fun c same => (Pc.adding.inj same).symm
  | semTrywait s =>
      simp only [World.test, sems]
      split
      · next some => exact sound.tookPermit isPc rfl some
      · next none => exact refused _ rfl rfl rfl rfl (Int.not_lt.mp none) nofun
  | semPost s =>
      cases again with
      | true => cases sane
      | false => exact sound.addedPermit isPc

theorem LocksSound.go (sound : LocksSound w) : LocksSound (w.go t memory) := by
  have sane := sound.sane t
  have inside := sound.inside t
  unfold World.go
  cases isPc : w.pc t with
  | out => exact sound
  | asleep call => exact sound
  | saving call again =>
      rw [isPc] at sane
      simp only
      split
      · next free =>
        refine sound.shift ⟨fun _ => rfl, fun _ => rfl⟩ (fun u other => ?_) (by rw [isPc]; rfl) ?_ (by rw [isPc]; rfl) ?_ nofun
        · rw [free]
          exact ⟨fun here => absurd (Option.some.inj here).symm other, nofun⟩
        · rw [isPc]
          cases again <;> rfl
        · cases again <;> exact sane
      · exact sound
  | testing call again => exact sound.test isPc
  | adding call =>
      simp only
      split
      · exact { sound with }
      · next waiting isQueue =>
        rw [← queue_of_waitqueue isQueue]
        exact sound.added isPc
  | switching call =>
      rw [isPc] at sane inside
      have isKernel := inside.mp rfl
      refine sound.shift ⟨nofun, nofun⟩ (fun u other => ?_) (by rw [isPc]; rfl) (by rw [isPc]; rfl) (by rw [isPc]; rfl) sane nofun
      rw [isKernel]
      exact ⟨nofun, fun here => absurd (Option.some.inj here).symm other⟩
  | ready call =>
      rw [isPc] at sane
      simp only
      split
      · next free =>
        refine sound.shift ⟨fun _ => rfl, fun _ => rfl⟩ (fun u other => ?_) (by rw [isPc]; rfl)
          (by rw [isPc]; rfl) (by rw [isPc]; rfl) sane nofun
        rw [free]
        exact ⟨fun here => absurd (Option.some.inj here).symm other, nofun⟩
      · exact sound
  | resumed call =>
      rw [isPc] at sane inside
      have isKernel := inside.mp rfl
      refine sound.shift ⟨nofun, nofun⟩ (fun u other => ?_) (by rw [isPc]; rfl) (by rw [isPc]; rfl) (by rw [isPc]; rfl) sane nofun
      rw [isKernel]
      exact ⟨nofun, fun here => absurd (Option.some.inj here).symm other⟩
  | waking call =>
      simp only [World.wakeOne]
      split
      · next notThere =>
        refine sound.wokeNobody isPc ⟨rfl, rfl, rfl, fun _ => rfl, fun _ => ⟨rfl, rfl, rfl⟩,
          fun _ => ⟨rfl, rfl, rfl, rfl⟩⟩ (fun _ => rfl) ?_
        unfold World.queue
        rw [(Option.or_eq_none_iff.mp notThere).1]
        rfl
      · next isQueue =>
        have empty := queue_of_waitqueue isQueue
        refine sound.wokeNobody isPc setWaiters_same (fun q => ?_) empty
        rw [setWaiters_queue]
        split
        · next here => rw [here, empty]
        · rfl
      · next first rest isQueue =>
        exact sound.wokeFirst isPc setWaiters_same (queue_of_waitqueue isQueue) fun q => setWaiters_queue rest
  | restoring call result =>
      rw [isPc] at inside
      have isKernel := inside.mp rfl
      refine sound.shift ⟨nofun, nofun⟩ (fun u other => ?_) (by rw [isPc]; rfl) (by rw [isPc]; rfl) (by rw [isPc]; rfl) rfl nofun
      rw [isKernel]
      exact ⟨nofun, fun here => absurd (Option.some.inj here).symm other⟩

theorem LocksSound.step (sound : LocksSound w) (label : Step T) : LocksSound (w.step label) := by
  unfold World.step
  split
  · exact sound
  · cases label with
    | go t memory => exact sound.go
    | call t call =>
        simp only
        split
        · next isPc =>
          have inside := sound.inside t
          rw [isPc] at inside
          exact sound.shift ⟨nofun, fun here => absurd (inside.mpr here) nofun⟩ (fun u _ => Iff.rfl)
            (by rw [isPc]; rfl) (by rw [isPc]; rfl) (by rw [isPc]; rfl) rfl nofun
        · exact sound

/-- No mutex has two holders, no permit is lost or made up, and nobody is left waiting for what is
there. -/
theorem locks_ok (initial : Nat → Nat)
    (reached : Reaches World.step (fun _ _ => True) (World.init initial) w) : LocksOk w :=
  (reached.invariant (LocksSound.init initial) fun _ label sound _ => sound.step label).ok

/-- A thread that waits for the mutex is woken by the unlock. -/
theorem locks_ok_handover :
    LocksOk (runSteps World.step (World.init fun _ => 0 : World Bool)
      [.call false (.mutexLock 0), .go false true, .go false true, .go false true, .call true (.mutexLock 0), .go true true,
        .go true true, .go true true, .go true true, .call false (.mutexUnlock 0), .go false true,
        .go false true, .go false true]) :=
  locks_ok _ (Reaches.refl.runSteps (by simp [StepsAllowed]))

example : (runSteps World.step (World.init fun _ => 0 : World Bool)
    [.call false (.mutexLock 0), .go false true, .go false true, .go false true, .call true (.mutexLock 0), .go true true,
      .go true true, .go true true, .go true true, .call false (.mutexUnlock 0), .go false true,
      .go false true, .go false true]).pc true = .ready (.mutexLock 0) := by decide

end Cos.Sync
