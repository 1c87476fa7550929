import Cos.Runtime.Mutex
import Mathlib.Data.Fin.Basic

/-! # Signals reach somebody

What a signal of the condition variable promises to the waits it finds, over all runs.
-/

namespace Cos.Runtime

open Cos.Lib
open Function (update update_of_ne update_self)

variable {T : Type} [DecidableEq T]

/-- Of the waits a signal found, one at least is not parked once the signal is over. -/
def SignalsOk (s : Monitor T) : Prop :=
  ∀ waits ∈ s.signalled, waits.Nonempty → ∃ i ∈ waits, ∀ t ∈ s.waiting, s.waitId t ≠ i

/-- The signals since a waiter read `seq` are no multiple of 2^32 when it comes to its futex, unless
there are none. -/
def inTime (s : Monitor T) : SyncStep T → Prop
  | .go t _ => ∀ seen, s.pcs t = .condFutex seen → (s.adds - s.readAt t) % 2 ^ 32 = 0 → s.adds = s.readAt t
  | _ => True

/-- The thread has read `seq` and is not out of its futex. -/
def SyncPc.waits : SyncPc → Bool
  | .condAdd _ | .condUnlock _ | .condWake _ | .condFutex _ | .condSleep => true
  | _ => false

/-- The thread is counted in `waiters`. -/
def SyncPc.counted : SyncPc → Bool
  | .condUnlock _ | .condWake _ | .condFutex _ | .condSleep | .condSub => true
  | _ => false

def SyncPc.seen? : SyncPc → Option Nat
  | .condAdd seen | .condUnlock seen | .condWake seen | .condFutex seen => some seen
  | _ => none

def SyncPc.signals : SyncPc → Bool
  | .signalLoad _ | .signalWake _ => true
  | _ => false

/-- The wait is over, or will not park: `seq` has moved on. -/
def Monitor.Roused (s : Monitor T) (i : Nat) : Prop :=
  i < s.waits ∧ ∀ t, s.waitId t = i → (s.pcs t).waits = true →
    t ∉ s.waiting ∧ (s.pcs t ≠ .condSleep → s.readAt t < s.adds)

/-- A running signal has roused one of its waits, or the next wake goes to one. -/
def Monitor.InHand (s : Monitor T) (waits : Set Nat) : Prop :=
  (∃ i ∈ waits, s.Roused i) ∨ ∃ t, s.waiting.head? = some t ∧ s.waitId t ∈ waits

structure CondSound (s : Monitor T) : Prop where
  seq : s.seq = s.adds % 2 ^ 32
  waiters : s.waiters = s.counted.length
  countedOnce : s.counted.Nodup
  counted : ∀ t, t ∈ s.counted ↔ (s.pcs t).counted = true
  asleep : ∀ t ∈ s.waiting, s.pcs t = .condSleep
  once : s.waiting.Nodup
  seen : ∀ t v, (s.pcs t).seen? = some v → v = s.readAt t % 2 ^ 32 ∧ s.readAt t ≤ s.adds
  fresh : ∀ t, (s.pcs t).waits = true → s.waitId t < s.waits
  distinct : ∀ t u, (s.pcs t).waits = true → (s.pcs u).waits = true → s.waitId t = s.waitId u →
    t = u
  inHand : ∀ t, (s.pcs t).signals = true → (s.found t).Nonempty → s.InHand (s.found t)
  past : ∀ waits ∈ s.signalled, waits.Nonempty → ∃ i ∈ waits, s.Roused i

variable {s next : Monitor T} {t u : T} {pc : SyncPc} {waits : Set Nat} {i : Nat}

omit [DecidableEq T] in
theorem CondSound.ok (sound : CondSound s) : SignalsOk s := by
  intro waits member some
  obtain ⟨i, isWait, -, roused⟩ := sound.past waits member some
  refine ⟨i, isWait, fun t parked same => ?_⟩
  exact (roused t same (by rw [sound.asleep t parked]; rfl)).1 parked

omit [DecidableEq T] in
theorem CondSound.not_waiting (sound : CondSound s) (awake : s.pcs t ≠ .condSleep) :
    t ∉ s.waiting :=
  fun parked => awake (sound.asleep t parked)

omit [DecidableEq T] in
theorem Monitor.InHand.mono (hand : s.InHand waits) (roused : ∀ i, s.Roused i → next.Roused i)
    (first : ∀ t, s.waiting.head? = some t →
    next.waiting.head? = some t ∧ next.waitId t = s.waitId t) : next.InHand waits := by
  rcases hand with ⟨i, member, rouses⟩ | ⟨t, isFirst, member⟩
  · exact Or.inl ⟨i, member, roused i rouses⟩
  · obtain ⟨still, same⟩ := first t isFirst
    exact Or.inr ⟨t, still, same ▸ member⟩

/-- A thread goes from one place to the next and nothing new is promised. -/
structure SyncPc.Follows (before after : SyncPc) : Prop where
  waits : after.waits = true → before.waits = true ∧ before ≠ .condSleep
  seen : ∀ v, after.seen? = some v → before.seen? = some v
  signals : after.signals = true → before.signals = true

theorem Monitor.Roused.moved (roused : s.Roused i)
    (waits : pc.waits = true → (s.pcs t).waits = true ∧ s.pcs t ≠ .condSleep) :
    (s.goto t pc).Roused i := by
  refine ⟨roused.1, fun u same waiting => ?_⟩
  change ((update s.pcs t pc) u).waits = true at waiting
  change u ∉ s.waiting ∧ ((update s.pcs t pc) u ≠ .condSleep → s.readAt u < s.adds)
  by_cases isSelf : u = t
  · rw [isSelf, update_self] at waiting
    obtain ⟨before, awake⟩ := waits waiting
    rw [isSelf] at same ⊢
    obtain ⟨free, late⟩ := roused.2 t same before
    exact ⟨free, fun _ => late awake⟩
  · rw [update_of_ne isSelf] at waiting ⊢
    exact roused.2 u same waiting

theorem CondSound.recount {waiters : Nat} {counted : List T} (sound : CondSound s)
    (awake : t ∉ s.waiting) (follows : (s.pcs t).Follows pc) (number : waiters = counted.length)
    (nodup : counted.Nodup) (own : t ∈ counted ↔ pc.counted = true)
    (others : ∀ u, u ≠ t → (u ∈ counted ↔ u ∈ s.counted)) :
    CondSound ({ s with waiters := waiters, counted := counted }.goto t pc) := by
  have waits : ∀ u, ((s.goto t pc).pcs u).waits = true → (s.pcs u).waits = true := by
    intro u waiting
    change ((update s.pcs t pc) u).waits = true at waiting
    by_cases same : u = t
    · rw [same, update_self] at waiting
      rw [same]
      exact (follows.waits waiting).1
    · rwa [update_of_ne same] at waiting
  have roused : ∀ i, s.Roused i → (s.goto t pc).Roused i :=
    fun i rouses => rouses.moved follows.waits
  refine { sound with
    waiters := number, countedOnce := nodup, counted := ?_, asleep := ?_, seen := ?_, fresh := ?_, distinct := ?_
    inHand := ?_, past := ?_ }
  · intro u
    change u ∈ counted ↔ ((update s.pcs t pc) u).counted = true
    by_cases same : u = t
    · rw [same, update_self]
      exact own
    · rw [update_of_ne same]
      exact (others u same).trans (sound.counted u)
  · intro u parked
    have differ : u ≠ t := by
      rintro rfl
      exact awake parked
    change (update s.pcs t pc) u = _
    rw [update_of_ne differ]
    exact sound.asleep u parked
  · intro u v read
    change ((update s.pcs t pc) u).seen? = some v at read
    by_cases same : u = t
    · rw [same, update_self] at read
      rw [same]
      exact sound.seen t v (follows.seen v read)
    · rw [update_of_ne same] at read
      exact sound.seen u v read
  · intro u waiting
    exact sound.fresh u (waits u waiting)
  · intro u v waitingU waitingV
    exact sound.distinct u v (waits u waitingU) (waits v waitingV)
  · intro u signals some
    change ((update s.pcs t pc) u).signals = true at signals
    have before : (s.pcs u).signals = true := by
      by_cases same : u = t
      · rw [same, Function.update_self] at signals
        rw [same]
        exact follows.signals signals
      · rwa [Function.update_of_ne same] at signals
    exact (sound.inHand u before some).mono roused fun first isFirst => ⟨isFirst, rfl⟩
  · intro found member some
    obtain ⟨i, isWait, rouses⟩ := sound.past found member some
    exact ⟨i, isWait, roused i rouses⟩

theorem CondSound.moved (sound : CondSound s) (awake : t ∉ s.waiting)
    (follows : (s.pcs t).Follows pc) (same : pc.counted = (s.pcs t).counted) :
    CondSound (s.goto t pc) :=
  sound.recount awake follows sound.waiters sound.countedOnce (by rw [same]; exact sound.counted t)
    fun _ _ => Iff.rfl

omit [DecidableEq T] in
theorem CondSound.mutex {word : Nat} {lockers holders : List T} (sound : CondSound s) :
    CondSound { s with mutex := word, lockers := lockers, holders := holders } := { sound with }

theorem SyncPc.Follows.away {before : SyncPc} (waits : pc.waits = false) (seen : pc.seen? = none)
    (signals : pc.signals = false) : before.Follows pc where
  waits := fun set => by rw [waits] at set; cases set
  seen := fun v set => by rw [seen] at set; cases set
  signals := fun set => by rw [signals] at set; cases set

theorem CondSound.begin (sound : CondSound s) (here : s.pcs t = .condLoad) :
    CondSound ({ s with
      readAt := Function.update s.readAt t s.adds
      waitId := Function.update s.waitId t s.waits
      waits := s.waits + 1 }.goto t (.condAdd s.seq)) := by
  have awake : t ∉ s.waiting := sound.not_waiting (by rw [here]; simp)
  have notSelf : ∀ v ∈ s.waiting, v ≠ t := by
    rintro v parked rfl
    exact awake parked
  have roused : ∀ i, s.Roused i → ({ s with
      readAt := Function.update s.readAt t s.adds
      waitId := Function.update s.waitId t s.waits
      waits := s.waits + 1 }.goto t (.condAdd s.seq)).Roused i := by
    rintro i ⟨less, each⟩
    refine ⟨Nat.lt_succ_of_lt less, fun u same waiting => ?_⟩
    change (Function.update s.waitId t s.waits) u = i at same
    change ((Function.update s.pcs t (.condAdd s.seq)) u).waits = true at waiting
    change u ∉ s.waiting ∧ ((Function.update s.pcs t (.condAdd s.seq)) u ≠ .condSleep →
      (Function.update s.readAt t s.adds) u < s.adds)
    by_cases isSelf : u = t
    · rw [isSelf, Function.update_self] at same
      exact absurd same (Nat.ne_of_gt less)
    · rw [Function.update_of_ne isSelf] at same waiting ⊢
      rw [Function.update_of_ne isSelf]
      exact each u same waiting
  refine { sound with counted := ?_, asleep := ?_, seen := ?_, fresh := ?_, distinct := ?_, inHand := ?_, past := ?_ }
  · intro u
    change u ∈ s.counted ↔ ((Function.update s.pcs t (.condAdd s.seq)) u).counted = true
    by_cases same : u = t
    · rw [same, Function.update_self, sound.counted t, here]
      exact Iff.rfl
    · rw [Function.update_of_ne same]
      exact sound.counted u
  · intro u parked
    change (Function.update s.pcs t (.condAdd s.seq)) u = _
    rw [Function.update_of_ne (notSelf u parked)]
    exact sound.asleep u parked
  · intro u v read
    change ((Function.update s.pcs t (.condAdd s.seq)) u).seen? = some v at read
    change v = (Function.update s.readAt t s.adds) u % 2 ^ 32 ∧ (Function.update s.readAt t s.adds) u ≤ s.adds
    by_cases same : u = t
    · rw [same, Function.update_self] at read
      rw [same, Function.update_self]
      exact ⟨(Option.some.inj read).symm.trans sound.seq, Nat.le_refl _⟩
    · rw [Function.update_of_ne same] at read ⊢
      exact sound.seen u v read
  · intro u waiting
    change ((Function.update s.pcs t (.condAdd s.seq)) u).waits = true at waiting
    change (Function.update s.waitId t s.waits) u < s.waits + 1
    by_cases same : u = t
    · rw [same, Function.update_self]
      exact Nat.lt_succ_self _
    · rw [Function.update_of_ne same] at waiting ⊢
      exact Nat.lt_succ_of_lt (sound.fresh u waiting)
  · intro u v waitingU waitingV same
    change ((Function.update s.pcs t (.condAdd s.seq)) u).waits = true at waitingU
    change ((Function.update s.pcs t (.condAdd s.seq)) v).waits = true at waitingV
    change (Function.update s.waitId t s.waits) u = (Function.update s.waitId t s.waits) v at same
    by_cases sameU : u = t
    · by_cases sameV : v = t
      · exact sameU.trans sameV.symm
      · rw [Function.update_of_ne sameV] at waitingV same
        rw [sameU, Function.update_self] at same
        exact absurd same.symm (Nat.ne_of_lt (sound.fresh v waitingV))
    · rw [Function.update_of_ne sameU] at waitingU same
      by_cases sameV : v = t
      · rw [sameV, Function.update_self] at same
        exact absurd same (Nat.ne_of_lt (sound.fresh u waitingU))
      · rw [Function.update_of_ne sameV] at waitingV same
        exact sound.distinct u v waitingU waitingV same
  · intro u signals some
    change ((Function.update s.pcs t (.condAdd s.seq)) u).signals = true at signals
    by_cases same : u = t
    · rw [same, Function.update_self] at signals
      cases signals
    · rw [Function.update_of_ne same] at signals
      refine (sound.inHand u signals some).mono roused fun first isFirst => ⟨isFirst, ?_⟩
      exact Function.update_of_ne (notSelf first (List.mem_of_head? isFirst)) _ _
  · intro found member some
    obtain ⟨i, isWait, rouses⟩ := sound.past found member some
    exact ⟨i, isWait, roused i rouses⟩

theorem CondSound.count [Fintype T] {seen : Nat} (sound : CondSound s)
    (few : Fintype.card T ≤ wakeAll) (here : s.pcs t = .condAdd seen) :
    CondSound ({ s with waiters := add32 s.waiters 1, counted := t :: s.counted }.goto t (.condUnlock seen)) := by
  have fresh : t ∉ s.counted := by
    rw [sound.counted t, here]
    simp [SyncPc.counted]
  have nodup : (t :: s.counted).Nodup := List.nodup_cons.mpr ⟨fresh, sound.countedOnce⟩
  have bound := nodup.length_le_card.trans few
  have number : add32 s.waiters 1 = (t :: s.counted).length := by
    rw [List.length_cons] at bound ⊢
    rw [sound.waiters, add32]
    unfold wakeAll at bound
    omega
  refine sound.recount (sound.not_waiting (by rw [here]; simp)) ?_ number nodup ?_ ?_
  · rw [here]
    exact ⟨fun _ => ⟨rfl, by simp⟩, fun v read => read, fun wrong => by cases wrong⟩
  · exact ⟨fun _ => rfl, fun _ => List.mem_cons_self⟩
  · intro u differ
    exact ⟨fun member => (List.mem_cons.mp member).resolve_left differ, List.mem_cons_of_mem t⟩

theorem CondSound.uncount [Fintype T] (sound : CondSound s) (few : Fintype.card T ≤ wakeAll)
    (here : s.pcs t = .condSub) :
    CondSound ({ s with waiters := decrement s.waiters, counted := s.counted.erase t }.goto t .lockCas) := by
  have member : t ∈ s.counted := by
    rw [sound.counted t, here]
    rfl
  have bound := sound.countedOnce.length_le_card.trans few
  have some : 0 < s.counted.length := List.length_pos_of_mem member
  have number : decrement s.waiters = (s.counted.erase t).length := by
    rw [List.length_erase_of_mem member, decrement, add32, sound.waiters]
    unfold wakeAll at bound
    omega
  refine sound.recount (sound.not_waiting (by rw [here]; simp)) (.away rfl rfl rfl) number
    (sound.countedOnce.erase t) ?_ ?_
  · refine ⟨fun wrong => absurd wrong sound.countedOnce.not_mem_erase, fun wrong => by cases wrong⟩
  · intro u differ
    exact List.mem_erase_of_ne differ

theorem CondSound.park {seen : Nat} (sound : CondSound s) (here : s.pcs t = .condFutex seen)
    (same : s.seq = seen) (soon : (s.adds - s.readAt t) % 2 ^ 32 = 0 → s.adds = s.readAt t) :
    CondSound ({ s with waiting := s.waiting ++ [t] }.goto t .condSleep) := by
  obtain ⟨isSeen, before⟩ := sound.seen t seen (by rw [here]; rfl)
  have current : s.readAt t = s.adds := by
    rw [sound.seq, isSeen] at same
    exact (soon (by omega)).symm
  have awake : t ∉ s.waiting := sound.not_waiting (by rw [here]; simp)
  have waits : ∀ u, ((update s.pcs t .condSleep) u).waits = true → (s.pcs u).waits = true := by
    intro u waiting
    by_cases isSelf : u = t
    · rw [isSelf, here]
      rfl
    · rwa [update_of_ne isSelf] at waiting
  have roused : ∀ i, s.Roused i →
    ({ s with waiting := s.waiting ++ [t] }.goto t .condSleep).Roused i := by
    rintro i ⟨less, each⟩
    refine ⟨less, fun u isWait waiting => ?_⟩
    obtain ⟨free, late⟩ := each u isWait (waits u waiting)
    have differ : u ≠ t := by
      rintro rfl
      have passed := late (by rw [here]; simp)
      omega
    refine ⟨fun parked => ?_, ?_⟩
    · rcases List.mem_append.mp parked with parked | self
      · exact free parked
      · exact differ (List.mem_singleton.mp self)
    · change (update s.pcs t .condSleep) u ≠ .condSleep → s.readAt u < s.adds
      rw [update_of_ne differ]
      exact late
  refine { sound with
    counted := ?_, asleep := ?_, once := ?_, seen := ?_, fresh := ?_, distinct := ?_, inHand := ?_, past := ?_ }
  · intro u
    change u ∈ s.counted ↔ ((update s.pcs t .condSleep) u).counted = true
    by_cases isSelf : u = t
    · rw [isSelf, update_self, sound.counted t, here]
      exact Iff.rfl
    · rw [Function.update_of_ne isSelf]
      exact sound.counted u
  · intro u parked
    change (update s.pcs t .condSleep) u = .condSleep
    by_cases isSelf : u = t
    · rw [isSelf, update_self]
    · rw [update_of_ne isSelf]
      rcases List.mem_append.mp parked with parked | self
      · exact sound.asleep u parked
      · exact absurd (List.mem_singleton.mp self) isSelf
  · refine List.nodup_append.mpr ⟨sound.once, List.nodup_singleton t, ?_⟩
    rintro u parked v self rfl
    exact awake (List.mem_singleton.mp self ▸ parked)
  · intro u v read
    change ((update s.pcs t .condSleep) u).seen? = some v at read
    by_cases isSelf : u = t
    · rw [isSelf, update_self] at read
      cases read
    · rw [update_of_ne isSelf] at read
      exact sound.seen u v read
  · intro u waiting
    exact sound.fresh u (waits u waiting)
  · intro u v waitingU waitingV
    exact sound.distinct u v (waits u waitingU) (waits v waitingV)
  · intro u signals some
    change ((update s.pcs t .condSleep) u).signals = true at signals
    have differ : u ≠ t := by
      rintro rfl
      rw [update_self] at signals
      cases signals
    rw [update_of_ne differ] at signals
    refine (sound.inHand u signals some).mono roused fun first isFirst => ⟨?_, rfl⟩
    change (s.waiting ++ [t]).head? = Option.some first
    rw [List.head?_append, isFirst]
    rfl
  · intro found member some
    obtain ⟨i, isWait, rouses⟩ := sound.past found member some
    exact ⟨i, isWait, roused i rouses⟩

omit [DecidableEq T] in
theorem Monitor.Roused.unpark {fewer : List T} (roused : s.Roused i)
    (part : fewer.Sublist s.waiting) : ({ s with waiting := fewer } : Monitor T).Roused i :=
  ⟨roused.1, fun u same waiting =>
    ⟨fun parked => (roused.2 u same waiting).1 (part.subset parked), (roused.2 u same waiting).2⟩⟩

omit [DecidableEq T] in
theorem CondSound.roused {fewer : List T} (sound : CondSound s) (parked : t ∈ s.waiting)
    (woken : t ∉ fewer) : ({ s with waiting := fewer } : Monitor T).Roused (s.waitId t) := by
  have waits : (s.pcs t).waits = true := by
    rw [sound.asleep t parked]
    rfl
  refine ⟨sound.fresh t waits, fun u same waiting => ?_⟩
  have self : u = t := sound.distinct u t waiting waits same
  rw [self]
  exact ⟨woken, fun notAsleep => absurd (sound.asleep t parked) notAsleep⟩

omit [DecidableEq T] in
theorem CondSound.unpark {fewer : List T} (sound : CondSound s) (part : fewer.Sublist s.waiting)
    (first : ∀ t, s.waiting.head? = some t → fewer.head? = some t ∨ t ∉ fewer) :
    CondSound { s with waiting := fewer } := by
  refine { sound with asleep := ?_, once := part.nodup sound.once, inHand := ?_, past := ?_ }
  · intro u parked
    exact sound.asleep u (part.subset parked)
  · intro u signals some
    rcases sound.inHand u signals some with ⟨i, isWait, rouses⟩ | ⟨h, isFirst, isWait⟩
    · exact Or.inl ⟨i, isWait, rouses.unpark part⟩
    · rcases first h isFirst with still | woken
      · exact Or.inr ⟨h, still, isWait⟩
      · exact Or.inl ⟨s.waitId h, isWait, sound.roused (List.mem_of_head? isFirst) woken⟩
  · intro found member some
    obtain ⟨i, isWait, rouses⟩ := sound.past found member some
    exact ⟨i, isWait, rouses.unpark part⟩

theorem CondSound.leave (sound : CondSound s) :
    CondSound { s with waiting := s.waiting.erase t } := by
  refine sound.unpark List.erase_sublist fun first isFirst => ?_
  by_cases same : first = t
  · rw [same]
    exact Or.inr sound.once.not_mem_erase
  · left
    cases isWaiting : s.waiting with
    | nil =>
      rw [isWaiting] at isFirst
      cases isFirst
    | cons head rest =>
      rw [isWaiting, List.head?_cons] at isFirst
      have isHead : head = first := Option.some.inj isFirst
      rw [List.erase_cons_tail (by simpa [isHead] using same), List.head?_cons, isHead]

omit [DecidableEq T] in
theorem Monitor.Roused.later (roused : s.Roused i) {found : T → Set Nat} :
    ({ s with seq := add32 s.seq 1, adds := s.adds + 1, found := found } : Monitor T).Roused i :=
  ⟨roused.1, fun u same waiting =>
    ⟨(roused.2 u same waiting).1, fun notAsleep => Nat.lt_succ_of_lt ((roused.2 u same waiting).2 notAsleep)⟩⟩

theorem CondSound.signal {all : Bool} (sound : CondSound s) (here : s.pcs t = .signalAdd all) :
    CondSound ({ s with
      seq := add32 s.seq 1
      adds := s.adds + 1
      found := update s.found t { i | s.IsWaiting i } }.goto t (.signalLoad all)) := by
  have counts : add32 s.seq 1 = (s.adds + 1) % 2 ^ 32 := by
    rw [add32, sound.seq, Nat.mod_add_mod]
  have stays : ∀ {p : SyncPc}, p = .signalAdd all →
      p.waits = false ∧ p.seen? = none ∧ p.counted = false ∧ p.signals = false := by
    rintro p rfl
    exact ⟨rfl, rfl, rfl, rfl⟩
  obtain ⟨-, -, notCounted, -⟩ := stays here
  have waits : ∀ u, ((update s.pcs t (.signalLoad all)) u).waits = true →
    u ≠ t ∧ (s.pcs u).waits = true := by
    intro u waiting
    by_cases isSelf : u = t
    · rw [isSelf, update_self] at waiting
      cases waiting
    · rw [Function.update_of_ne isSelf] at waiting
      exact ⟨isSelf, waiting⟩
  have roused : ∀ i, s.Roused i → ({ s with
      seq := add32 s.seq 1
      adds := s.adds + 1
      found := update s.found t { i | s.IsWaiting i } }.goto t (.signalLoad all)).Roused i := by
    intro i rouses
    exact Monitor.Roused.moved rouses.later fun wrong => by cases wrong
  refine { sound with
    seq := counts, counted := ?_, asleep := ?_, seen := ?_, fresh := ?_, distinct := ?_, inHand := ?_, past := ?_ }
  · intro u
    change u ∈ s.counted ↔ ((update s.pcs t (.signalLoad all)) u).counted = true
    by_cases isSelf : u = t
    · rw [isSelf, update_self, sound.counted t, notCounted]
      exact Iff.rfl
    · rw [Function.update_of_ne isSelf]
      exact sound.counted u
  · intro u parked
    have differ : u ≠ t := by
      rintro rfl
      have asleep := sound.asleep u parked
      rw [here] at asleep
      cases asleep
    change (update s.pcs t (.signalLoad all)) u = .condSleep
    rw [update_of_ne differ]
    exact sound.asleep u parked
  · intro u v read
    change ((update s.pcs t (.signalLoad all)) u).seen? = some v at read
    by_cases isSelf : u = t
    · rw [isSelf, update_self] at read
      cases read
    · rw [update_of_ne isSelf] at read
      obtain ⟨isSeen, before⟩ := sound.seen u v read
      exact ⟨isSeen, Nat.le_succ_of_le before⟩
  · intro u waiting
    exact sound.fresh u (waits u waiting).2
  · intro u v waitingU waitingV
    exact sound.distinct u v (waits u waitingU).2 (waits v waitingV).2
  · intro u signals some
    change ((update s.pcs t (.signalLoad all)) u).signals = true at signals
    change ((update s.found t { i | s.IsWaiting i }) u).Nonempty at some
    change Monitor.InHand _ ((update s.found t { i | s.IsWaiting i }) u)
    by_cases isSelf : u = t
    · rw [isSelf, update_self] at some ⊢
      obtain ⟨i, w, isWait, parked | ⟨seen, place⟩⟩ := some
      · obtain ⟨first, isFirst⟩ := Option.isSome_iff_exists.mp (List.isSome_head?.mpr (List.ne_nil_of_mem parked))
        exact Or.inr ⟨first, isFirst, first, rfl, Or.inl (List.mem_of_head? isFirst)⟩
      · refine Or.inl ⟨i, ⟨w, isWait, Or.inr ⟨seen, place⟩⟩, ?_⟩
        have reads : (s.pcs w).waits = true ∧ s.pcs w ≠ .condSleep ∧ (s.pcs w).seen? = Option.some seen := by
          rcases place with place | place <;> rw [place] <;> exact ⟨rfl, by simp, rfl⟩
        refine ⟨isWait ▸ sound.fresh w reads.1, fun v same waiting => ?_⟩
        have isW : v = w := sound.distinct v w (waits v waiting).2 reads.1 (same.trans isWait.symm)
        rw [isW]
        exact ⟨sound.not_waiting reads.2.1, fun _ => Nat.lt_succ_of_le (sound.seen w seen reads.2.2).2⟩
    · rw [update_of_ne isSelf] at signals some ⊢
      exact (sound.inHand u signals some).mono roused fun first isFirst => ⟨isFirst, rfl⟩
  · intro found member some
    obtain ⟨i, isWait, rouses⟩ := sound.past found member some
    exact ⟨i, isWait, roused i rouses⟩

theorem CondSound.finish (sound : CondSound s) (signals : (s.pcs t).signals = true)
    (roused : (s.found t).Nonempty → ∃ i ∈ s.found t, s.Roused i) :
    CondSound ({ s with signalled := s.found t :: s.signalled }.goto t .idle) := by
  have listed : CondSound { s with signalled := s.found t :: s.signalled } :=
    { sound with
      past := by
        intro found member some
        rcases List.mem_cons.mp member with same | member
        · rw [same] at some ⊢
          exact roused some
        · exact sound.past found member some }
  have awake : t ∉ s.waiting := by
    refine sound.not_waiting fun wrong => ?_
    rw [wrong] at signals
    cases signals
  refine listed.moved awake (.away rfl rfl rfl) ?_
  cases here : s.pcs t <;> rw [here] at signals <;> first | rfl | cases signals

theorem wakeAll_pos (all : Bool) : 0 < if all then wakeAll else 1 := by
  cases all
  · exact Nat.one_pos
  · simp [wakeAll]

omit [DecidableEq T] in
theorem first_dropped {parked : List T} {n : Nat} (nodup : parked.Nodup) (some : 0 < n)
    (isFirst : parked.head? = Option.some t) : t ∉ parked.drop n := by
  cases parked with
  | nil => cases isFirst
  | cons head rest =>
    obtain ⟨m, rfl⟩ := Nat.exists_eq_succ_of_ne_zero (Nat.ne_of_gt some)
    rw [List.drop_succ_cons, ← Option.some.inj isFirst]
    exact fun member => (List.nodup_cons.mp nodup).1 (List.mem_of_mem_drop member)

theorem CondSound.wakeFirst {n : Nat} (sound : CondSound s) (signals : (s.pcs t).signals = true)
    (some : 0 < n) :
    CondSound ({ s with waiting := s.waiting.drop n, signalled := s.found t :: s.signalled }.goto t .idle) := by
  have part : (s.waiting.drop n).Sublist s.waiting := List.drop_sublist n s.waiting
  have woken : CondSound { s with waiting := s.waiting.drop n } :=
    sound.unpark part fun first isFirst => Or.inr (first_dropped sound.once some isFirst)
  refine woken.finish signals fun found => ?_
  rcases sound.inHand t signals found with ⟨i, isWait, rouses⟩ | ⟨first, isFirst, isWait⟩
  · exact ⟨i, isWait, rouses.unpark part⟩
  · exact ⟨s.waitId first, isWait,
      sound.roused (List.mem_of_head? isFirst) (first_dropped sound.once some isFirst)⟩

theorem CondSound.wakeNobody (sound : CondSound s) (signals : (s.pcs t).signals = true)
    (none : ¬ 0 < s.waiters) :
    CondSound ({ s with signalled := s.found t :: s.signalled }.goto t .idle) := by
  refine sound.finish signals fun found => ?_
  rcases sound.inHand t signals found with roused | ⟨first, isFirst, -⟩
  · exact roused
  · have counted : first ∈ s.counted := by
      rw [sound.counted first, sound.asleep first (List.mem_of_head? isFirst)]
      rfl
    rw [sound.waiters] at none
    exact absurd (List.length_pos_of_mem counted) none

theorem CondSound.enter (sound : CondSound s) (waits : pc.waits = false) (seen : pc.seen? = none)
    (counted : pc.counted = false) (signals : pc.signals = false) : CondSound (s.enter t pc) := by
  unfold Monitor.enter
  split
  · next idle =>
    exact sound.moved (sound.not_waiting (by rw [idle]; simp)) (.away waits seen signals) (by rw [idle, counted]; rfl)
  · exact sound

theorem CondSound.outside (sound : CondSound s) (awake : s.pcs t ≠ .condSleep)
    (before : (s.pcs t).counted = false) (waits : pc.waits = false) (seen : pc.seen? = none)
    (counted : pc.counted = false) (signals : pc.signals = false) : CondSound (s.goto t pc) :=
  sound.moved (sound.not_waiting awake) (.away waits seen signals) (by rw [before, counted])

theorem spinNext_away (i : Nat) : (spinNext i).waits = false ∧ (spinNext i).seen? = none ∧
    (spinNext i).counted = false ∧ (spinNext i).signals = false := by
  unfold spinNext
  split <;> exact ⟨rfl, rfl, rfl, rfl⟩

theorem CondSound.acquire {word : Nat} (sound : CondSound s) (awake : s.pcs t ≠ .condSleep)
    (before : (s.pcs t).counted = false) : CondSound (s.acquire t word) :=
  @CondSound.outside _ _ _ _ .idle sound.mutex awake before rfl rfl rfl rfl

theorem CondSound.inside {seen : Nat} (sound : CondSound s)
    (at_unlock : s.pcs t = .condUnlock seen ∨ s.pcs t = .condWake seen)
    (next : pc = .condWake seen ∨ pc = .condFutex seen) : CondSound (s.goto t pc) := by
  have before : (s.pcs t).waits = true ∧ s.pcs t ≠ .condSleep ∧ (s.pcs t).seen? = some seen ∧
    (s.pcs t).counted = true := by
    rcases at_unlock with here | here <;> rw [here] <;> exact ⟨rfl, by simp, rfl, rfl⟩
  have after : pc.seen? = some seen ∧ pc.counted = true ∧ pc.signals = false := by
    rcases next with rfl | rfl <;> exact ⟨rfl, rfl, rfl⟩
  refine sound.moved (sound.not_waiting before.2.1) ⟨fun _ => ⟨before.1, before.2.1⟩, ?_, ?_⟩ ?_
  · intro v read
    rw [after.1] at read
    rw [before.2.2.1, read]
  · intro wrong
    rw [after.2.2] at wrong
    cases wrong
  · rw [after.2.1, before.2.2.2]

theorem CondSound.go [Fintype T] {late : Bool} (sound : CondSound s)
    (few : Fintype.card T ≤ wakeAll) (soon : inTime s (.go t late)) :
    CondSound (syncGo s t late) := by
  unfold syncGo
  split <;> rename_i here
  · exact sound
  · split
    · exact sound.acquire (by rw [here]; simp) (by rw [here]; rfl)
    · exact sound.outside (by rw [here]; simp) (by rw [here]; rfl) rfl rfl rfl rfl
  · split
    · exact sound.outside (by rw [here]; simp) (by rw [here]; rfl) rfl rfl rfl rfl
    · obtain ⟨waits, seen, counted, signals⟩ := spinNext_away _
      exact sound.outside (by rw [here]; simp) (by rw [here]; rfl) waits seen counted signals
  · split
    · exact sound.acquire (by rw [here]; simp) (by rw [here]; rfl)
    · obtain ⟨waits, seen, counted, signals⟩ := spinNext_away _
      exact sound.outside (by rw [here]; simp) (by rw [here]; rfl) waits seen counted signals
  · split
    · exact sound.acquire (by rw [here]; simp) (by rw [here]; rfl)
    · exact sound.outside (by rw [here]; simp) (by rw [here]; rfl) rfl rfl rfl rfl
  · split
    · exact sound.acquire (by rw [here]; simp) (by rw [here]; rfl)
    · exact sound.outside (by rw [here]; simp) (by rw [here]; rfl) rfl rfl rfl rfl
  · rename_i timed
    split
    · exact sound.acquire (by rw [here]; simp) (by rw [here]; rfl)
    · refine CondSound.outside sound.mutex (by rw [here]; simp) (by rw [here]; rfl) ?_ ?_ ?_ ?_ <;> cases timed <;> rfl
  · refine sound.outside (by rw [here]; simp) (by rw [here]; rfl) ?_ ?_ ?_ ?_ <;> cases late <;> rfl
  · split
    · exact CondSound.outside sound.mutex (by rw [here]; simp) (by rw [here]; rfl) rfl rfl rfl rfl
    · exact sound.outside (by rw [here]; simp) (by rw [here]; rfl) rfl rfl rfl rfl
  · split
    · exact sound
    · exact sound.outside (by rw [here]; simp) (by rw [here]; rfl) rfl rfl rfl rfl
  · refine CondSound.outside sound.mutex (by rw [here]; simp) (by rw [here]; rfl) ?_ ?_ ?_ ?_ <;> split <;> rfl
  · exact CondSound.outside sound.mutex (by rw [here]; simp) (by rw [here]; rfl) rfl rfl rfl rfl
  · exact sound.begin here
  · exact sound.count few here
  · refine CondSound.inside sound.mutex (Or.inl here) ?_
    split
    · exact Or.inl rfl
    · exact Or.inr rfl
  · exact CondSound.inside sound.mutex (Or.inr here) (Or.inr rfl)
  · rename_i seen
    split
    · next same => exact sound.park here same (soon seen here)
    · refine sound.moved (sound.not_waiting (by rw [here]; simp)) (.away rfl rfl rfl) ?_
      rw [here]
      rfl
  · split
    · exact sound
    · next awake =>
      refine sound.moved awake (.away rfl rfl rfl) ?_
      rw [here]
      rfl
  · exact sound.uncount few here
  · exact sound.signal here
  · split
    · refine sound.moved (sound.not_waiting (by rw [here]; simp)) ⟨?_, ?_, ?_⟩ ?_
      · intro wrong
        cases wrong
      · intro v wrong
        cases wrong
      · intro _
        rw [here]
        rfl
      · rw [here]
        rfl
    · next none => exact sound.wakeNobody (by rw [here]; rfl) none
  · rename_i all
    exact sound.wakeFirst (by rw [here]; rfl) (wakeAll_pos all)

theorem CondSound.step [Fintype T] {label : SyncStep T} (sound : CondSound s)
    (few : Fintype.card T ≤ wakeAll) (soon : inTime s label) : CondSound (syncStep s label) := by
  cases label with
  | lock t => exact sound.enter rfl rfl rfl rfl
  | trylock t => exact sound.enter rfl rfl rfl rfl
  | timedlock t => exact sound.enter rfl rfl rfl rfl
  | unlock t =>
    dsimp only [syncStep]
    split
    · exact sound.enter rfl rfl rfl rfl
    · exact sound
  | condWait t =>
    dsimp only [syncStep]
    split
    · exact sound.enter rfl rfl rfl rfl
    · exact sound
  | signal t all => exact sound.enter rfl rfl rfl rfl
  | go t late => exact sound.go few soon
  | leave t => exact CondSound.mutex sound.leave

omit [DecidableEq T] in
theorem CondSound.init : CondSound (syncInit : Monitor T) where
  seq := rfl
  waiters := rfl
  countedOnce := List.nodup_nil
  counted := fun u => ⟨fun member => (List.not_mem_nil member).elim, fun counts => by cases counts⟩
  asleep := fun u parked => by cases parked
  once := List.nodup_nil
  seen := fun u v read => by cases read
  fresh := fun u waiting => by cases waiting
  distinct := fun u v waiting => by cases waiting
  inHand := fun u signals => by cases signals
  past := fun found member => by cases member

section

variable (T) [Fintype T]

/-- In every run at most one thread is between lock and unlock and nobody sleeps at a free mutex
that no one is about to look at.  A signal rouses one of the waits it finds, in every run in which
no waiter comes to its futex when the counter has come round. -/
theorem mutex_cond_ok (few : Fintype.card T ≤ wakeAll) :
    (∀ s : Monitor T, Reaches syncStep (fun _ _ => True) syncInit s → MutexOk s) ∧
    ∀ s : Monitor T, Reaches syncStep inTime syncInit s → MutexOk s ∧ SignalsOk s := by
  refine ⟨fun _ reached => mutexOk_of_reaches reached,
    fun _ reached => ⟨mutexOk_of_reaches reached, ?_⟩⟩
  exact CondSound.ok (reached.invariant CondSound.init fun _ label sound soon =>
    sound.step few soon)

end

theorem mutex_cond_ok_threads :
    (∀ s : Monitor (Fin 1024), Reaches syncStep (fun _ _ => True) syncInit s → MutexOk s) ∧
    ∀ s : Monitor (Fin 1024), Reaches syncStep inTime syncInit s → MutexOk s ∧ SignalsOk s :=
  mutex_cond_ok (Fin 1024) (by rw [Fintype.card_fin, wakeAll]; norm_num)

def signalRound : List (SyncStep (Fin 2)) :=
  [.signal 1 false, .go 1 false, .go 1 false, .go 1 false]

theorem signalRound_eq {s : Monitor (Fin 2)} (idle : s.pcs 1 = .idle) (waiters : s.waiters = 1)
    (nobody : s.waiting = []) : runSteps syncStep s signalRound =
      { s with
        seq := add32 s.seq 1
        adds := s.adds + 1
        pcs := update s.pcs 1 .idle
        found := update s.found 1 { i | (s.goto 1 (.signalAdd false)).IsWaiting i }
        signalled := { i | (s.goto 1 (.signalAdd false)).IsWaiting i } :: s.signalled } := by
  simp [signalRound, runSteps, syncStep, Monitor.enter, idle, Monitor.goto, syncGo, waiters, nobody]

theorem signals_before_futex (n : Nat) :
    ∃ s : Monitor (Fin 2), Reaches syncStep (fun _ _ => True) syncInit s ∧
    s.pcs 0 = .condFutex 0 ∧ s.pcs 1 = .idle ∧ s.waiting = [] ∧ s.seq = n % 2 ^ 32 ∧ s.waitId 0 =
      0 ∧ s.waiters = 1 ∧ (0 < n → ∃ waits ∈ s.signalled, waits.Nonempty ∧ ∀ i ∈ waits, i = 0) := by
  induction n with
  | zero =>
    refine ⟨runSteps syncStep syncInit
      [.lock 0, .go 0 false, .condWait 0, .go 0 false, .go 0 false, .go 0 false], ?_, rfl, rfl, rfl, rfl, rfl, rfl, ?_⟩
    · exact Reaches.refl.runSteps ⟨trivial, trivial, trivial, trivial, trivial, trivial, trivial⟩
    · intro wrong
      cases wrong
  | succ n ih =>
    obtain ⟨s, reached, waits, idle, nobody, isSeq, isId, waiters, -⟩ := ih
    have after := signalRound_eq idle waiters nobody
    refine ⟨runSteps syncStep s signalRound, reached.runSteps ⟨trivial, trivial, trivial, trivial, trivial⟩, ?_⟩
    rw [after]
    refine ⟨?_, ?_, nobody, ?_, isId, waiters, fun _ => ?_⟩
    · exact waits
    · change Function.update s.pcs 1 .idle 1 = _
      exact Function.update_self _ _ _
    · rw [add32, isSeq, Nat.mod_add_mod]
    · refine ⟨_, List.mem_cons_self, ⟨0, 0, isId, Or.inr ⟨0, Or.inr ?_⟩⟩, ?_⟩
      · exact waits
      · rintro i ⟨t, same, place⟩
        have waiter : t = 0 := by
          by_contra differ
          have signaller : t = 1 := by omega
          rw [signaller] at place
          rcases place with parked | ⟨seen, place⟩
          · change (1 : Fin 2) ∈ s.waiting at parked
            rw [nobody] at parked
            cases parked
          · rcases place with place | place <;> cases place
        rw [waiter] at same
        exact same.symm.trans isId

/-- After 2^32 signals the counter reads as before, and the waiter parks.  No signal has reached
it. -/
theorem seq_comes_round : ¬ ∀ s : Monitor (Fin 2), Reaches syncStep (fun _ _ => True) syncInit s →
    SignalsOk s := by
  intro claim
  obtain ⟨s, reached, waits, -, nobody, isSeq, isId, -, found⟩ := signals_before_futex (2 ^ 32)
  obtain ⟨missed, member, some, only⟩ := found (Nat.two_pow_pos 32)
  have parks : syncStep s (.go 0 false) =
    { s with waiting := s.waiting ++ [0] }.goto 0 .condSleep := by
    dsimp only [syncStep, syncGo]
    rw [waits]
    exact if_pos (isSeq.trans (Nat.mod_self _))
  have after := claim _ (@Reaches.next _ _ _ _ _ _ (.go 0 false) reached trivial)
  rw [parks] at after
  obtain ⟨i, isWait, none⟩ := after missed member some
  refine none 0 ?_ (isId.trans (only i isWait).symm)
  rw [nobody]
  exact List.mem_singleton_self 0

end Cos.Runtime
