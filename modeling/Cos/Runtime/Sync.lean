import Cos.Runtime.RwLock

/-! # Semaphore and one-time initialisation

`cos_sem_*` and `cos_once` of `cos_sync.c` in the same steps as the reader/writer lock, and what the
three promise.
-/

namespace Cos.Runtime

open Cos.Lib
open Function (update update_of_ne update_self)

variable {T : Type} [DecidableEq T]

inductive SemCall
  | trywait
  | wait
  | timedwait
deriving DecidableEq

inductive SemPc
  | idle
  | load (call : SemCall)
  | cas (call : SemCall) (v : Nat)
  | clock
  | futex (call : SemCall)
  | sleep (call : SemCall)
  | add
  | wake
deriving DecidableEq

def SemCall.missed : SemCall → SemPc
  | .trywait => .idle
  | .wait => .futex .wait
  | .timedwait => .clock

structure Sem (T : Type) where
  count : Nat
  parked : List T
  pcs : T → SemPc
  /-- Permits put in, the first value among them. -/
  posted : Nat
  taken : Nat
  /-- Posts that have not woken anybody yet, and threads a post woke that have not looked yet. -/
  due : List T

inductive SemStep (T : Type)
  | call (t : T) (call : SemCall)
  | post (t : T)
  /-- The clock says that the deadline has passed, where it is read. -/
  | go (t : T) (late : Bool)
  | leave (t : T)
deriving DecidableEq

section

variable (s : Sem T) (t : T)

def Sem.goto (pc : SemPc) : Sem T := { s with pcs := update s.pcs t pc }

def Sem.enter (pc : SemPc) : Sem T := if s.pcs t = .idle then s.goto t pc else s

/-- The loop of `cos_sem_trywait` sees the count. -/
def Sem.look (call : SemCall) : Sem T :=
  if s.count = 0 then { s with due := s.due.erase t }.goto t call.missed
    else s.goto t (.cas call s.count)

def semGo (late : Bool) : Sem T :=
  match s.pcs t with
  | .idle => s
  | .load call => s.look t call
  | .cas call v =>
      if s.count = v then { s with count := v - 1, taken := s.taken + 1, due := s.due.erase t }.goto t .idle
      else s.look t call
  | .clock => s.goto t (if late then .idle else .futex .timedwait)
  | .futex call =>
      if s.count = 0 then { s with parked := s.parked ++ [t] }.goto t (.sleep call) else s.goto t (.load call)
  | .sleep call => if t ∈ s.parked then s else s.goto t (.load call)
  -- cos_sem_post
  | .add => { s with count := add32 s.count 1, posted := s.posted + 1, due := t :: s.due }.goto t .wake
  | .wake => { s with parked := s.parked.drop 1, due := s.parked.take 1 ++ s.due.erase t }.goto t .idle

end

def semStep (s : Sem T) : SemStep T → Sem T
  | .call t call => s.enter t (.load call)
  | .post t => s.enter t .add
  | .go t late => semGo s t late
  | .leave t => { s with parked := s.parked.erase t }

def semInit (value : Nat) : Sem T := ⟨value, [], fun _ => .idle, value, 0, []⟩

/-- The thread wakes somebody, or looks at the count before it parks again. -/
def SemPc.acts : SemPc → Bool
  | .wake | .sleep _ | .load _ | .cas _ _ => true
  | _ => false

def SemPc.sane : SemPc → Prop
  | .cas _ v => 0 < v
  | _ => True

structure SemOk (s : Sem T) : Prop where
  permits : s.taken ≤ s.posted
  /-- Nobody sleeps beside a permit. -/
  awake : s.parked ≠ [] → 0 < s.count → ∃ t ∈ s.due, t ∉ s.parked ∧ (s.pcs t).acts = true

structure SemSound (s : Sem T) : Prop where
  permits : s.count + s.taken ≤ s.posted
  sane : ∀ t, (s.pcs t).sane
  asleep : ∀ t ∈ s.parked, ∃ call, s.pcs t = .sleep call
  once : s.parked.Nodup
  dueOnce : s.due.Nodup
  due : ∀ t ∈ s.due, t ∉ s.parked ∧ (s.pcs t).acts = true
  enough : s.parked ≠ [] → s.count ≤ s.due.length

variable {s : Sem T} {t u : T} {spc : SemPc} {call : SemCall}

omit [DecidableEq T] in
theorem SemSound.ok (sound : SemSound s) : SemOk s where
  permits := (Nat.le_add_left _ _).trans sound.permits
  awake := by
    intro parked permit
    obtain ⟨t, due⟩ := List.exists_mem_of_length_pos (permit.trans_le (sound.enough parked))
    exact ⟨t, due, sound.due t due⟩

omit [DecidableEq T] in
theorem SemSound.not_parked (sound : SemSound s) (awake : ∀ call, s.pcs t ≠ .sleep call) :
    t ∉ s.parked := by
  intro parked
  obtain ⟨call, asleep⟩ := sound.asleep t parked
  exact awake call asleep

omit [DecidableEq T] in
theorem SemSound.not_due (sound : SemSound s) (passive : (s.pcs t).acts = false) : t ∉ s.due := by
  intro due
  rw [(sound.due t due).2] at passive
  cases passive

theorem semGoto_self : (s.goto t spc).pcs t = spc := update_self _ _ _

theorem semGoto_other (differ : u ≠ t) : (s.goto t spc).pcs u = s.pcs u := update_of_ne differ _ _

theorem SemSound.moved (sound : SemSound s) (awake : t ∉ s.parked)
    (acts : t ∈ s.due → spc.acts = true) (sane : spc.sane) : SemSound (s.goto t spc) :=
  { sound with
    sane := by
      intro u
      by_cases same : u = t
      · rw [same, semGoto_self]
        exact sane
      · rw [semGoto_other same]
        exact sound.sane u
    asleep := by
      intro u parked
      have differ : u ≠ t := by
        rintro rfl
        exact awake parked
      rw [semGoto_other differ]
      exact sound.asleep u parked
    due := by
      intro u due
      refine ⟨(sound.due u due).1, ?_⟩
      by_cases same : u = t
      · rw [same] at due ⊢
        rw [semGoto_self]
        exact acts due
      · rw [semGoto_other same]
        exact (sound.due u due).2 }

theorem SemSound.forget (sound : SemSound s) (none : s.count = 0) :
    SemSound { s with due := s.due.erase t } :=
  { sound with
    dueOnce := sound.dueOnce.erase t
    due := fun u due => sound.due u (List.mem_of_mem_erase due)
    enough := fun _ => none ▸ Nat.zero_le _ }

theorem SemSound.look (sound : SemSound s) (awake : t ∉ s.parked) : SemSound (s.look t call) := by
  unfold Sem.look
  split
  · next none =>
    refine (sound.forget none).moved awake (fun due => ?_) (by cases call <;> trivial)
    exact absurd due sound.dueOnce.not_mem_erase
  · next some => exact sound.moved awake (fun _ => rfl) (Nat.pos_of_ne_zero some)

theorem SemSound.take (sound : SemSound s) (awake : t ∉ s.parked) (permit : 0 < s.count) :
    SemSound ({ s with count := s.count - 1, taken := s.taken + 1, due := s.due.erase t }.goto t .idle) := by
  refine SemSound.moved ?_ awake (fun due => absurd due sound.dueOnce.not_mem_erase) trivial
  refine { sound with permits := ?_, dueOnce := sound.dueOnce.erase t, due := ?_, enough := ?_ }
  · have permits := sound.permits
    change s.count - 1 + (s.taken + 1) ≤ s.posted
    omega
  · intro u due
    exact sound.due u (List.mem_of_mem_erase due)
  · intro parked
    have enough := sound.enough parked
    have shorter : s.due.length - 1 ≤ (s.due.erase t).length := by
      rw [List.length_erase]
      split <;> omega
    change s.count - 1 ≤ (s.due.erase t).length
    omega

theorem SemSound.park (sound : SemSound s) (awake : t ∉ s.parked) (none : s.count = 0)
    (passive : t ∉ s.due) :
    SemSound ({ s with parked := s.parked ++ [t] }.goto t (.sleep call)) := by
  have moved : SemSound (s.goto t (.sleep call)) := sound.moved awake (fun _ => rfl) trivial
  refine { moved with asleep := ?_, once := ?_, due := ?_, enough := fun _ => none ▸ Nat.zero_le _ }
  · intro u parked
    rcases List.mem_append.mp parked with parked | self
    · exact moved.asleep u parked
    · rw [List.mem_singleton.mp self]
      exact ⟨call, semGoto_self⟩
  · refine List.nodup_append.mpr ⟨sound.once, List.nodup_singleton t, ?_⟩
    rintro u parked v self rfl
    exact awake (List.mem_singleton.mp self ▸ parked)
  · intro u due
    refine ⟨fun parked => ?_, (moved.due u due).2⟩
    rcases List.mem_append.mp parked with parked | self
    · exact (moved.due u due).1 parked
    · exact passive (List.mem_singleton.mp self ▸ due)

theorem SemSound.added (sound : SemSound s) (awake : t ∉ s.parked) (passive : t ∉ s.due) :
    SemSound ({ s with count := add32 s.count 1, posted := s.posted + 1, due := t :: s.due }.goto t .wake) := by
  have moved : SemSound (s.goto t .wake) := sound.moved awake (fun _ => rfl) trivial
  have atMost : add32 s.count 1 ≤ s.count + 1 := Nat.mod_le _ _
  refine { moved with permits := ?_, dueOnce := List.nodup_cons.mpr ⟨passive, sound.dueOnce⟩, due := ?_, enough := ?_ }
  · have permits := sound.permits
    change add32 s.count 1 + s.taken ≤ s.posted + 1
    omega
  · intro u due
    rcases List.mem_cons.mp due with rfl | due
    · exact ⟨awake, congrArg SemPc.acts semGoto_self⟩
    · exact moved.due u due
  · intro parked
    have enough := sound.enough parked
    change add32 s.count 1 ≤ s.due.length + 1
    omega

theorem SemSound.woke (sound : SemSound s) (awake : t ∉ s.parked) :
    SemSound ({ s with parked := s.parked.drop 1, due := s.parked.take 1 ++ s.due.erase t }.goto t .idle) := by
  cases isParked : s.parked with
  | nil =>
    have empty : SemSound { s with parked := [], due := s.due.erase t } :=
      { sound with
        asleep := fun u parked => by cases parked
        once := List.nodup_nil
        dueOnce := sound.dueOnce.erase t
        due := fun u due => ⟨List.not_mem_nil, (sound.due u (List.mem_of_mem_erase due)).2⟩
        enough := fun parked => absurd rfl parked }
    exact empty.moved List.not_mem_nil (fun due => absurd due sound.dueOnce.not_mem_erase) trivial
  | cons u rest =>
    have member : u ∈ s.parked := by rw [isParked]; exact List.mem_cons_self
    have differ : u ≠ t := by
      rintro rfl
      exact awake member
    have fresh : u ∉ s.due := fun due => (sound.due u due).1 member
    have nodup := sound.once
    rw [isParked, List.nodup_cons] at nodup
    refine SemSound.moved ?_ ?_ ?_ trivial
    · refine { sound with asleep := ?_, once := nodup.2, dueOnce := ?_, due := ?_, enough := ?_ }
      · intro v parked
        exact sound.asleep v (by rw [isParked]; exact List.mem_cons_of_mem u parked)
      · exact List.nodup_cons.mpr ⟨fun due => fresh (List.mem_of_mem_erase due), sound.dueOnce.erase t⟩
      · intro v due
        rcases List.mem_cons.mp due with rfl | due
        · obtain ⟨call, asleep⟩ := sound.asleep v member
          exact ⟨nodup.1, congrArg SemPc.acts asleep⟩
        · have before := sound.due v (List.mem_of_mem_erase due)
          rw [isParked] at before
          exact ⟨fun parked => before.1 (List.mem_cons_of_mem u parked), before.2⟩
      · intro _
        have enough := sound.enough (List.ne_nil_of_mem member)
        have shorter : s.due.length - 1 ≤ (s.due.erase t).length := by
          rw [List.length_erase]
          split <;> omega
        change s.count ≤ (s.due.erase t).length + 1
        omega
    · intro parked
      exact awake (by rw [isParked]; exact List.mem_cons_of_mem u parked)
    · intro due
      rcases List.mem_cons.mp due with same | due
      · exact absurd same.symm differ
      · exact absurd due sound.dueOnce.not_mem_erase

theorem SemSound.go (sound : SemSound s) (late : Bool) : SemSound (semGo s t late) := by
  have sane := sound.sane t
  unfold semGo
  split <;> rename_i here <;> rw [here] at sane
  · exact sound
  · exact sound.look (sound.not_parked (by rw [here]; simp))
  · have awake : t ∉ s.parked := sound.not_parked (by rw [here]; simp)
    split
    · next same =>
      rw [← same] at sane ⊢
      exact sound.take awake sane
    · exact sound.look awake
  · have passive : t ∉ s.due := sound.not_due (by rw [here]; rfl)
    refine sound.moved (sound.not_parked (by rw [here]; simp)) (fun due => absurd due passive) ?_
    cases late <;> trivial
  · have awake : t ∉ s.parked := sound.not_parked (by rw [here]; simp)
    split
    · next none => exact sound.park awake none (sound.not_due (by rw [here]; rfl))
    · exact sound.moved awake (fun _ => rfl) trivial
  · split
    · exact sound
    · next awake => exact sound.moved awake (fun _ => rfl) trivial
  · exact sound.added (sound.not_parked (by rw [here]; simp)) (sound.not_due (by rw [here]; rfl))
  · exact sound.woke (sound.not_parked (by rw [here]; simp))

theorem SemSound.enter (sound : SemSound s) (sane : spc.sane) : SemSound (s.enter t spc) := by
  unfold Sem.enter
  split
  · next idle =>
    have passive : t ∉ s.due := sound.not_due (by rw [idle]; rfl)
    exact sound.moved (sound.not_parked (by rw [idle]; simp)) (fun due => absurd due passive) sane
  · exact sound

theorem SemSound.leave (sound : SemSound s) : SemSound { s with parked := s.parked.erase t } :=
  { sound with
    asleep := fun u parked => sound.asleep u (List.mem_of_mem_erase parked)
    once := sound.once.erase t
    due := fun u due => ⟨fun parked => (sound.due u due).1 (List.mem_of_mem_erase parked), (sound.due u due).2⟩
    enough := fun parked => sound.enough fun none => parked (by rw [none]; rfl) }

theorem SemSound.step (sound : SemSound s) (label : SemStep T) : SemSound (semStep s label) := by
  cases label with
  | call t call => exact sound.enter trivial
  | post t => exact sound.enter trivial
  | go t late => exact sound.go late
  | leave t => exact sound.leave

omit [DecidableEq T] in
theorem SemSound.init (value : Nat) : SemSound (semInit value : Sem T) where
  permits := Nat.le_refl _
  sane := fun _ => trivial
  asleep := fun u parked => by cases parked
  once := List.nodup_nil
  dueOnce := List.nodup_nil
  due := fun u due => by cases due
  enough := fun parked => absurd rfl parked

theorem semOk_of_reaches {value : Nat}
    (reached : Reaches semStep (fun _ _ => True) (semInit value) s) : SemOk s :=
  SemSound.ok (reached.invariant (SemSound.init value) fun _ label sound _ => sound.step label)

inductive OncePc
  | idle
  | first
  | cas
  | running
  | store
  | wake
  | again
  | futex
  | sleep
deriving DecidableEq

structure Once (T : Type) where
  word : Nat
  parked : List T
  pcs : T → OncePc
  starts : Nat
  finishes : Nat
  returned : List T

inductive OnceStep (T : Type)
  | call (t : T)
  | go (t : T)
  | leave (t : T)
deriving DecidableEq

section

variable (o : Once T) (t : T)

def Once.goto (pc : OncePc) : Once T := { o with pcs := update o.pcs t pc }

def Once.return : Once T := { o with returned := t :: o.returned }.goto t .idle

def onceGo : Once T :=
  match o.pcs t with
  | .idle => o
  | .first => if o.word = 2 then o.return t else o.goto t .cas
  | .cas =>
      if o.word = 0 then { o with word := 1, starts := o.starts + 1 }.goto t .running else o.goto t .again
  | .running => { o with finishes := o.finishes + 1 }.goto t .store
  | .store => { o with word := 2 }.goto t .wake
  | .wake => { o with parked := o.parked.drop wakeAll }.return t
  | .again => if o.word = 2 then o.return t else o.goto t .futex
  | .futex => if o.word = 1 then { o with parked := o.parked ++ [t] }.goto t .sleep else o.goto t .again
  | .sleep => if t ∈ o.parked then o else o.goto t .again

end

def onceStep (o : Once T) : OnceStep T → Once T
  | .call t => if o.pcs t = .idle then o.goto t .first else o
  | .go t => onceGo o t
  | .leave t => { o with parked := o.parked.erase t }

def onceInit : Once T := ⟨0, [], fun _ => .idle, 0, 0, []⟩

structure OnceOk (o : Once T) : Prop where
  once : o.starts ≤ 1
  /-- Whoever is back comes after the one run. -/
  finished : o.returned ≠ [] → o.starts = 1 ∧ o.finishes = 1

def OncePc.runs : OncePc → Bool
  | .running | .store => true
  | _ => false

inductive OnceSound (o : Once T) : Prop
  | fresh (word : o.word = 0) (starts : o.starts = 0) (finishes : o.finishes = 0)
      (returned : o.returned = []) (nobody : ∀ t, (o.pcs t).runs = false ∧ o.pcs t ≠ .wake)
  | inside (t : T) (word : o.word = 1) (starts : o.starts = 1) (returned : o.returned = [])
      (runner : (o.pcs t = .running ∧ o.finishes = 0) ∨ (o.pcs t = .store ∧ o.finishes = 1))
      (others : ∀ u, u ≠ t → (o.pcs u).runs = false ∧ o.pcs u ≠ .wake)
  | done (word : o.word = 2) (starts : o.starts = 1) (finishes : o.finishes = 1)
    (nobody : ∀ t, (o.pcs t).runs = false)

variable {o : Once T} {opc : OncePc}

omit [DecidableEq T] in
theorem OnceSound.ok (sound : OnceSound o) : OnceOk o := by
  cases sound with
  | fresh word starts finishes returned nobody =>
    exact ⟨starts ▸ Nat.zero_le 1, fun back => absurd returned back⟩
  | inside t word starts returned runner others =>
    exact ⟨Nat.le_of_eq starts, fun back => absurd returned back⟩
  | done word starts finishes nobody => exact ⟨Nat.le_of_eq starts, fun _ => ⟨starts, finishes⟩⟩

theorem onceGoto_self : (o.goto t opc).pcs t = opc := update_self _ _ _

theorem onceGoto_other (differ : u ≠ t) : (o.goto t opc).pcs u = o.pcs u := update_of_ne differ _ _

theorem onceGoto_all {holds : OncePc → Prop} (before : ∀ u, u ≠ t → holds (o.pcs u))
    (now : holds opc) : ∀ u, holds ((o.goto t opc).pcs u) := by
  intro u
  by_cases same : u = t
  · rw [same, onceGoto_self]
    exact now
  · rw [onceGoto_other same]
    exact before u same

theorem OnceSound.moved (sound : OnceSound o) (before : (o.pcs t).runs = false)
    (after : opc.runs = false ∧ opc ≠ .wake) : OnceSound (o.goto t opc) := by
  cases sound with
  | fresh word starts finishes returned nobody =>
    exact .fresh word starts finishes returned
      (@onceGoto_all T _ t o opc (fun pc => pc.runs = false ∧ pc ≠ .wake) (fun u _ => nobody u) after)
  | inside r word starts returned runner others =>
    have differ : r ≠ t := by
      rintro rfl
      rcases runner with ⟨here, -⟩ | ⟨here, -⟩ <;> rw [here] at before <;> cases before
    refine .inside r word starts returned ?_ ?_
    · rw [onceGoto_other differ]
      exact runner
    · intro u other
      by_cases same : u = t
      · rw [same, onceGoto_self]
        exact after
      · rw [onceGoto_other same]
        exact others u other
  | done word starts finishes nobody =>
    exact .done word starts finishes
      (@onceGoto_all T _ t o opc (fun pc => pc.runs = false) (fun u _ => nobody u) after.1)

theorem OnceSound.return (sound : OnceSound o) (past : o.word = 2) : OnceSound (o.return t) := by
  cases sound with
  | fresh word => rw [word] at past; cases past
  | inside r word => rw [word] at past; cases past
  | done word starts finishes nobody =>
    exact .done word starts finishes
      (@onceGoto_all T _ t _ .idle (fun pc => pc.runs = false) (fun u _ => nobody u) rfl)

omit [DecidableEq T] in
theorem OnceSound.parking {parked : List T} (sound : OnceSound o) :
    OnceSound { o with parked := parked } := by
  cases sound with
  | fresh word starts finishes returned nobody => exact .fresh word starts finishes returned nobody
  | inside r word starts returned runner others =>
    exact .inside r word starts returned runner others
  | done word starts finishes nobody => exact .done word starts finishes nobody

theorem OnceSound.claim (sound : OnceSound o) (free : o.word = 0) :
    OnceSound ({ o with word := 1, starts := o.starts + 1 }.goto t .running) := by
  cases sound with
  | fresh word starts finishes returned nobody =>
    refine .inside t rfl (congrArg Nat.succ starts) returned (Or.inl ⟨onceGoto_self, finishes⟩) ?_
    intro u other
    rw [onceGoto_other other]
    exact nobody u
  | inside r word => rw [word] at free; cases free
  | done word => rw [word] at free; cases free

theorem OnceSound.runner (sound : OnceSound o) (runs : (o.pcs t).runs = true) :
    o.word = 1 ∧ o.starts = 1 ∧ o.returned = [] ∧
      ((o.pcs t = .running ∧ o.finishes = 0) ∨ (o.pcs t = .store ∧ o.finishes = 1)) ∧
      ∀ u, u ≠ t → (o.pcs u).runs = false ∧ o.pcs u ≠ .wake := by
  cases sound with
  | fresh word starts finishes returned nobody =>
    rw [(nobody t).1] at runs
    cases runs
  | inside r word starts returned runner others =>
    by_cases same : t = r
    · rw [same]
      exact ⟨word, starts, returned, runner, others⟩
    · rw [(others t same).1] at runs
      cases runs
  | done word starts finishes nobody =>
    rw [nobody t] at runs
    cases runs

theorem OnceSound.finish (sound : OnceSound o) (here : o.pcs t = .running) :
    OnceSound ({ o with finishes := o.finishes + 1 }.goto t .store) := by
  obtain ⟨word, starts, returned, runner, others⟩ := sound.runner (by rw [here]; rfl)
  have finishes : o.finishes = 0 := by
    rcases runner with ⟨-, none⟩ | ⟨wrong, -⟩
    · exact none
    · rw [here] at wrong
      cases wrong
  refine .inside t word starts returned (Or.inr ⟨onceGoto_self, congrArg Nat.succ finishes⟩) ?_
  intro u other
  rw [onceGoto_other other]
  exact others u other

theorem OnceSound.publish (sound : OnceSound o) (here : o.pcs t = .store) :
    OnceSound ({ o with word := 2 }.goto t .wake) := by
  obtain ⟨word, starts, returned, runner, others⟩ := sound.runner (by rw [here]; rfl)
  have finishes : o.finishes = 1 := by
    rcases runner with ⟨wrong, -⟩ | ⟨-, one⟩
    · rw [here] at wrong
      cases wrong
    · exact one
  exact .done rfl starts finishes
    (@onceGoto_all T _ t _ .wake (fun pc => pc.runs = false) (fun u other => (others u other).1) rfl)

theorem OnceSound.past (sound : OnceSound o) (here : o.pcs t = .wake) : o.word = 2 := by
  cases sound with
  | fresh word starts finishes returned nobody => exact absurd here (nobody t).2
  | inside r word starts returned runner others =>
    by_cases same : t = r
    · rw [← same, here] at runner
      rcases runner with ⟨wrong, -⟩ | ⟨wrong, -⟩ <;> cases wrong
    · exact absurd here (others t same).2
  | done word => exact word

theorem OnceSound.go (sound : OnceSound o) : OnceSound (onceGo o t) := by
  unfold onceGo
  split <;> rename_i here
  · exact sound
  · split
    · next past => exact sound.return past
    · exact sound.moved (by rw [here]; rfl) ⟨rfl, by simp⟩
  · split
    · next free => exact sound.claim free
    · exact sound.moved (by rw [here]; rfl) ⟨rfl, by simp⟩
  · exact sound.finish here
  · exact sound.publish here
  · exact sound.parking.return (sound.past here)
  · split
    · next past => exact sound.return past
    · exact sound.moved (by rw [here]; rfl) ⟨rfl, by simp⟩
  · split
    · refine OnceSound.moved sound.parking ?_ ⟨rfl, by simp⟩
      exact congrArg OncePc.runs here
    · exact sound.moved (by rw [here]; rfl) ⟨rfl, by simp⟩
  · split
    · exact sound
    · exact sound.moved (by rw [here]; rfl) ⟨rfl, by simp⟩

theorem OnceSound.step (sound : OnceSound o) (label : OnceStep T) :
    OnceSound (onceStep o label) := by
  cases label with
  | call t =>
    dsimp only [onceStep]
    split
    · next idle => exact sound.moved (by rw [idle]; rfl) ⟨rfl, by simp⟩
    · exact sound
  | go t => exact sound.go
  | leave t => exact sound.parking

theorem onceOk_of_reaches (reached : Reaches onceStep (fun _ _ => True) onceInit o) : OnceOk o :=
  OnceSound.ok (reached.invariant (.fresh rfl rfl rfl rfl fun _ => ⟨rfl, by simp [onceInit]⟩)
    fun _ label sound _ => sound.step label)

section

variable (T) [Fintype T]

/-- In every run of each: the reader/writer lock lets in one writer alone or readers, counts them in
its word and leaves nobody asleep at a free lock; the semaphore hands out no more than it was given
and leaves nobody asleep beside a permit that no wake is due for; the function runs once and nobody
is back before its end. -/
theorem rwlock_sem_once_ok (few : Fintype.card T ≤ wakeAll) :
    (∀ l : RwLock T, Reaches rwStep rwRoom rwInit l → RwOk l) ∧
    (∀ (value : Nat) (s : Sem T), Reaches semStep (fun _ _ => True) (semInit value) s → SemOk s) ∧
    ∀ o : Once T, Reaches onceStep (fun _ _ => True) onceInit o → OnceOk o :=
  ⟨fun _ reached => rwOk_of_reaches few reached, fun _ _ reached => semOk_of_reaches reached,
    fun _ reached => onceOk_of_reaches reached⟩

end

/-- The thread table of the kernel. -/
theorem rwlock_sem_once_ok_threads :
    (∀ l : RwLock (Fin 1024), Reaches rwStep rwRoom rwInit l → RwOk l) ∧
    (∀ (value : Nat) (s : Sem (Fin 1024)), Reaches semStep (fun _ _ => True) (semInit value) s →
    SemOk s) ∧ ∀ o : Once (Fin 1024), Reaches onceStep (fun _ _ => True) onceInit o → OnceOk o :=
  rwlock_sem_once_ok (Fin 1024) (by rw [Fintype.card_fin, wakeAll]; norm_num)

end Cos.Runtime
