import Cos.Lib.Run
import Mathlib.Data.Fintype.Card
import Mathlib.Data.List.Nodup
import Mathlib.Logic.Function.Basic
import Mathlib.Tactic.NormNum

/-! # The reader/writer lock

`cos_rwlock_*` of `cos_sync.c`, one atomic step of one thread at a time.  The futex keeps the parked
threads in the order they came; a thread in its wait goes on once it is not parked any more.
-/

namespace Cos.Runtime

open Cos.Lib

def wakeAll : Nat := 0x7fffffff

def rwWriter : Nat := 2 ^ 30

def rwWaiting : Nat := 2 ^ 31

/-- `v & RW_WRITER`. -/
def hasWriter (v : Nat) : Bool := v / rwWriter % 2 = 1

def hasWaiting (v : Nat) : Bool := v / rwWaiting % 2 = 1

/-- `v & RW_READERS`. -/
def readersOf (v : Nat) : Nat := v % rwWriter

def add32 (v n : Nat) : Nat := (v + n) % 2 ^ 32

/-- `v | RW_WAITING`. -/
def orWaiting (v : Nat) : Nat := if hasWaiting v then v else v + rwWaiting

inductive RwPc
  | idle
  | rdLoad
  | rdCas (v : Nat)
  | rdWait (v : Nat)
  | rdSleep
  | tryRdLoad
  | tryRdCas (v : Nat)
  | wrLoad
  | wrCas
  | announce (v : Nat)
  | wrWait (v : Nat)
  | wrSleep
  | tryWrCas
  | unlockLoad
  | writerStore
  | readerSub
  | lastStore
  | wake
deriving DecidableEq

structure RwLock (T : Type) where
  word : Nat
  parked : List T
  pcs : T → RwPc
  /-- Who holds the lock, with each read lock of a thread. -/
  readers : List T
  writers : List T

inductive RwStep (T : Type)
  | rdlock (t : T)
  | tryrdlock (t : T)
  | wrlock (t : T)
  | trywrlock (t : T)
  /-- By a thread that holds the lock. -/
  | unlock (t : T)
  | go (t : T)
  /-- The futex returns early. -/
  | leave (t : T)
deriving DecidableEq

variable {T : Type} [DecidableEq T]

section

variable (l : RwLock T) (t : T)

def RwLock.goto (pc : RwPc) : RwLock T := { l with pcs := Function.update l.pcs t pc }

def RwLock.enter (pc : RwPc) : RwLock T := if l.pcs t = .idle then l.goto t pc else l

/-- `cos_futex_wait`: the thread parks when the word is still what it expects. -/
def RwLock.futexWait (expected : Nat) (sleep back : RwPc) : RwLock T :=
  if l.word = expected then { l with parked := l.parked ++ [t] }.goto t sleep else l.goto t back

def rwGo : RwLock T :=
  match l.pcs t with
  | .idle => l
  -- cos_rwlock_rdlock
  | .rdLoad => l.goto t (if hasWriter l.word || hasWaiting l.word then .rdWait l.word
    else .rdCas l.word)
  | .rdCas v =>
      if readersOf (add32 v 1) = 0 then l.goto t .idle
      else if l.word = v then { l with word := add32 v 1, readers := t :: l.readers }.goto t .idle
      else l.goto t .rdLoad
  | .rdWait v => l.futexWait t v .rdSleep .rdLoad
  | .rdSleep => if t ∈ l.parked then l else l.goto t .rdLoad
  -- cos_rwlock_tryrdlock
  | .tryRdLoad => l.goto t (if hasWriter l.word || hasWaiting l.word then .idle
    else .tryRdCas l.word)
  | .tryRdCas v =>
      if l.word = v then { l with word := add32 v 1, readers := t :: l.readers }.goto t .idle else l.goto t .idle
  -- cos_rwlock_wrlock
  | .wrLoad =>
      l.goto t (if l.word = 0 then .wrCas else if hasWaiting l.word then .wrWait l.word else .announce l.word)
  | .wrCas =>
      if l.word = 0 then { l with word := rwWriter, writers := t :: l.writers }.goto t .idle else l.goto t .wrLoad
  | .announce v =>
      if l.word = v then { l with word := orWaiting v }.goto t (.wrWait (orWaiting v)) else l.goto t .wrLoad
  | .wrWait v => l.futexWait t v .wrSleep .wrLoad
  | .wrSleep => if t ∈ l.parked then l else l.goto t .wrLoad
  -- cos_rwlock_trywrlock
  | .tryWrCas =>
      if l.word = 0 then { l with word := rwWriter, writers := t :: l.writers }.goto t .idle else l.goto t .idle
  -- cos_rwlock_unlock
  | .unlockLoad => l.goto t (if hasWriter l.word then .writerStore else .readerSub)
  | .writerStore => { l with word := 0, writers := l.writers.erase t }.goto t .wake
  | .readerSub =>
      { l with word := add32 l.word (2 ^ 32 - 1), readers := l.readers.erase t }.goto t
        (if readersOf l.word = 1 && hasWaiting l.word then .lastStore else .idle)
  | .lastStore => { l with word := 0 }.goto t .wake
  | .wake => { l with parked := l.parked.drop wakeAll }.goto t .idle

end

def rwStep (l : RwLock T) : RwStep T → RwLock T
  | .rdlock t => l.enter t .rdLoad
  | .tryrdlock t => l.enter t .tryRdLoad
  | .wrlock t => l.enter t .wrLoad
  | .trywrlock t => l.enter t .tryWrCas
  | .unlock t => if t ∈ l.readers ∨ t ∈ l.writers then l.enter t .unlockLoad else l
  | .go t => rwGo l t
  | .leave t => { l with parked := l.parked.erase t }

/-- `cos_rwlock_init`. -/
def rwInit : RwLock T := ⟨0, [], fun _ => .idle, [], []⟩

def RwPc.wakes : RwPc → Bool
  | .lastStore | .wake => true
  | _ => false

structure RwOk (l : RwLock T) : Prop where
  /-- One writer alone, or readers. -/
  exclusive : l.writers = [] ∨ (l.writers.length = 1 ∧ l.readers = [])
  encoded : l.word = l.readers.length + l.writers.length * rwWriter + if hasWaiting l.word
    then rwWaiting else 0
  decoded : readersOf l.word = l.readers.length ∧ (hasWriter l.word = true ↔ l.writers ≠ []) ∧
    l.word < 2 ^ 32
  /-- Nobody sleeps at a free lock. -/
  awake : l.readers = [] → l.writers = [] → (∀ t, (l.pcs t).wakes = false) → l.parked = []

def rwRoom (l : RwLock T) (_ : RwStep T) : Prop := l.readers.length < 2 ^ 30 - 1

instance (l : RwLock T) (label : RwStep T) : Decidable (rwRoom l label) :=
  inferInstanceAs (Decidable (_ < _))

variable {l : RwLock T} {t u : T} {pc : RwPc} {r n a : Nat}

def RwLock.PcOk (l : RwLock T) (t : T) : RwPc → Prop
  | .rdCas v | .tryRdCas v => hasWriter v = false ∧ hasWaiting v = false
  | .announce v => v ≠ 0 ∧ hasWaiting v = false
  | .rdWait v | .wrWait v => hasWriter v = true ∨ hasWaiting v = true
  | .unlockLoad => t ∈ l.readers ∨ t ∈ l.writers
  | .writerStore => t ∈ l.writers
  | .readerSub => t ∈ l.readers
  | .lastStore => l.readers = [] ∧ l.writers = [] ∧ l.word = rwWaiting
  | _ => True

structure RwSound (l : RwLock T) : Prop where
  word : ∃ waiting, waiting ≤ 1 ∧
    l.word = l.readers.length + l.writers.length * rwWriter + waiting * rwWaiting ∧
    (waiting = 1 → l.readers ≠ [] ∨ l.writers ≠ [] ∨ ∃ t, l.pcs t = .lastStore)
  exclusive : l.writers = [] ∨ (l.writers.length = 1 ∧ l.readers = [])
  few : l.readers.length < 2 ^ 30
  threads : ∀ t, l.PcOk t (l.pcs t)
  onlyLast : ∀ t u, l.pcs t = .lastStore → l.pcs u = .lastStore → t = u
  asleep : ∀ t ∈ l.parked, l.pcs t = .rdSleep ∨ l.pcs t = .wrSleep
  once : l.parked.Nodup
  woken : l.parked ≠ [] →
    (∃ t, (l.pcs t).wakes = true) ∨ l.writers ≠ [] ∨ (l.readers ≠ [] ∧ hasWaiting l.word = true)

theorem word_parts (small : r < 2 ^ 30) (one : n ≤ 1) (flag : a ≤ 1) :
    readersOf (r + n * rwWriter + a * rwWaiting) = r ∧ (hasWriter (r + n * rwWriter + a * rwWaiting) = true ↔ n = 1) ∧
      (hasWaiting (r + n * rwWriter + a * rwWaiting) = true ↔ a = 1) ∧ r + n * rwWriter + a * rwWaiting < 2 ^ 32 := by
  unfold readersOf hasWriter hasWaiting rwWriter rwWaiting
  rw [decide_eq_true_eq, decide_eq_true_eq]
  omega

theorem hasWaiting_waiting : hasWaiting rwWaiting = true := by
  simp [hasWaiting, rwWaiting]

omit [DecidableEq T] in
theorem RwSound.one_writer (sound : RwSound l) : l.writers.length ≤ 1 := by
  rcases sound.exclusive with none | ⟨one, -⟩
  · rw [none]
    exact Nat.zero_le _
  · exact Nat.le_of_eq one

omit [DecidableEq T] in
theorem RwSound.decode (sound : RwSound l) :
    readersOf l.word = l.readers.length ∧ (hasWriter l.word = true ↔ l.writers ≠ []) ∧
    l.word < 2 ^ 32 := by
  obtain ⟨a, flag, isWord, -⟩ := sound.word
  obtain ⟨isReaders, isWriter, -, bound⟩ := word_parts sound.few sound.one_writer flag
  rw [← isWord] at isReaders isWriter bound
  refine ⟨isReaders, isWriter.trans ?_, bound⟩
  have one := sound.one_writer
  rw [Ne, ← List.length_eq_zero_iff]
  omega

omit [DecidableEq T] in
theorem RwSound.encode (sound : RwSound l) :
    l.word = l.readers.length + l.writers.length * rwWriter + if hasWaiting l.word then rwWaiting
    else 0 := by
  obtain ⟨a, flag, isWord, -⟩ := sound.word
  obtain ⟨-, -, isWaiting, -⟩ := word_parts sound.few sound.one_writer flag
  rw [← isWord] at isWaiting
  by_cases set : hasWaiting l.word = true
  · rw [if_pos set, isWord, isWaiting.mp set, Nat.one_mul]
  · rw [if_neg set, isWord]
    have clear : a = 0 := by
      have unset := mt isWaiting.mpr set
      omega
    rw [clear, Nat.zero_mul]

omit [DecidableEq T] in
theorem RwSound.cause (sound : RwSound l) (set : hasWaiting l.word = true) :
    l.readers ≠ [] ∨ l.writers ≠ [] ∨ ∃ t, l.pcs t = .lastStore := by
  obtain ⟨a, flag, isWord, cause⟩ := sound.word
  obtain ⟨-, -, isWaiting, -⟩ := word_parts sound.few sound.one_writer flag
  rw [← isWord] at isWaiting
  exact cause (isWaiting.mp set)

omit [DecidableEq T] in
theorem RwSound.ok (sound : RwSound l) : RwOk l where
  exclusive := sound.exclusive
  encoded := sound.encode
  decoded := sound.decode
  awake := by
    intro noReaders noWriters calm
    by_contra parked
    rcases sound.woken parked with ⟨t, wakes⟩ | writers | ⟨readers, -⟩
    · rw [calm t] at wakes
      cases wakes
    · exact writers noWriters
    · exact readers noReaders

omit [DecidableEq T] in
theorem RwSound.not_parked (sound : RwSound l) (awake : l.pcs t ≠ .rdSleep ∧ l.pcs t ≠ .wrSleep) :
    t ∉ l.parked := by
  intro parked
  rcases sound.asleep t parked with same | same
  · exact awake.1 same
  · exact awake.2 same

omit [DecidableEq T] in
theorem RwLock.PcOk.of_same {other : RwLock T} (ok : l.PcOk t pc)
    (readers : t ∈ l.readers → t ∈ other.readers) (writers : t ∈ l.writers → t ∈ other.writers)
    (notLast : pc ≠ .lastStore) : other.PcOk t pc := by
  cases pc with
  | unlockLoad => exact Or.imp readers writers ok
  | writerStore => exact writers ok
  | readerSub => exact readers ok
  | lastStore => exact absurd rfl notLast
  | _ => exact ok

theorem goto_pcs_self : (l.goto t pc).pcs t = pc := Function.update_self _ _ _

theorem goto_pcs_other (differ : u ≠ t) : (l.goto t pc).pcs u = l.pcs u :=
  Function.update_of_ne differ _ _

theorem RwSound.moved (sound : RwSound l) (before : (l.pcs t).wakes = false) (awake : t ∉ l.parked)
    (ok : l.PcOk t pc) (after : pc ≠ .lastStore) : RwSound (l.goto t pc) where
  word := by
    obtain ⟨a, flag, isWord, cause⟩ := sound.word
    refine ⟨a, flag, isWord, fun set => (cause set).imp_right (Or.imp_right ?_)⟩
    rintro ⟨u, last⟩
    refine ⟨u, (goto_pcs_other ?_).trans last⟩
    rintro rfl
    rw [last] at before
    cases before
  exclusive := sound.exclusive
  few := sound.few
  threads := by
    intro u
    by_cases same : u = t
    · rw [same, goto_pcs_self]
      exact ok
    · rw [goto_pcs_other same]
      exact sound.threads u
  onlyLast := by
    intro u v lastU lastV
    by_cases sameU : u = t
    · rw [sameU, goto_pcs_self] at lastU
      exact absurd lastU after
    · by_cases sameV : v = t
      · rw [sameV, goto_pcs_self] at lastV
        exact absurd lastV after
      · rw [goto_pcs_other sameU] at lastU
        rw [goto_pcs_other sameV] at lastV
        exact sound.onlyLast u v lastU lastV
  asleep := by
    intro u parked
    have differ : u ≠ t := by
      rintro rfl
      exact awake parked
    rw [goto_pcs_other differ]
    exact sound.asleep u parked
  once := sound.once
  woken := by
    intro parked
    rcases sound.woken parked with ⟨u, wakes⟩ | holders
    · refine Or.inl ⟨u, (congrArg RwPc.wakes (goto_pcs_other ?_)).trans wakes⟩
      rintro rfl
      rw [wakes] at before
      cases before
    · exact Or.inr holders

theorem RwSound.changed {word : Nat} {readers writers : List T} (sound : RwSound l)
    (awake : t ∉ l.parked) (alone : ∀ u, l.pcs u = .lastStore → u = t)
    (isWord : ∃ waiting, waiting ≤ 1 ∧ word = readers.length + writers.length * rwWriter + waiting * rwWaiting ∧
      (waiting = 1 → readers ≠ [] ∨ writers ≠ [] ∨ pc = .lastStore))
    (exclusive : writers = [] ∨ (writers.length = 1 ∧ readers = [])) (few : readers.length < 2 ^ 30)
    (keeps : ∀ u, u ≠ t → (u ∈ l.readers → u ∈ readers) ∧ (u ∈ l.writers → u ∈ writers))
    (own : ({ l with word := word, readers := readers, writers := writers } : RwLock T).PcOk t pc)
    (woken : l.parked ≠ [] → pc.wakes = true ∨ (∃ u, u ≠ t ∧ (l.pcs u).wakes = true) ∨
      writers ≠ [] ∨ (readers ≠ [] ∧ hasWaiting word = true)) :
    RwSound ({ l with word := word, readers := readers, writers := writers }.goto t pc) where
  word := by
    obtain ⟨a, flag, parts, cause⟩ := isWord
    refine ⟨a, flag, parts, fun set => (cause set).imp_right (Or.imp_right ?_)⟩
    intro last
    exact ⟨t, goto_pcs_self.trans last⟩
  exclusive := exclusive
  few := few
  threads := by
    intro u
    by_cases same : u = t
    · rw [same, goto_pcs_self]
      exact own
    · rw [goto_pcs_other same]
      refine (sound.threads u).of_same (keeps u same).1 (keeps u same).2 ?_
      intro last
      exact same (alone u last)
  onlyLast := by
    have isSelf : ∀ u, ({ l with word := word, readers := readers, writers := writers }.goto t pc).pcs u = .lastStore →
        u = t := by
      intro u last
      by_contra differ
      rw [goto_pcs_other differ] at last
      exact differ (alone u last)
    intro u v lastU lastV
    exact (isSelf u lastU).trans (isSelf v lastV).symm
  asleep := by
    intro u parked
    have differ : u ≠ t := by
      rintro rfl
      exact awake parked
    rw [goto_pcs_other differ]
    exact sound.asleep u parked
  once := sound.once
  woken := by
    intro parked
    rcases woken parked with wakes | ⟨u, differ, wakes⟩ | held
    · exact Or.inl ⟨t, (congrArg RwPc.wakes goto_pcs_self).trans wakes⟩
    · exact Or.inl ⟨u, (congrArg RwPc.wakes (goto_pcs_other differ)).trans wakes⟩
    · exact Or.inr held

omit [DecidableEq T] in
theorem RwSound.alone_of_clear (sound : RwSound l) (clear : hasWaiting l.word = false) :
    ∀ u, l.pcs u = .lastStore → u = t := by
  intro u last
  have ok := sound.threads u
  rw [last] at ok
  rw [ok.2.2, hasWaiting_waiting] at clear
  cases clear

omit [DecidableEq T] in
theorem RwSound.alone_of_held (sound : RwSound l) (held : l.readers ≠ [] ∨ l.writers ≠ []) :
    ∀ u, l.pcs u = .lastStore → u = t := by
  intro u last
  have ok := sound.threads u
  rw [last] at ok
  rcases held with readers | writers
  · exact absurd ok.1 readers
  · exact absurd ok.2.1 writers

omit [DecidableEq T] in
theorem RwSound.wakes_other (sound : RwSound l) (before : (l.pcs t).wakes = false)
    (parked : l.parked ≠ []) :
    (∃ u, u ≠ t ∧ (l.pcs u).wakes = true) ∨ l.writers ≠ [] ∨
    (l.readers ≠ [] ∧ hasWaiting l.word = true) := by
  refine (sound.woken parked).imp_left ?_
  rintro ⟨u, wakes⟩
  refine ⟨u, ?_, wakes⟩
  rintro rfl
  rw [wakes] at before
  cases before

omit [DecidableEq T] in
theorem RwSound.free_word (sound : RwSound l) (noWriter : hasWriter l.word = false)
    (noWaiting : hasWaiting l.word = false) : l.word = l.readers.length ∧ l.writers = [] := by
  have noWriters : l.writers = [] := by
    by_contra some
    rw [sound.decode.2.1.mpr some] at noWriter
    cases noWriter
  have isWord := sound.encode
  rw [noWaiting, noWriters] at isWord
  refine ⟨?_, noWriters⟩
  rw [isWord]
  simp

theorem RwSound.takeRead (sound : RwSound l) (before : (l.pcs t).wakes = false)
    (awake : t ∉ l.parked) (noWriter : hasWriter l.word = false)
    (noWaiting : hasWaiting l.word = false) (room : l.readers.length < 2 ^ 30 - 1) :
    RwSound ({ l with word := add32 l.word 1, readers := t :: l.readers }.goto t .idle) := by
  obtain ⟨isWord, noWriters⟩ := sound.free_word noWriter noWaiting
  have counted : add32 l.word 1 = (t :: l.readers).length := by
    rw [isWord, List.length_cons, add32]
    exact Nat.mod_eq_of_lt (by omega)
  refine sound.changed awake (sound.alone_of_clear noWaiting) ⟨0, Nat.zero_le _, ?_, ?_⟩
    (Or.inl noWriters) ?_ ?_ trivial ?_
  · rw [counted, noWriters]
    simp
  · intro wrong
    cases wrong
  · rw [List.length_cons]
    omega
  · intro u _
    exact ⟨List.mem_cons_of_mem t, id⟩
  · intro parked
    rcases sound.wakes_other before parked with other | writers | ⟨-, waiting⟩
    · exact Or.inr (Or.inl other)
    · exact absurd noWriters writers
    · rw [noWaiting] at waiting
      cases waiting

theorem hasWriter_zero : hasWriter 0 = false := by simp [hasWriter]

theorem hasWaiting_zero : hasWaiting 0 = false := by simp [hasWaiting]

theorem RwSound.takeWrite (sound : RwSound l) (awake : t ∉ l.parked)
    (free : l.word = 0) :
    RwSound ({ l with word := rwWriter, writers := t :: l.writers }.goto t .idle) := by
  have noWriter : hasWriter l.word = false := by rw [free, hasWriter_zero]
  have noWaiting : hasWaiting l.word = false := by rw [free, hasWaiting_zero]
  obtain ⟨isWord, noWriters⟩ := sound.free_word noWriter noWaiting
  have noReaders : l.readers = [] := List.length_eq_zero_iff.mp (isWord.symm.trans free)
  refine sound.changed awake (sound.alone_of_clear noWaiting) ⟨0, Nat.zero_le _, ?_, ?_⟩
    (Or.inr ⟨?_, noReaders⟩) sound.few ?_ trivial ?_
  · rw [noReaders, noWriters]
    simp
  · intro wrong
    cases wrong
  · rw [noWriters]
    rfl
  · intro u _
    exact ⟨id, List.mem_cons_of_mem t⟩
  · intro _
    exact Or.inr (Or.inr (Or.inl (List.cons_ne_nil _ _)))

theorem RwSound.announced (sound : RwSound l) (before : (l.pcs t).wakes = false)
    (awake : t ∉ l.parked) (busy : l.word ≠ 0) (clear : hasWaiting l.word = false) :
    RwSound ({ l with word := orWaiting l.word }.goto t (.wrWait (orWaiting l.word))) := by
  have isWord := sound.encode
  rw [clear, if_neg Bool.false_ne_true, Nat.add_zero] at isWord
  have held : l.readers ≠ [] ∨ l.writers ≠ [] := by
    by_contra free
    rw [not_or, not_not, not_not] at free
    rw [free.1, free.2] at isWord
    exact busy (isWord.trans (by simp))
  have set : orWaiting l.word = l.word + rwWaiting := by
    rw [orWaiting, clear, if_neg Bool.false_ne_true]
  have marked : hasWaiting (orWaiting l.word) = true := by
    have parts := word_parts sound.few sound.one_writer (Nat.le_refl 1)
    rw [Nat.one_mul, ← isWord, ← set] at parts
    exact parts.2.2.1.mpr rfl
  refine sound.changed awake (sound.alone_of_clear clear) ⟨1, Nat.le_refl 1, ?_, ?_⟩ sound.exclusive
    sound.few ?_ (Or.inr marked) ?_
  · rw [set, Nat.one_mul, ← isWord]
  · intro _
    exact held.imp_right Or.inl
  · intro u _
    exact ⟨id, id⟩
  · intro parked
    rcases sound.wakes_other before parked with other | writers | ⟨readers, -⟩
    · exact Or.inr (Or.inl other)
    · exact Or.inr (Or.inr (Or.inl writers))
    · exact Or.inr (Or.inr (Or.inr ⟨readers, marked⟩))

theorem RwSound.releaseWrite (sound : RwSound l) (awake : t ∉ l.parked) (holds : t ∈ l.writers) :
    RwSound ({ l with word := 0, writers := l.writers.erase t }.goto t .wake) := by
  have held : l.writers ≠ [] := List.ne_nil_of_mem holds
  obtain ⟨one, noReaders⟩ := sound.exclusive.resolve_left held
  have none : l.writers.erase t = [] := by
    rw [← List.length_eq_zero_iff, List.length_erase_of_mem holds, one]
  refine sound.changed awake (sound.alone_of_held (Or.inr held)) ⟨0, Nat.zero_le _, ?_, ?_⟩
    (Or.inl none) sound.few ?_ trivial ?_
  · rw [none, noReaders]
    simp
  · intro wrong
    cases wrong
  · intro u differ
    exact ⟨id, (List.mem_erase_of_ne differ).mpr⟩
  · intro _
    exact Or.inl rfl

theorem RwSound.releaseRead (sound : RwSound l) (before : (l.pcs t).wakes = false)
    (awake : t ∉ l.parked) (holds : t ∈ l.readers) :
    RwSound ({ l with word := add32 l.word (2 ^ 32 - 1), readers := l.readers.erase t }.goto t
      (if readersOf l.word = 1 && hasWaiting l.word then .lastStore else .idle)) := by
  have held : l.readers ≠ [] := List.ne_nil_of_mem holds
  have noWriters : l.writers = [] := sound.exclusive.resolve_right fun one => held one.2
  have some : 0 < l.readers.length := List.length_pos_of_mem holds
  have fewer : (l.readers.erase t).length = l.readers.length - 1 := List.length_erase_of_mem holds
  have few := sound.few
  obtain ⟨isReaders, -, bound⟩ := sound.decode
  have isWord := sound.encode
  rw [noWriters, List.length_nil, Nat.zero_mul, Nat.add_zero] at isWord
  have counted : add32 l.word (2 ^ 32 - 1) =
      (l.readers.erase t).length + if hasWaiting l.word then rwWaiting else 0 := by
    rw [add32, fewer]
    omega
  have clears : ((if readersOf l.word = 1 && hasWaiting l.word then RwPc.lastStore else .idle) =
      .lastStore) ↔ l.readers.length = 1 ∧ hasWaiting l.word = true := by
    rw [isReaders]
    by_cases last : l.readers.length = 1 <;> cases waits : hasWaiting l.word <;> simp [last]
  refine sound.changed awake (sound.alone_of_held (Or.inl held))
    ⟨(hasWaiting l.word).toNat, Bool.toNat_le _, ?_, ?_⟩ (Or.inl noWriters) (by omega) ?_ ?_ ?_
  · rw [counted, noWriters]
    cases hasWaiting l.word <;> simp
  · intro set
    have waits : hasWaiting l.word = true := by
      cases waits : hasWaiting l.word
      · rw [waits] at set
        cases set
      · rfl
    by_cases last : l.readers.length = 1
    · exact Or.inr (Or.inr (clears.mpr ⟨last, waits⟩))
    · refine Or.inl fun gone => last ?_
      rw [gone, List.length_nil] at fewer
      omega
  · intro u differ
    exact ⟨(List.mem_erase_of_ne differ).mpr, id⟩
  · split
    · next last =>
      rw [isReaders, Bool.and_eq_true, decide_eq_true_eq] at last
      refine ⟨List.length_eq_zero_iff.mp ?_, noWriters, ?_⟩
      · change (l.readers.erase t).length = 0
        omega
      · rw [counted, fewer, last.1, if_pos last.2, Nat.sub_self, Nat.zero_add]
    · trivial
  · intro parked
    rcases sound.wakes_other before parked with other | writers | ⟨-, waits⟩
    · exact Or.inr (Or.inl other)
    · exact absurd noWriters writers
    · by_cases last : l.readers.length = 1
      · exact Or.inl (congrArg RwPc.wakes (clears.mpr ⟨last, waits⟩))
      · refine Or.inr (Or.inr (Or.inr ⟨?_, ?_⟩))
        · intro gone
          rw [gone, List.length_nil] at fewer
          omega
        · have parts := @word_parts (l.readers.erase t).length 0 1 (by omega) (Nat.zero_le _) (Nat.le_refl 1)
          rw [counted, if_pos waits]
          exact parts.2.2.1.mpr rfl

theorem RwSound.cleared (sound : RwSound l) (awake : t ∉ l.parked) (last : l.pcs t = .lastStore) :
    RwSound ({ l with word := 0 }.goto t .wake) := by
  have own := sound.threads t
  rw [last] at own
  obtain ⟨noReaders, noWriters, -⟩ := own
  refine sound.changed awake (fun u lastU => sound.onlyLast u t lastU last)
    ⟨0, Nat.zero_le _, ?_, ?_⟩ sound.exclusive
    sound.few (fun u _ => ⟨id, id⟩) trivial (fun _ => Or.inl rfl)
  · rw [noReaders, noWriters]
    simp
  · intro wrong
    cases wrong

theorem RwSound.parks {sleep : RwPc} (sound : RwSound l) (before : (l.pcs t).wakes = false)
    (awake : t ∉ l.parked) (busy : hasWriter l.word = true ∨ hasWaiting l.word = true)
    (sleeps : sleep = .rdSleep ∨ sleep = .wrSleep) :
    RwSound ({ l with parked := l.parked ++ [t] }.goto t sleep) := by
  have quiet : l.PcOk t sleep ∧ sleep ≠ .lastStore := by
    rcases sleeps with rfl | rfl <;> exact ⟨trivial, by simp⟩
  have moved := sound.moved before awake quiet.1 quiet.2
  refine { moved with asleep := ?_, once := ?_, woken := ?_ }
  · intro u parked
    rcases List.mem_append.mp parked with parked | self
    · exact moved.asleep u parked
    · rw [List.mem_singleton.mp self]
      exact sleeps.imp (fun same => goto_pcs_self.trans same) fun same => goto_pcs_self.trans same
  · refine List.nodup_append.mpr ⟨sound.once, List.nodup_singleton t, ?_⟩
    rintro u parked v self rfl
    exact awake (List.mem_singleton.mp self ▸ parked)
  · intro _
    rcases busy with writer | waiting
    · exact Or.inr (Or.inl (sound.decode.2.1.mp writer))
    · rcases sound.cause waiting with readers | writers | ⟨u, last⟩
      · exact Or.inr (Or.inr ⟨readers, waiting⟩)
      · exact Or.inr (Or.inl writers)
      · refine Or.inl ⟨u, (congrArg RwPc.wakes (goto_pcs_other ?_)).trans (congrArg RwPc.wakes last)⟩
        rintro rfl
        rw [last] at before
        cases before

theorem RwSound.futexWait {sleep back : RwPc} {v : Nat} (sound : RwSound l)
    (before : (l.pcs t).wakes = false)
    (awake : t ∉ l.parked) (busy : hasWriter v = true ∨ hasWaiting v = true)
    (sleeps : sleep = .rdSleep ∨ sleep = .wrSleep) (again : l.PcOk t back ∧ back ≠ .lastStore) :
    RwSound (l.futexWait t v sleep back) := by
  unfold RwLock.futexWait
  split
  · next same =>
    rw [← same] at busy
    exact sound.parks before awake busy sleeps
  · exact sound.moved before awake again.1 again.2

theorem RwSound.everybody [Fintype T] (sound : RwSound l) (few : Fintype.card T ≤ wakeAll)
    (at_wake : l.pcs t = .wake) :
    RwSound ({ l with parked := l.parked.drop wakeAll }.goto t .idle) := by
  have gone : l.parked.drop wakeAll = [] :=
    List.drop_eq_nil_of_le (sound.once.length_le_card.trans few)
  rw [gone]
  have empty : RwSound { l with parked := [] } :=
    { sound with
      asleep := fun u parked => by cases parked
      once := List.nodup_nil
      woken := fun parked => absurd rfl parked }
  have waker : ∀ u, l.pcs u = .lastStore → u ≠ t := by
    rintro u last rfl
    rw [at_wake] at last
    cases last
  refine { empty with word := ?_, threads := ?_, onlyLast := ?_, asleep := ?_, woken := ?_ }
  · obtain ⟨a, flag, isWord, cause⟩ := sound.word
    refine ⟨a, flag, isWord, fun set => (cause set).imp_right (Or.imp_right ?_)⟩
    rintro ⟨u, last⟩
    exact ⟨u, (goto_pcs_other (waker u last)).trans last⟩
  · intro u
    by_cases same : u = t
    · rw [same, goto_pcs_self]
      trivial
    · rw [goto_pcs_other same]
      exact sound.threads u
  · have before : ∀ u, ({ l with parked := [] }.goto t .idle).pcs u = .lastStore → l.pcs u = .lastStore := by
      intro u last
      by_cases same : u = t
      · rw [same, goto_pcs_self] at last
        cases last
      · rwa [goto_pcs_other same] at last
    intro u v lastU lastV
    exact sound.onlyLast u v (before u lastU) (before v lastV)
  · intro u parked
    cases parked
  · intro parked
    exact absurd rfl parked

theorem RwSound.leave (sound : RwSound l) : RwSound { l with parked := l.parked.erase t } :=
  { sound with
    asleep := fun u parked => sound.asleep u (List.mem_of_mem_erase parked)
    once := sound.once.erase t
    woken := fun parked => sound.woken fun none => parked (by rw [none]; rfl) }

theorem RwSound.enter (sound : RwSound l) (ok : l.PcOk t pc) (notLast : pc ≠ .lastStore) :
    RwSound (l.enter t pc) := by
  unfold RwLock.enter
  split
  · next idle =>
    have awake : t ∉ l.parked := sound.not_parked (by rw [idle]; simp)
    exact sound.moved (by rw [idle]; rfl) awake ok notLast
  · exact sound

theorem RwSound.go [Fintype T] (sound : RwSound l) (few : Fintype.card T ≤ wakeAll)
    (room : l.readers.length < 2 ^ 30 - 1) : RwSound (rwGo l t) := by
  have own := sound.threads t
  have sleeper : ∀ pc, l.pcs t = pc → pc ≠ .rdSleep → pc ≠ .wrSleep → t ∉ l.parked := by
    intro pc here notRead notWrite
    refine sound.not_parked ?_
    rw [here]
    exact ⟨notRead, notWrite⟩
  unfold rwGo
  split <;> rename_i here <;> rw [here] at own
  · exact sound
  · have awake := sleeper _ here (by simp) (by simp)
    refine sound.moved (by rw [here]; rfl) awake ?_ ?_
    · split
      · next busy => exact (Bool.or_eq_true _ _).mp busy
      · next free => simpa [RwLock.PcOk] using free
    · split <;> simp
  · have awake := sleeper _ here (by simp) (by simp)
    split
    · exact sound.moved (by rw [here]; rfl) awake trivial (by simp)
    · split
      · next same =>
        rw [← same] at own ⊢
        exact sound.takeRead (by rw [here]; rfl) awake own.1 own.2 room
      · exact sound.moved (by rw [here]; rfl) awake trivial (by simp)
  · have awake := sleeper _ here (by simp) (by simp)
    exact sound.futexWait (by rw [here]; rfl) awake own (Or.inl rfl) ⟨trivial, by simp⟩
  · split
    · exact sound
    · next awake => exact sound.moved (by rw [here]; rfl) awake trivial (by simp)
  · have awake := sleeper _ here (by simp) (by simp)
    refine sound.moved (by rw [here]; rfl) awake ?_ ?_
    · split
      · trivial
      · next free => simpa [RwLock.PcOk] using free
    · split <;> simp
  · have awake := sleeper _ here (by simp) (by simp)
    split
    · next same =>
      rw [← same] at own ⊢
      exact sound.takeRead (by rw [here]; rfl) awake own.1 own.2 room
    · exact sound.moved (by rw [here]; rfl) awake trivial (by simp)
  · have awake := sleeper _ here (by simp) (by simp)
    refine sound.moved (by rw [here]; rfl) awake ?_ ?_
    · split
      · trivial
      · next busy =>
        split
        · next waits => exact Or.inr waits
        · next clear => exact ⟨busy, Bool.eq_false_iff.mpr clear⟩
    · split
      · simp
      · split <;> simp
  · have awake := sleeper _ here (by simp) (by simp)
    split
    · next free => exact sound.takeWrite awake free
    · exact sound.moved (by rw [here]; rfl) awake trivial (by simp)
  · have awake := sleeper _ here (by simp) (by simp)
    split
    · next same =>
      rw [← same] at own ⊢
      exact sound.announced (by rw [here]; rfl) awake own.1 own.2
    · exact sound.moved (by rw [here]; rfl) awake trivial (by simp)
  · have awake := sleeper _ here (by simp) (by simp)
    exact sound.futexWait (by rw [here]; rfl) awake own (Or.inr rfl) ⟨trivial, by simp⟩
  · split
    · exact sound
    · next awake => exact sound.moved (by rw [here]; rfl) awake trivial (by simp)
  · have awake := sleeper _ here (by simp) (by simp)
    split
    · next free => exact sound.takeWrite awake free
    · exact sound.moved (by rw [here]; rfl) awake trivial (by simp)
  · have awake := sleeper _ here (by simp) (by simp)
    refine sound.moved (by rw [here]; rfl) awake ?_ ?_
    · split
      · next writer =>
        refine Or.resolve_left own fun reader => ?_
        rcases sound.exclusive with none | ⟨-, none⟩
        · exact sound.decode.2.1.mp writer none
        · rw [none] at reader
          cases reader
      · next noWriter =>
        refine Or.resolve_right own fun writer => noWriter ?_
        exact sound.decode.2.1.mpr (List.ne_nil_of_mem writer)
    · split <;> simp
  · have awake := sleeper _ here (by simp) (by simp)
    exact sound.releaseWrite awake own
  · have awake := sleeper _ here (by simp) (by simp)
    exact sound.releaseRead (by rw [here]; rfl) awake own
  · have awake := sleeper _ here (by simp) (by simp)
    exact sound.cleared awake here
  · exact sound.everybody few here

theorem RwSound.step [Fintype T] (sound : RwSound l) (few : Fintype.card T ≤ wakeAll)
    (label : RwStep T) (room : rwRoom l label) : RwSound (rwStep l label) := by
  cases label with
  | rdlock t => exact sound.enter trivial (by simp)
  | tryrdlock t => exact sound.enter trivial (by simp)
  | wrlock t => exact sound.enter trivial (by simp)
  | trywrlock t => exact sound.enter trivial (by simp)
  | unlock t =>
    dsimp only [rwStep]
    split
    · next holds => exact sound.enter holds (by simp)
    · exact sound
  | go t => exact sound.go few room
  | leave t => exact sound.leave

omit [DecidableEq T] in
theorem RwSound.init : RwSound (rwInit : RwLock T) where
  word := ⟨0, Nat.zero_le _, by simp [rwInit], fun wrong => by cases wrong⟩
  exclusive := Or.inl rfl
  few := by simp [rwInit]
  threads := fun _ => trivial
  onlyLast := fun t u last => by cases last
  asleep := fun u parked => by cases parked
  once := List.nodup_nil
  woken := fun parked => absurd rfl parked

theorem rwOk_of_reaches [Fintype T] (few : Fintype.card T ≤ wakeAll)
    (reached : Reaches rwStep rwRoom rwInit l) : RwOk l :=
  RwSound.ok (reached.invariant RwSound.init fun _ label sound room => sound.step few label room)

end Cos.Runtime
