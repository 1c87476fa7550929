import Cos.Lib.Run
import Mathlib

/-! # Event counters

A read of an `eventfd` takes from its counter and a write adds to it.  The history beside the
counter is what the callers know of it: the values that writes brought and those that reads
returned.
-/

namespace Cos.EventFd

open Cos.Lib

/-- What reads and writes of an `ofd_t` of kind `FD_EVENT` use. -/
structure EventOfd where
  counter : Nat
  semaphore : Bool
  nonblock : Bool
  ver : Nat
deriving DecidableEq, Repr

inductive Errno where
  | nomem
  | inval
  | again
  | fault
  | waits
deriving DecidableEq, Repr

/-- `eventfd2`; `EFD_SEMAPHORE` is 1 and `L_O_NONBLOCK` is 0x800. -/
def eventfdNew (a0 : BitVec 64) (fl : BitVec 32) : EventOfd :=
  ⟨(a0.setWidth 32).toNat, fl.getLsbD 0, fl.getLsbD 11, 0⟩

/-- `ofd_read`; a read that waits has not returned yet. -/
def ofdRead (n : Nat) (o : EventOfd) : Except Errno Nat × EventOfd :=
  if n < 8 then (.error .inval, o)
  else if o.counter ≠ 0 then
    let v := if o.semaphore then 1 else o.counter
    (.ok v, { o with counter := o.counter - v })
  else (.error (if o.nonblock then .again else .waits), o)

def ofdWrite (n : Nat) (v : BitVec 64) (o : EventOfd) : Except Errno Nat × EventOfd :=
  if n < 8 then (.error .inval, o)
  else if v = 0xffffffffffffffff#64 then (.error .inval, o)
  else (.ok 8, { o with counter := (o.counter + v.toNat) % 2 ^ 64, ver := o.ver + 1 })

/-- What a call finds besides the counter: the memory for its buffer, and whether the user's is
there. -/
inductive EventCall where
  | read (len : Nat) (allocated copied : Bool)
  | write (len : Nat) (allocated copied : Bool) (v : BitVec 64)
deriving DecidableEq, Repr

/-- `user_read`: the value that the caller gets, if any. -/
def userRead (len : Nat) (allocated copied : Bool) (o : EventOfd) :
    Except Errno (Option Nat) × EventOfd :=
  if len = 0 then (.ok none, o)
  else if !allocated then (.error .nomem, o)
  else
    match ofdRead (min 65536 len) o with
    | (.error e, o) => (.error e, o)
    | (.ok v, o) => (if copied then .ok (some v) else .error .fault, o)

def userWrite (len : Nat) (allocated copied : Bool) (v : BitVec 64) (o : EventOfd) :
    Except Errno Nat × EventOfd :=
  if len = 0 then (.ok 0, o)
  else if !allocated then (.error .nomem, o)
  else if !copied then (.error .fault, o)
  else ofdWrite (min 65536 len) v o

structure EventHistory where
  ofd : EventOfd
  written : Nat
  returned : List Nat
deriving DecidableEq, Repr

def eventStep (h : EventHistory) : EventCall → EventHistory
  | .read len allocated copied =>
      match userRead len allocated copied h.ofd with
      | (.ok (some v), o) => { h with ofd := o, returned := v :: h.returned }
      | (_, o) => { h with ofd := o }
  | .write len allocated copied v =>
      match userWrite len allocated copied v h.ofd with
      | (.ok 8, o) => { h with ofd := o, written := h.written + v.toNat }
      | (_, o) => { h with ofd := o }

def eventStart (a0 : BitVec 64) (fl : BitVec 32) : EventHistory := ⟨eventfdNew a0 fl, 0, []⟩

structure Conserved (initial : Nat) (h : EventHistory) : Prop where
  total : h.returned.sum + h.ofd.counter = initial + h.written
  bound : h.ofd.counter ≤ 2 ^ 64 - 2
  ones : h.ofd.semaphore = true → ∀ v ∈ h.returned, v = 1

/-- A write keeps the counter below its limit, and a read that takes a value can hand it over. -/
def eventCondition (h : EventHistory) : EventCall → Prop
  | .read len allocated copied =>
      8 ≤ len ∧ allocated = true ∧ h.ofd.counter ≠ 0 → copied = true
  | .write len allocated copied v =>
      8 ≤ len ∧ allocated = true ∧ copied = true ∧ v ≠ 0xffffffffffffffff#64 → h.ofd.counter + v.toNat ≤ 2 ^ 64 - 2

variable {h : EventHistory} {initial len : Nat} {allocated copied : Bool} {v : BitVec 64}
  {call : EventCall}

theorem userRead_taken (enough : 8 ≤ len) (there : h.ofd.counter ≠ 0) :
    userRead len true copied h.ofd =
      (if copied then .ok (some (if h.ofd.semaphore then 1 else h.ofd.counter)) else .error .fault,
        { h.ofd with counter := h.ofd.counter - if h.ofd.semaphore then 1 else h.ofd.counter }) := by
  have long : ¬ min 65536 len < 8 := by omega
  have some_ : len ≠ 0 := by omega
  simp [userRead, ofdRead, some_, long, there]

theorem userRead_idle (idle : ¬ (8 ≤ len ∧ allocated = true ∧ h.ofd.counter ≠ 0)) :
    (userRead len allocated copied h.ofd).2 = h.ofd ∧
    ∀ v, (userRead len allocated copied h.ofd).1 ≠ .ok (some v) := by
  unfold userRead
  split
  · simp
  · cases allocated with
    | false => simp
    | true =>
        by_cases short : min 65536 len < 8
        · simp [ofdRead, short]
        · have empty : h.ofd.counter = 0 := by
            by_contra there
            exact idle ⟨by omega, rfl, there⟩
          simp [ofdRead, short, empty]

theorem userWrite_added (enough : 8 ≤ len) (valid : v ≠ 0xffffffffffffffff#64) :
    userWrite len true true v h.ofd =
      (.ok 8, { h.ofd with counter := (h.ofd.counter + v.toNat) % 2 ^ 64, ver := h.ofd.ver + 1 }) := by
  have long : ¬ min 65536 len < 8 := by omega
  have some_ : len ≠ 0 := by omega
  simp [userWrite, ofdWrite, some_, long, valid]

theorem userWrite_idle (idle :
    ¬ (8 ≤ len ∧ allocated = true ∧ copied = true ∧ v ≠ 0xffffffffffffffff#64)) :
    (userWrite len allocated copied v h.ofd).2 = h.ofd ∧
    (userWrite len allocated copied v h.ofd).1 ≠ .ok 8 := by
  unfold userWrite
  split
  · simp
  · cases allocated with
    | false => simp
    | true =>
        cases copied with
        | false => simp
        | true =>
            by_cases short : min 65536 len < 8
            · simp [ofdWrite, short]
            · have full : v = 0xffffffffffffffff#64 := by
                by_contra valid
                exact idle ⟨by omega, rfl, rfl, valid⟩
              simp [ofdWrite, short, full]

theorem conserved_step_iff (conserved : Conserved initial h) :
    Conserved initial (eventStep h call) ↔ eventCondition h call := by
  obtain ⟨total, bound, ones⟩ := conserved
  cases call with
  | read len allocated copied =>
      by_cases taken : 8 ≤ len ∧ allocated = true ∧ h.ofd.counter ≠ 0
      · obtain ⟨enough, rfl, there⟩ := taken
        have least : (if h.ofd.semaphore then 1 else h.ofd.counter) ≤ h.ofd.counter := by split <;> omega
        have positive : 0 < if h.ofd.semaphore then 1 else h.ofd.counter := by split <;> omega
        simp only [eventStep, userRead_taken enough there, eventCondition, enough, there, ne_eq,
          not_false_eq_true, and_self, true_implies]
        cases copied with
        | false =>
            simp only [Bool.false_eq_true, if_false, iff_false]
            intro after
            have := after.total
            dsimp only at this
            omega
        | true =>
            simp only [if_true, iff_true]
            refine ⟨?_, ?_, fun isSemaphore u member => ?_⟩
            · simp only [List.sum_cons]
              omega
            · dsimp only
              omega
            · rcases List.mem_cons.mp member with rfl | old
              · exact if_pos isSemaphore
              · exact ones isSemaphore u old
      · obtain ⟨same, nothing⟩ := @userRead_idle h len allocated copied taken
        have unchanged : eventStep h (.read len allocated copied) = h := by
          simp only [eventStep, same]
        rw [unchanged]
        exact iff_of_true ⟨total, bound, ones⟩ fun now => absurd now taken
  | write len allocated copied v =>
      by_cases added : 8 ≤ len ∧ allocated = true ∧ copied = true ∧ v ≠ 0xffffffffffffffff#64
      · obtain ⟨enough, rfl, rfl, valid⟩ := added
        simp only [eventStep, userWrite_added enough valid, eventCondition, enough, valid, ne_eq,
          not_false_eq_true, and_self, true_implies]
        constructor
        · intro after
          have sum := after.total
          have below := after.bound
          dsimp only at sum below
          omega
        · intro fits
          have exact_ : (h.ofd.counter + v.toNat) % 2 ^ 64 = h.ofd.counter + v.toNat := Nat.mod_eq_of_lt (by omega)
          refine ⟨?_, ?_, ones⟩
          · dsimp only
            omega
          · dsimp only
            omega
      · obtain ⟨same, nothing⟩ := @userWrite_idle h len allocated copied v added
        have unchanged : eventStep h (.write len allocated copied v) = h := by
          simp only [eventStep, same]
        rw [unchanged]
        exact iff_of_true ⟨total, bound, ones⟩ fun now => absurd now added

theorem conserved_runs_iff (conserved : Conserved initial h) (calls : List EventCall) :
    (∀ done_, done_ <+: calls → Conserved initial (runSteps eventStep h done_)) ↔
      StepsAllowed eventStep eventCondition h calls := by
  induction calls generalizing h with
  | nil =>
      refine iff_of_true (fun done_ isPrefix => ?_) trivial
      rw [List.prefix_nil.mp isPrefix]
      exact conserved
  | cons call rest ih =>
      constructor
      · intro always
        have first := always [call] (List.prefix_append [call] rest)
        exact ⟨(conserved_step_iff conserved).mp first,
          (ih first).mp fun done_ isPrefix => always (call :: done_) ((List.prefix_cons_inj call).mpr isPrefix)⟩
      · rintro ⟨condition, later⟩ done_ isPrefix
        cases done_ with
        | nil => exact conserved
        | cons first more =>
            obtain ⟨rfl, isRest⟩ := List.cons_prefix_cons.mp isPrefix
            exact (ih ((conserved_step_iff conserved).mpr condition)).mpr later more isRest

theorem eventfd_conserves_iff (a0 : BitVec 64) (fl : BitVec 32) (calls : List EventCall) :
    (∀ done_, done_ <+: calls →
        Conserved (a0.setWidth 32).toNat (runSteps eventStep (eventStart a0 fl) done_)) ↔
      StepsAllowed eventStep eventCondition (eventStart a0 fl) calls := by
  refine conserved_runs_iff ⟨?_, ?_, fun _ _ member => absurd member List.not_mem_nil⟩ calls
  · simp [eventStart, eventfdNew]
  · have := (a0.setWidth 32).isLt
    simp only [eventStart, eventfdNew]
    omega

/-- Two writes that each fit take the counter round to 0: nothing is left to read. -/
theorem eventfd_wraps : ¬ Conserved 0 (runSteps eventStep (eventStart 0 0)
    [.write 8 true true (BitVec.ofNat 64 (2 ^ 64 - 2)), .write 8 true true 2]) := by
  intro conserved
  have total := conserved.total
  revert total
  decide

end Cos.EventFd
