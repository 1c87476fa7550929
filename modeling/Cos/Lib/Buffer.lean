import Mathlib.Data.List.Range

/-! # Buffers of a fixed size

A buffer keeps what is written within its size and notes an access past its end.
-/

namespace Cos.Lib

structure Buffer (α : Type u) where
  cell : Nat → α
  size : Nat
  overrun : Bool

variable {α : Type u} {buffer : Buffer α} {offset count start : Nat} {data : List α}

/-- `memcpy` into the buffer. -/
def Buffer.write (buffer : Buffer α) (offset : Nat) (data : List α) : Buffer α :=
  { buffer with
    cell := fun i => if offset ≤ i then data.getD (i - offset) (buffer.cell i) else buffer.cell i
    overrun := buffer.overrun || decide (buffer.size < offset + data.length) }

/-- `memcpy` out of the buffer. -/
def Buffer.read (buffer : Buffer α) (offset count : Nat) : List α :=
  (List.range count).map fun i => buffer.cell (offset + i)

/-- `memmove` to the start of the buffer. -/
def Buffer.slide (buffer : Buffer α) (offset count : Nat) : Buffer α :=
  { buffer with
    cell := fun i => if i < count then buffer.cell (offset + i) else buffer.cell i
    overrun := buffer.overrun || decide (buffer.size < offset + count) }

theorem Buffer.write_within (within : buffer.overrun = false)
    (fits : offset + data.length ≤ buffer.size) : (buffer.write offset data).overrun = false := by
  simp [Buffer.write, within, fits]

theorem Buffer.slide_within (within : buffer.overrun = false)
    (fits : offset + count ≤ buffer.size) : (buffer.slide offset count).overrun = false := by
  simp [Buffer.slide, within, fits]

@[simp] theorem Buffer.read_length (buffer : Buffer α) (offset count : Nat) :
    (buffer.read offset count).length = count := by
  simp [Buffer.read]

/-- The buffer has `count` values of the stream, from `start` on, at `offset`. -/
def Buffer.Holds (buffer : Buffer α) (offset : Nat) (stream : List α) (start count : Nat) : Prop :=
  ∀ i < count, stream[start + i]? = some (buffer.cell (offset + i))

variable {stream more : List α}

theorem Buffer.Holds.length (holds : buffer.Holds offset stream start count) (some : count ≠ 0) :
    start + count ≤ stream.length := by
  have last := holds (count - 1) (by omega)
  obtain ⟨inside, -⟩ := List.getElem?_eq_some_iff.mp last
  omega

theorem Buffer.Holds.append (holds : buffer.Holds offset stream start count) :
    buffer.Holds offset (stream ++ more) start count := by
  intro i inside
  have held := holds i inside
  obtain ⟨bound, -⟩ := List.getElem?_eq_some_iff.mp held
  rw [List.getElem?_append_left bound]
  exact held

theorem Buffer.Holds.part {skip part : Nat} (holds : buffer.Holds offset stream start count)
    (inside : skip + part ≤ count) : buffer.Holds (offset + skip) stream (start + skip) part := by
  intro i before
  have held := holds (skip + i) (by omega)
  rw [← Nat.add_assoc, ← Nat.add_assoc] at held
  exact held

theorem Buffer.Holds.join {next : Nat} (holds : buffer.Holds offset stream start count)
    (follows : buffer.Holds (offset + count) stream (start + count) next) :
    buffer.Holds offset stream start (count + next) := by
  intro i inside
  by_cases first : i < count
  · exact holds i first
  · have held := follows (i - count) (by omega)
    rw [Nat.add_assoc, Nat.add_assoc, Nat.add_sub_cancel' (by omega)] at held
    exact held

theorem Buffer.Holds.merge {shift a m b n : Nat} (first : buffer.Holds a stream (shift + a) m)
    (second : buffer.Holds b stream (shift + b) n) (touches : a ≤ b + n ∧ b ≤ a + m) :
    buffer.Holds (min a b) stream (shift + min a b) (max (a + m) (b + n) - min a b) := by
  intro i inside
  obtain ⟨place, isPlace⟩ : ∃ place, min a b + i = place := ⟨_, rfl⟩
  rw [Nat.add_assoc, isPlace]
  by_cases inFirst : a ≤ place ∧ place < a + m
  · have held := first (place - a) (by omega)
    rw [Nat.add_assoc, Nat.add_sub_cancel' inFirst.1] at held
    exact held
  · have held := second (place - b) (by omega)
    rw [Nat.add_assoc, Nat.add_sub_cancel' (by omega)] at held
    exact held

theorem Buffer.Holds.read (holds : buffer.Holds offset stream start count) :
    buffer.read offset count <+: stream.drop start := by
  rw [List.prefix_iff_getElem?]
  intro i inside
  rw [Buffer.read_length] at inside
  rw [List.getElem?_drop, holds i inside]
  simp [Buffer.read]

theorem Buffer.Holds.write {place first : Nat} (holds : buffer.Holds offset stream start count)
    (from' : data <+: stream.drop first) (aligned : place + start = offset + first) :
    (buffer.write place data).Holds offset stream start count := by
  intro i inside
  have held := holds i inside
  rw [List.prefix_iff_getElem?] at from'
  by_cases written : place ≤ offset + i ∧ offset + i - place < data.length
  · have value := from' (offset + i - place) written.2
    rw [List.getElem?_drop] at value
    have same : first + (offset + i - place) = start + i := by omega
    rw [same] at value
    rw [value]
    simp [Buffer.write, written.1, written.2]
  · rw [held]
    by_cases behind : place ≤ offset + i
    · have past : data.length ≤ offset + i - place := Nat.le_of_not_lt fun before => written ⟨behind, before⟩
      simp [Buffer.write, behind, List.getElem?_eq_none past]
    · simp [Buffer.write, behind]

theorem Buffer.write_holds {first : Nat} (from' : data <+: stream.drop first) :
    (buffer.write offset data).Holds offset stream first data.length := by
  intro i inside
  rw [List.prefix_iff_getElem?] at from'
  have value := from' i inside
  rw [List.getElem?_drop] at value
  rw [value]
  simp [Buffer.write, inside]

theorem Buffer.Holds.slide {skip moved : Nat}
    (holds : buffer.Holds (offset + skip) stream start count) (inside : skip + count ≤ moved) :
    (buffer.slide offset moved).Holds skip stream start count := by
  intro i before
  have held := holds i before
  rw [held]
  have covered : skip + i < moved := by omega
  simp [Buffer.slide, covered, Nat.add_assoc]

end Cos.Lib
