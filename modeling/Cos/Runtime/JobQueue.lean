import Cos.Lib.Run
import Cos.Lib.Serial
import Mathlib.Logic.Function.Basic

/-! # The idle-work queue

The ring of `cos_lib.c` that worker cores push jobs to and take jobs from, one atomic step of one
thread at a time.  Beside the memory a run keeps how many positions were claimed and what became of
each.
-/

namespace Cos.Runtime

open Cos.Lib
open Function (update)

def jqSize : Nat := 256

abbrev Word := UInt64

/-- Where a thread stands in `cos_job_push` or `cos_idle_work`, with its local variables. -/
inductive Pc
  | idle
  | testReady (fn arg : Word)
  | init (fn arg : Word) (i : Nat)
  | loadEnq (fn arg : Word)
  | pushSeq (fn arg : Word) (pos : Seq)
  | claimEnq (fn arg : Word) (pos : Seq)
  | putFn (fn arg : Word) (pos : Seq)
  | putArg (arg : Word) (pos : Seq)
  | publish (pos : Seq)
  | checkReady
  | loadDeq
  | popSeq (pos : Seq)
  | claimDeq (pos : Seq)
  | getFn (pos : Seq)
  | getArg (pos : Seq) (fn : Word)
  | release (pos : Seq) (fn arg : Word)
  | run (fn arg : Word)
deriving DecidableEq

structure JobQueue where
  seq : Nat → Seq
  fn : Nat → Word
  arg : Nat → Word
  enq : Seq
  deq : Seq
  ready : Bool
  pcs : Nat → Pc

inductive JobEvent
  | quiet
  | initialised (i : Nat)
  | sawEnq
  | claimedEnq (fn arg : Word)
  | published
  | refused
  | sawDeq
  | claimedDeq
  | released
  | ran (fn arg : Word)
deriving DecidableEq

inductive JobStep
  /-- A thread enters `cos_job_push` or `cos_idle_work`. -/
  | push (t : Nat) (fn arg : Word)
  | work (t : Nat)
  /-- A thread goes on; a weak exchange may fail without a reason. -/
  | go (t : Nat) (spurious : Bool)
deriving DecidableEq

def jqSlot (pos : Seq) : Nat := pos.toNat % jqSize

section

variable (q : JobQueue) (t : Nat)

def JobQueue.goto (pc : Pc) : JobQueue := { q with pcs := update q.pcs t pc }

def jqGo (spurious : Bool) : JobEvent × JobQueue :=
  match q.pcs t with
  | .idle => (.quiet, q)
  -- jq_init
  | .testReady fn arg => (.quiet, q.goto t (if q.ready then .loadEnq fn arg else .init fn arg 0))
  | .init fn arg i =>
      if i < jqSize then
        (.initialised i, { q with seq := update q.seq i (BitVec.ofNat 32 i) }.goto t (.init fn arg (i + 1)))
      else (.quiet, { q with ready := true }.goto t (.loadEnq fn arg))
  -- cos_job_push
  | .loadEnq fn arg => (.sawEnq, q.goto t (.pushSeq fn arg q.enq))
  | .pushSeq fn arg pos =>
      let diff := Seq.diff (q.seq (jqSlot pos)) pos
      if diff = 0 then (.quiet, q.goto t (.claimEnq fn arg pos))
      else if diff < 0 then (.refused, q.goto t .idle)
      else (.quiet, q.goto t (.loadEnq fn arg))
  | .claimEnq fn arg pos =>
      if q.enq = pos ∧ spurious = false then (.claimedEnq fn arg, { q with enq := pos + 1 }.goto t (.putFn fn arg pos))
      else (.sawEnq, q.goto t (.pushSeq fn arg q.enq))
  | .putFn fn arg pos =>
    (.quiet, { q with fn := update q.fn (jqSlot pos) fn }.goto t (.putArg arg pos))
  | .putArg arg pos =>
    (.quiet, { q with arg := update q.arg (jqSlot pos) arg }.goto t (.publish pos))
  | .publish pos => (.published, { q with seq := update q.seq (jqSlot pos) (pos + 1) }.goto t .idle)
  -- cos_idle_work
  | .checkReady => (.quiet, q.goto t (if q.ready then .loadDeq else .idle))
  | .loadDeq => (.sawDeq, q.goto t (.popSeq q.deq))
  | .popSeq pos =>
      let diff := Seq.diff (q.seq (jqSlot pos)) (pos + 1)
      if diff = 0 then (.quiet, q.goto t (.claimDeq pos))
      else if diff < 0 then (.quiet, q.goto t .idle)
      else (.quiet, q.goto t .loadDeq)
  | .claimDeq pos =>
      if q.deq = pos ∧ spurious = false then (.claimedDeq, { q with deq := pos + 1 }.goto t (.getFn pos))
      else (.sawDeq, q.goto t (.popSeq q.deq))
  | .getFn pos => (.quiet, q.goto t (.getArg pos (q.fn (jqSlot pos))))
  | .getArg pos fn => (.quiet, q.goto t (.release pos fn (q.arg (jqSlot pos))))
  | .release pos fn arg =>
      (.released, { q with seq := update q.seq (jqSlot pos) (pos + BitVec.ofNat 32 jqSize) }.goto t (.run fn arg))
  | .run fn arg => (.ran fn arg, q.goto t .idle)

end

def jqStep (q : JobQueue) : JobStep → JobEvent × JobQueue
  | .push t fn arg => (.quiet, if q.pcs t = .idle then q.goto t (.testReady fn arg) else q)
  | .work t => (.quiet, if q.pcs t = .idle then q.goto t .checkReady else q)
  | .go t spurious => jqGo q t spurious

inductive Phase
  | untouched
  | writing (t : Nat)
  | published
  | taken (t : Nat)
  /-- The slot was given back, and the job is about to run. -/
  | left (t : Nat)
  | done
deriving DecidableEq

def Phase.free : Phase → Bool
  | .left _ | .done => true
  | _ => false

def Phase.away : Phase → Bool
  | .taken _ | .left _ | .done => true
  | _ => false

structure JobWorld where
  q : JobQueue
  claimed : List (Word × Word)
  takes : Nat
  phase : Nat → Phase
  /-- The position that a thread last read or claimed. -/
  spot : Nat → Nat
  inited : Nat → Bool
  accepted : List Nat
  ran : List (Nat × Word × Word)
  /-- How many slots were in use whenever a push failed. -/
  refusals : List Nat

namespace JobWorld

variable (w : JobWorld)

def claims : Nat := w.claimed.length

def inUse : Nat := (List.range w.claims).countP fun p => ! (w.phase p).free

def record (t : Nat) : JobEvent → JobWorld
  | .quiet => w
  | .initialised i => { w with inited := update w.inited i true }
  | .sawEnq => { w with spot := update w.spot t w.claims }
  | .claimedEnq fn arg =>
      { w with
        claimed := w.claimed ++ [(fn, arg)]
        phase := update w.phase w.claims (.writing t)
        spot := update w.spot t w.claims }
  | .published =>
      { w with phase := update w.phase (w.spot t) .published, accepted := w.accepted ++ [w.spot t] }
  | .refused => { w with refusals := w.refusals ++ [w.inUse] }
  | .sawDeq => { w with spot := update w.spot t w.takes }
  | .claimedDeq =>
      { w with
        takes := w.takes + 1
        phase := update w.phase w.takes (.taken t)
        spot := update w.spot t w.takes }
  | .released => { w with phase := update w.phase (w.spot t) (.left t) }
  | .ran fn arg =>
      { w with phase := update w.phase (w.spot t) .done, ran := w.ran ++ [(w.spot t, fn, arg)] }

end JobWorld

def JobStep.thread : JobStep → Nat
  | .push t _ _ => t
  | .work t => t
  | .go t _ => t

def jobStep (w : JobWorld) (label : JobStep) : JobWorld :=
  match jqStep w.q label with
  | (event, q) => { w.record label.thread event with q := q }

def startJobs : JobWorld where
  q := ⟨fun _ => 0, fun _ => 0, fun _ => 0, 0, 0, false, fun _ => .idle⟩
  claimed := []
  takes := 0
  phase := fun _ => .untouched
  spot := fun _ => 0
  inited := fun _ => false
  accepted := []
  ran := []
  refusals := []

end Cos.Runtime
