import Cos.Lib.Ring
import Cos.Lib.Run
import Cos.Lib.Words
import Mathlib.Data.List.Basic

/-! # Unix sockets

One direction of a connected unix socket: the pipe of `upair_send` and `upair_recv`, with the
calls that send on it.  Each part of a call that runs with the kernel lock held is one step.
-/

namespace Cos.Linux

open Cos.Lib

def add64 (a b : Nat) : Nat := (a + b) % 2 ^ 64

theorem add64_of_lt {a b : Nat} (small : a + b < 2 ^ 64) : add64 a b = a + b :=
  Nat.mod_eq_of_lt small

/-- Descriptors in flight, tagged with the stream offset of the data they travel with. -/
structure AncEntry where
  at_ : Nat
  fds : List Nat
deriving DecidableEq, Repr

/-- `pipe_t`. -/
structure UPipe where
  buf : Nat → UInt8
  cap : Nat
  len : Nat
  head : Nat
  readers : Int
  writers : Int
  packet : Bool
  wtotal : Nat
  rtotal : Nat
  anc : List AncEntry

/-- `LX_MAX_ANC`, `LX_ANC_FDS`. -/
def maxAnc : Nat := 16
def ancFds : Nat := 16

/-- The pipe of `pipe_new`, with one reader and one writer. -/
def pipeNew (packet : Bool) : UPipe := ⟨fun _ => 0, 65536, 0, 0, 1, 1, packet, 0, 0, []⟩

/-- A message's descriptors go to the end of the ancillary queue. -/
def UPipe.tag (q : UPipe) (fds : List Nat) : UPipe :=
  if fds = [] then q else { q with anc := q.anc ++ [⟨q.wtotal, fds⟩] }

def UPipe.put (q : UPipe) (data : List UInt8) : UPipe :=
  { q with
    buf := ringPut q.cap data (q.head + q.len) q.buf
    len := q.len + data.length
    wtotal := add64 q.wtotal data.length }

def headerBytes (n : Nat) : List UInt8 := wordBytes 4 n

/-- A call of `upair_send`; `result` is what it returned. -/
structure SendCall where
  data : List UInt8
  fds : List Nat
  nb : Bool
  done : Nat
  result : Option Int
deriving DecidableEq, Repr

inductive UnixEvent where
  /-- Bytes of a call, and descriptors, were queued. -/
  | accepted (call : Nat) (data : List UInt8) (fds : List Nat)
  | received (room : Nat) (peek : Bool) (data : List UInt8) (fds : List Nat) (trunc : Bool)
  /-- A receive gave descriptors back that its caller does not take. -/
  | closed (fds : List Nat)
  /-- `pipe_free` released the descriptors of the queue. -/
  | freed (lists : List (List Nat))
deriving DecidableEq, Repr

/-- What `upair_send` returns without touching the queue; `shut` is the write side shut down. -/
def sendRefused (q : UPipe) (shut : Bool) (data : List UInt8) (fds : List Nat) : Option Int :=
  if shut then some (-32)
  else if fds.length > ancFds then some (-22)
  else if q.packet then if data.length + 4 > q.cap then some (-90) else none
  else if data = [] ∧ fds = [] then some 0
  else none

def SendCall.giveUp (call : SendCall) (interrupted : Bool) : Option Int :=
  if call.done ≠ 0 ∧ (call.nb ∨ interrupted) then some call.done
  else if call.nb then some (-11)
  else if interrupted then some (-4)
  else none

/-- The locked part of `upair_send` on a packet socket. -/
def packetTurn (number : Nat) (interrupted : Bool) (call : SendCall) (q : UPipe) :
    SendCall × UPipe × List UnixEvent :=
  if q.readers ≤ 0 then ({ call with result := some (-32) }, q, [])
  else if call.data.length + 4 ≤ q.cap - q.len ∧ (call.fds = [] ∨ q.anc.length < maxAnc) then
    ({ call with done := call.data.length, result := some call.data.length },
      (q.tag call.fds).put (headerBytes call.data.length ++ call.data),
      [.accepted number call.data call.fds])
  else ({ call with result := call.giveUp interrupted }, q, [])

/-- One round of the loop of `upair_send` on a stream socket. -/
def streamTurn (number : Nat) (interrupted : Bool) (call : SendCall) (q : UPipe) :
    SendCall × UPipe × List UnixEvent :=
  if q.readers ≤ 0 then
    ({ call with result := some (if call.done ≠ 0 then call.done else -32) }, q, [])
  else if q.cap - q.len ≠ 0 ∧ (call.done ≠ 0 ∨ call.fds = [] ∨ q.anc.length < maxAnc) then
    let k := min (call.data.length - call.done) (q.cap - q.len)
    let chunk := (call.data.drop call.done).take k
    let fds := if call.done = 0 then call.fds else []
    let done := call.done + k
    ({ call with done := done, result := if done < call.data.length then none else some done },
      (q.tag fds).put chunk, [.accepted number chunk fds])
  else ({ call with result := call.giveUp interrupted }, q, [])

def sendTurn (number : Nat) (interrupted : Bool) (call : SendCall) (q : UPipe) :
    SendCall × UPipe × List UnixEvent :=
  if q.packet then packetTurn number interrupted call q else streamTurn number interrupted call q

/-- What a turn of `upair_recv` comes to. -/
inductive RecvOutcome where
  | waits
  | returns (value : Int)
  | takes (data : List UInt8) (fds closed : List Nat) (trunc : Bool)
deriving DecidableEq, Repr

/-- How many bytes a stream receive takes: data of the next message with descriptors is read
separately. -/
def UPipe.streamTake (q : UPipe) (room : Nat) : Nat :=
  match q.anc.find? fun entry => q.rtotal < entry.at_ with
  | some entry => min (min room q.len) (entry.at_ - q.rtotal)
  | none => min room q.len

def UPipe.atRead (q : UPipe) : Option AncEntry :=
  q.anc.head?.filter fun entry => entry.at_ = q.rtotal

/-- The read position moves on, and the descriptors there leave the queue. -/
def UPipe.advance (q : UPipe) (adv : Nat) : UPipe :=
  { q with
    anc := if q.atRead.isSome then q.anc.tail else q.anc
    head := (q.head + adv) % q.cap
    len := q.len - adv
    rtotal := add64 q.rtotal adv }

/-- One turn of `upair_recv`; `shut` is the read side shut down, and the caller `wants` descriptors
if it gives an array for them. -/
def recvTurn (shut nb interrupted wants : Bool) (room : Nat) (peek : Bool) (q : UPipe) :
    RecvOutcome × UPipe :=
  if q.len = 0 then
    (if q.writers ≤ 0 ∨ shut then .returns 0
      else if nb then .returns (-11)
      else if interrupted then .returns (-4)
      else .waits, q)
  else
    let size := wordValue (ringGet q.cap q.buf 4 q.head)
    let taken := if q.packet then min room size else q.streamTake room
    let trunc := q.packet && decide (room < size)
    let data := ringGet q.cap q.buf taken (q.head + if q.packet then 4 else 0)
    let fds := (q.atRead.map AncEntry.fds).getD []
    if peek then (.takes data [] [] trunc, q)
    else
      (.takes data (if wants then fds else []) (if wants then [] else fds) trunc,
        q.advance (if q.packet then 4 + size else taken))

/-- The end of `upair_msg`: as many descriptors are installed as the control buffer and the
descriptor table have room for. -/
def RecvOutcome.install (fit : Nat) : RecvOutcome → RecvOutcome
  | .takes data fds closed trunc => .takes data (fds.take fit) (closed ++ fds.drop fit) trunc
  | outcome => outcome

def pipeFree (q : UPipe) : UPipe × List UnixEvent :=
  ({ q with anc := [], len := 0, readers := 0, writers := 0 }, [.freed (q.anc.map AncEntry.fds)])

/-- A direction: its pipe, the sends made so far and what happened at the queue, oldest first. -/
structure UnixQueue where
  pipe : UPipe
  calls : List SendCall
  events : List UnixEvent

inductive UnixOp where
  | send (data : List UInt8) (fds : List Nat) (shut nb : Bool)
  | sendTurn (number : Nat) (interrupted : Bool)
  /-- `recvmsg` with room for `fit` descriptors, or `read` and `recvfrom`, which take none. -/
  | recv (room : Nat) (peek shut nb interrupted : Bool) (fit : Option Nat)
  /-- A side is shut down or closed. -/
  | dropReader
  | dropWriter
  /-- The last description is gone. -/
  | free
deriving DecidableEq, Repr

def RecvOutcome.events (room : Nat) (peek : Bool) : RecvOutcome → List UnixEvent
  | .takes data fds closed trunc =>
    .received room peek data fds trunc :: if closed = [] then [] else [.closed closed]
  | _ => []

def unixStep (state : UnixQueue) : UnixOp → UnixQueue
  | .send data fds shut nb =>
      { state with calls := state.calls ++ [⟨data, fds, nb, 0, sendRefused state.pipe shut data fds⟩] }
  | .sendTurn number interrupted =>
      match (state.calls[number]?).filter fun call => call.result = none with
      | none => state
      | some call =>
          let turn := sendTurn number interrupted call state.pipe
          ⟨turn.2.1, state.calls.set number turn.1, state.events ++ turn.2.2⟩
  | .recv room peek shut nb interrupted fit =>
      let turn := recvTurn shut nb interrupted fit.isSome room peek state.pipe
      { state with pipe := turn.2, events := state.events ++ (turn.1.install (fit.getD 0)).events room peek }
  | .dropReader => { state with pipe := { state.pipe with readers := state.pipe.readers - 1 } }
  | .dropWriter => { state with pipe := { state.pipe with writers := state.pipe.writers - 1 } }
  | .free =>
      if state.pipe.readers ≤ 0 ∧ state.pipe.writers ≤ 0 then
        let done := pipeFree state.pipe
        { state with pipe := done.1, events := state.events ++ done.2 }
      else state

def pairStep (state : Bool → UnixQueue) (op : Bool × UnixOp) : Bool → UnixQueue :=
  Function.update state op.1 (unixStep (state op.1) op.2)

def pairStart (packet : Bool) : Bool → UnixQueue := fun _ => ⟨pipeNew packet, [], []⟩

end Cos.Linux
