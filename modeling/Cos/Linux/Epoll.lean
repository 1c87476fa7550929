import Cos.Linux.UnixQueue

/-! # epoll

The descriptors of a process, the descriptions behind them, and what `epoll_wait` reports of them. 
A call that waits is several steps: a round of a write, a scan of `epoll_wait`.
-/

namespace Cos.Epoll

open Cos.Lib Cos.Linux
open Function (update)

/-- `LX_MAX_FD` and `LX_EP_MAX`. -/
def lxMaxFd : Nat := 1024
def lxEpMax : Nat := 1024

inductive OfdKind where
  | none
  | pipeR (pipe : Nat)
  | pipeW (pipe : Nat)
  /-- `pipe`, that it reads, and `pipe2`, that it writes. -/
  | upair (pipe pipe2 : Nat)
  | event
  | epoll
deriving DecidableEq, Repr

/-- `struct epent`.  `target` and `fresh` are not in the source, and nothing decides by them: the
description that the descriptor had when it was added, and whether something was written there after
the last report. -/
structure Watch where
  fd : Nat
  ev : BitVec 32
  data : Nat
  last : BitVec 32
  lastver : Nat
  target : Nat
  fresh : Bool
deriving DecidableEq, Repr

/-- `ofd_t`; `semaphore` is the lowest bit of `efd_flags`. -/
structure WaitOfd where
  ref : Int
  kind : OfdKind
  counter : Nat
  ver : Nat
  semaphore : Bool
  ep : List Watch
  dead : Bool

structure WaitState where
  ofd : Nat → WaitOfd
  nofd : Nat
  pipe : Nat → UPipe
  npipe : Nat
  slot : Nat → Option Nat

namespace WaitState

def setOfd (s : WaitState) (o : Nat) (d : WaitOfd) : WaitState := { s with ofd := update s.ofd o d }

def setPipe (s : WaitState) (q : Nat) (p : UPipe) : WaitState :=
  { s with pipe := update s.pipe q p }

def setSlot (s : WaitState) (fd : Nat) (o : Option Nat) : WaitState :=
  { s with slot := update s.slot fd o }

/-- `F`. -/
def find (s : WaitState) (fd : Nat) : Option Nat := if fd < lxMaxFd then s.slot fd else none

/-- `fd_alloc_from`. -/
@[irreducible] def fdAlloc (s : WaitState) : Option Nat :=
  (List.range lxMaxFd).find? fun fd => (s.slot fd).isNone

/-- The two descriptors of a new pair; the first is taken while the second is looked for. -/
def fdAllocTwo (s : WaitState) : Option (Nat × Nat) :=
  match s.fdAlloc with
  | none => none
  | some first => ((s.setSlot first (some 0)).fdAlloc).map fun second => (first, second)

/-- `ofd_new`, and the descriptor that it gets. -/
def install (s : WaitState) (fd : Nat) (d : WaitOfd) : WaitState :=
  { s with ofd := update s.ofd s.nofd d, nofd := s.nofd + 1, slot := update s.slot fd (some s.nofd) }

def pipeNew (s : WaitState) (packet : Bool) : WaitState :=
  { s with pipe := update s.pipe s.npipe (Linux.pipeNew packet), npipe := s.npipe + 1 }

end WaitState

def WaitOfd.new (kind : OfdKind) : WaitOfd := ⟨1, kind, 0, 0, false, [], false⟩

def sysPipe (s : WaitState) : WaitState :=
  match s.fdAllocTwo with
  | none => s
  | some (fr, fw) => ((s.pipeNew false).install fr (.new (.pipeR s.npipe))).install fw (.new (.pipeW s.npipe))

def sysSocketpair (packet : Bool) (s : WaitState) : WaitState :=
  match s.fdAllocTwo with
  | none => s
  | some (fa, fb) =>
      let p1 := s.npipe
      let p2 := s.npipe + 1
      (((s.pipeNew packet).pipeNew packet).install fa (.new (.upair p2 p1))).install fb (.new (.upair p1 p2))

def sysEventfd (counter : Nat) (semaphore : Bool) (s : WaitState) : WaitState :=
  match s.fdAlloc with
  | none => s
  | some n => s.install n { WaitOfd.new .event with counter := counter % 2 ^ 32, semaphore := semaphore }

def epollCreate (s : WaitState) : WaitState :=
  match s.fdAlloc with
  | none => s
  | some n => s.install n (.new .epoll)

/-- A side of a pipe is given up, and the pipe with its last side. -/
def leavePipe (q : Nat) (leave : UPipe → UPipe) (s : WaitState) : WaitState :=
  let p := leave (s.pipe q)
  s.setPipe q (if p.readers ≤ 0 ∧ p.writers ≤ 0 then (pipeFree p).1 else p)

def leaveReader (p : UPipe) : UPipe := { p with readers := p.readers - 1 }

def leaveWriter (p : UPipe) : UPipe := { p with writers := p.writers - 1 }

def ofdRetire (o : Nat) (s : WaitState) : WaitState :=
  s.setOfd o { s.ofd o with kind := .none, counter := 0, ep := [], dead := true }

def ofdUnref (o : Nat) (s : WaitState) : WaitState :=
  if (s.ofd o).dead then s
  else
    let s := s.setOfd o { s.ofd o with ref := (s.ofd o).ref - 1 }
    if 0 < (s.ofd o).ref then s
    else
      let s := match (s.ofd o).kind with
        | .pipeR q => leavePipe q leaveReader s
        | .pipeW q => leavePipe q leaveWriter s
        | .upair r w => leavePipe w leaveWriter (leavePipe r leaveReader s)
        | _ => s
      ofdRetire o s

def fdCloseSlot (fd : Nat) (s : WaitState) : WaitState :=
  match s.find fd with
  | none => s
  | some o => (ofdUnref o s).setSlot fd none

def shareSlot (fd o : Nat) (s : WaitState) : WaitState :=
  (s.setSlot fd (some o)).setOfd o { s.ofd o with ref := (s.ofd o).ref + 1 }

def sysDup (fd : Nat) (s : WaitState) : WaitState :=
  match s.find fd, s.fdAlloc with
  | some o, some n => shareSlot n o s
  | _, _ => s

def sysDup2 (fd fd2 : Nat) (s : WaitState) : WaitState :=
  match s.find fd with
  | none => s
  | some o => if fd2 < lxMaxFd ∧ fd ≠ fd2 then shareSlot fd2 o (fdCloseSlot fd2 s) else s

def WaitState.reads (s : WaitState) (q o : Nat) : Bool :=
  match (s.ofd o).kind with
  | .pipeR p => p == q
  | .upair p _ => p == q
  | _ => false

/-- Something was written for the descriptions that `hit` says. -/
def WaitState.freshen (s : WaitState) (hit : Nat → Bool) : WaitState :=
  { s with ofd := fun e => { s.ofd e with
      ep := (s.ofd e).ep.map fun w => if hit w.target then { w with fresh := true } else w } }

/-- A round of the loop of `ofd_write` on a pipe. -/
def pipeFill (data : List UInt8) (p : UPipe) : UPipe :=
  if p.readers ≤ 0 then p else { p.put (data.take (p.cap - p.len)) with wtotal := p.wtotal }

/-- A round of `upair_send`. -/
def upairFill (data : List UInt8) (p : UPipe) : UPipe :=
  if (sendRefused p false data []).isSome then p
    else (sendTurn 0 false ⟨data, [], true, 0, none⟩ p).2.1

def WaitState.fillPipe (s : WaitState) (q : Nat) (p : UPipe) : WaitState :=
  if (s.pipe q).len < p.len then (s.setPipe q p).freshen (s.reads q) else s

/-- `ofd_write` of a description. -/
def ofdWrite (o : Nat) (data : List UInt8) (s : WaitState) : WaitState :=
  match (s.ofd o).kind with
  | .pipeW q => s.fillPipe q (pipeFill data (s.pipe q))
  | .upair _ q => s.fillPipe q (upairFill data (s.pipe q))
  | .event =>
      let v := wordValue (data.take 8)
      if data.length < 8 ∨ v = 2 ^ 64 - 1 then s
      else
        (s.setOfd o { s.ofd o with counter := add64 (s.ofd o).counter v, ver := add64 (s.ofd o).ver 1 }).freshen
          fun target => target == o
  | _ => s

def sysWrite (fd : Nat) (data : List UInt8) (s : WaitState) : WaitState :=
  match s.find fd with
  | none => s
  | some o => if data = [] then s else ofdWrite o data s

/-- `ofd_read` of a pipe that has data. -/
def pipeDrain (n : Nat) (p : UPipe) : UPipe :=
  { p with head := (p.head + min n p.len) % p.cap, len := p.len - min n p.len }

def ofdRead (o n : Nat) (s : WaitState) : WaitState :=
  match (s.ofd o).kind with
  | .pipeR q => s.setPipe q (pipeDrain n (s.pipe q))
  | .upair q _ => s.setPipe q (recvTurn false true false false n false (s.pipe q)).2
  | .event =>
      if n < 8 then s
      else s.setOfd o { s.ofd o with counter := if (s.ofd o).semaphore then (s.ofd o).counter - 1 else 0 }
  | _ => s

def sysRead (fd n : Nat) (s : WaitState) : WaitState :=
  match s.find fd with
  | none => s
  | some o => if n = 0 then s else ofdRead o n s

def pollIn : BitVec 32 := 1
def pollOut : BitVec 32 := 4
def pollErr : BitVec 32 := 8
def pollHup : BitVec 32 := 0x10

def bitsIf (holds : Prop) [Decidable holds] (bits : BitVec 32) : BitVec 32 :=
  if holds then bits else 0

def WaitState.version (s : WaitState) (o : Nat) : Nat :=
  match (s.ofd o).kind with
  | .pipeR q | .upair q _ => add64 (s.pipe q).wtotal (if (s.pipe q).writers ≤ 0 then 1 else 0)
  | .event => (s.ofd o).ver
  | _ => 0

def WaitState.ready (s : WaitState) (o : Nat) : BitVec 32 :=
  match (s.ofd o).kind with
  | .pipeR q => bitsIf ((s.pipe q).len ≠ 0) pollIn ||| bitsIf ((s.pipe q).writers ≤ 0) pollHup
  | .pipeW q => bitsIf ((s.pipe q).len < (s.pipe q).cap) pollOut ||| bitsIf ((s.pipe q).readers ≤ 0) pollErr
  | .upair q q2 =>
      bitsIf ((s.pipe q).len ≠ 0) pollIn ||| bitsIf ((s.pipe q).writers ≤ 0) (pollHup ||| pollIn ||| 0x2000) |||
        bitsIf ((s.pipe q2).len < (s.pipe q2).cap ∧ 0 < (s.pipe q2).readers) pollOut |||
        bitsIf ((s.pipe q2).readers ≤ 0) pollErr
  | .event => bitsIf ((s.ofd o).counter ≠ 0) pollIn ||| pollOut
  | _ => 0

def Watch.isEdge (w : Watch) : Prop := w.ev &&& 0x80000000 ≠ 0

def Watch.isOneShot (w : Watch) : Prop := w.ev &&& 0x40000000 ≠ 0

instance (w : Watch) : Decidable w.isEdge := inferInstanceAs (Decidable (_ ≠ _))
instance (w : Watch) : Decidable w.isOneShot := inferInstanceAs (Decidable (_ ≠ _))

/-- What a scan reports of a watch: all of what is ready, or with `EPOLLET` what is new. -/
def WaitState.news (s : WaitState) (w : Watch) (t : Nat) : BitVec 32 :=
  let cur := s.ready t &&& (w.ev ||| pollErr ||| pollHup)
  if w.ev &&& 0x3FFFFFFF = 0 then 0
  else if w.isEdge then cur &&& (~~~w.last ||| if s.version t ≠ w.lastver then 0xFFFFFFFF else 0)
  else cur

/-- The watch after a scan; `writable` is that the buffer of the caller takes the report. -/
def WaitState.scanned (s : WaitState) (writable : Bool) (w : Watch) (t : Nat) : Watch :=
  let rd := s.news w t
  let edge := w.isEdge
  { w with
    last := if edge then s.ready t &&& (w.ev ||| pollErr ||| pollHup) else w.last
    lastver := if edge then s.version t else w.lastver
    ev := if rd ≠ 0 ∧ w.isOneShot then w.ev &&& 0xC0000000 else w.ev
    fresh := w.fresh && !(writable && rd.getLsbD 0) }

/-- The loop of `epoll_wait` over the watches, `n` of which were reported before: the watches after
it, and the reports with the watch that each is of. -/
def WaitState.scan (s : WaitState) (writable : Bool) (maxev : Nat) :
    List Watch → Nat → List Watch × List (Watch × BitVec 32)
  | [], _ => ([], [])
  | w :: rest, n =>
      if n < maxev then
        match s.find w.fd with
        | none =>
            let after := scan s writable maxev rest n
            (w :: after.1, after.2)
        | some t =>
            let rd := s.news w t
            if rd = 0 then
              let after := scan s writable maxev rest n
              (s.scanned writable w t :: after.1, after.2)
            else
              let after := scan s writable maxev rest (n + 1)
              (s.scanned writable w t :: after.1, (w, rd) :: after.2)
      else (w :: rest, [])

def WaitState.epollOf (s : WaitState) (epfd : Nat) : Option Nat :=
  (s.find epfd).filter fun e => decide ((s.ofd e).kind = .epoll)

/-- What a scan of `epoll_wait` reports. -/
def WaitState.reports (s : WaitState) (e maxev : Nat) : List (Watch × BitVec 32) :=
  (s.scan true (min maxev 128) (s.ofd e).ep 0).2

/-- A scan of `epoll_wait`. -/
def epollWait (epfd maxev : Nat) (writable : Bool) (s : WaitState) : WaitState :=
  match s.epollOf epfd with
  | none => s
  | some e => s.setOfd e { s.ofd e with ep := (s.scan writable (min maxev 128) (s.ofd e).ep 0).1 }

inductive CtlOp where
  | add
  | del
  | mod
deriving DecidableEq, Repr

def watchIndex (ep : List Watch) (fd : Nat) : Option Nat :=
  ep.zipIdx.foldl (fun idx entry => if entry.1.fd = fd then some entry.2 else idx) none

def dropWatch (ep : List Watch) (idx : Nat) : List Watch :=
  match ep.getLast? with
  | none => []
  | some last => (ep.set idx last).dropLast

/-- The watches after `epoll_ctl` of descriptor `fd` with description `t`; `event` is `none` when it
cannot be read, `made` is that the memory is there. -/
def ctlWatches (op : CtlOp) (fd t : Nat) (event : Option (BitVec 32 × Nat)) (made : Bool)
    (ep : List Watch) : List Watch :=
  match op, watchIndex ep fd, event with
  | .del, some idx, _ => dropWatch ep idx
  | .add, none, some (ev, data) =>
      if made ∧ ep.length < lxEpMax then ep ++ [⟨fd, ev, data, 0, 0, t, true⟩] else ep
  | .mod, some idx, some (ev, data) =>
      ep.modify idx fun w => { w with ev := ev, data := data, last := 0, lastver := 0, fresh := true }
  | _, _, _ => ep

def epollCtl (epfd : Nat) (op : CtlOp) (fd : Nat) (event : Option (BitVec 32 × Nat)) (made : Bool)
    (s : WaitState) : WaitState :=
  match s.epollOf epfd, s.find fd with
  | some e, some t => s.setOfd e { s.ofd e with ep := ctlWatches op fd t event made (s.ofd e).ep }
  | _, _ => s

end Cos.Epoll
