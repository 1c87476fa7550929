import Mathlib.Data.List.Basic
import Cos.Lib.Run
import Cos.Lib.Words

/-! # Signals of Linux programs

Raising, blocking, delivery at the end of a system call, and the return from a handler.  User code
may do anything between two system calls, so that the registers, the FPU state and the memory of
the calling thread are given with each call.
-/

namespace Cos.Linux

open Cos.Lib

/-- A `uint64_t` that is used as a set of bits. -/
abbrev Word := BitVec 64

/-- `struct regs`. -/
structure Regs where
  r15 : Word
  r14 : Word
  r13 : Word
  r12 : Word
  r11 : Word
  r10 : Word
  r9 : Word
  r8 : Word
  rbp : Word
  rdi : Word
  rsi : Word
  rdx : Word
  rcx : Word
  rbx : Word
  rax : Word
  intNo : Word
  errCode : Word
  rip : Word
  cs : Word
  rflags : Word
  rsp : Word
  ss : Word
deriving DecidableEq, Repr

def Regs.words (r : Regs) : List Word :=
  [r.r15, r.r14, r.r13, r.r12, r.r11, r.r10, r.r9, r.r8, r.rbp, r.rdi, r.rsi, r.rdx, r.rcx, r.rbx,
    r.rax, r.intNo, r.errCode, r.rip, r.cs, r.rflags, r.rsp, r.ss]

/-- The registers in the order of `uc_mcontext.gregs`. -/
def Regs.gregs (r : Regs) : List Word :=
  [r.r8, r.r9, r.r10, r.r11, r.r12, r.r13, r.r14, r.r15, r.rdi, r.rsi, r.rbp, r.rbx, r.rdx, r.rax,
    r.rcx, r.rsp, r.rip, r.rflags]

/-- The thread that makes a system call: its register frame, the FPU image parked below it and the
memory of its process. -/
structure UserContext where
  regs : Regs
  fpu : List UInt8
  mem : Word → UInt8

/-- `rt_sigaction`; handler 0 is `LX_SIG_DFL`, 1 is `LX_SIG_IGN`. -/
structure SigAction where
  handler : Word
  flags : Word
  restorer : Word
  mask : Word
deriving DecidableEq, Repr

def sigBit (s : Nat) : Word := BitVec.twoPow 64 (s - 1)

/-- `L_SA_RESTART`, `L_SA_NODEFER`, `L_SA_RESETHAND`. -/
def saRestart : Word := 0x10000000
def saNodefer : Word := 0x40000000
def saResethand : Word := 0x80000000

def sigDefaultEnds (s : Nat) : Bool := !([17, 18, 19, 20, 21, 22, 23, 28].contains s)

def ignores (s : Nat) (handler : Word) : Bool := handler == 1 || (handler == 0 && !sigDefaultEnds s)

inductive SigEvent where
  /-- The signal became pending. -/
  | raised (s : Nat)
  /-- A handler ran or the process ended, with the blocked signals of that moment. -/
  | acted (s : Nat) (blocked : Word)
  /-- The signal is no longer pending since its handler ignores it. -/
  | discarded (s : Nat) (handler : Word)
deriving DecidableEq, Repr

/-- A handler that was started: the state to come back to, and the frame written for it. -/
structure Delivery where
  saved : Regs
  fpu : List UInt8
  blocked : Word
  sp : Word
  frame : List UInt8

/-- The signals of a process, and for the record what happened to them. -/
structure SigProc where
  actions : Nat → SigAction
  pending : Word
  blocked : Word
  alarm : Nat
  alive : Bool
  parent : Option Nat
  events : List SigEvent
  deliveries : List Delivery

def SigProc.raising (p : SigProc) (s : Nat) : List SigEvent :=
  if p.pending.getLsbD (s - 1) then [] else [.raised s]

def sigRaise (s : Nat) (p : SigProc) : SigProc :=
  if s < 1 ∨ 64 < s then p
  else if ignores s (p.actions s).handler then p
  else { p with pending := p.pending ||| sigBit s, events := p.events ++ p.raising s }

def sigPollTimers (now : Nat) (p : SigProc) : SigProc :=
  if p.alarm ≠ 0 ∧ p.alarm ≤ now then sigRaise 14 { p with alarm := 0 } else p

def endBySignal (s : Nat) (p : SigProc) : SigProc :=
  { p with alive := false, events := p.events ++ [.acted s p.blocked] }

def killNow (s : Nat) (p : SigProc) : SigProc :=
  { p with alive := false, events := p.events ++ (p.raising s ++ [.acted s p.blocked]) }

def frameSize : Nat := 1856

def bytesOf (words : List Word) : List UInt8 := words.flatMap fun word => wordBytes 8 word.toNat

/-- `sigframe_t`: the return address, the registers, the blocked signals, the `siginfo_t`, the
`ucontext_t` with the registers at offset 40, and the FPU image. -/
def sigFrame (s : Nat) (restorer : Word) (saved : Regs) (blocked : Word) (fpu : List UInt8) :
    List UInt8 :=
  bytesOf (restorer :: (saved.words ++ (blocked :: (BitVec.ofNat 64 s :: List.replicate 15 0) ++
    (List.replicate 5 0 ++ saved.gregs ++ List.replicate 41 0)))) ++ fpu

def readBytes (mem : Word → UInt8) (addr : Word) (count : Nat) : List UInt8 :=
  (List.range count).map fun i => mem (addr + BitVec.ofNat 64 i)

def writeBytes (mem : Word → UInt8) (addr : Word) (bytes : List UInt8) (at_ : Word) : UInt8 :=
  (bytes[(at_ - addr).toNat]?).getD (mem at_)

def frameWord (bytes : List UInt8) (k : Nat) : Word :=
  BitVec.ofNat 64 (wordValue ((bytes.drop (8 * k)).take 8))

/-- The range check of `ensure_user`. -/
def userRange (addr : Word) (len : Nat) : Bool :=
  decide (0x8000000000 ≤ addr.toNat ∧ addr.toNat + len ≤ 0x800000000000)

def frameAt (rsp : Word) : Word := ((rsp - 144 - BitVec.ofNat 64 frameSize) &&& ~~~15) + 8

/-- The registers a handler comes back to; an interrupted call is made again if the action asks for
it. -/
def savedRegs (action : SigAction) (nr res : Word) (r : Regs) : Regs :=
  if res = -4 ∧ action.flags &&& saRestart ≠ 0 then { r with rax := nr, rip := r.rip - 2 } else r

/-- What a delivery and a return meet: whether the frame can be allocated and the user stack can be
written or read. -/
structure SigLuck where
  memory : Bool
  stack : Bool
deriving DecidableEq, Repr

def lowestSignal (set : Word) : Option Nat :=
  ((List.range 64).find? fun i => set.getLsbD i).map (· + 1)

def startHandler (luck : SigLuck) (s : Nat) (nr res : Word) (ctx : UserContext) (p : SigProc) :
    SigProc × UserContext :=
  let action := p.actions s
  let saved := savedRegs action nr res ctx.regs
  let frame := sigFrame s action.restorer saved p.blocked ctx.fpu
  let sp := frameAt ctx.regs.rsp
  let actions := if action.flags &&& saResethand ≠ 0 then Function.update p.actions s { action with handler := 0 }
    else p.actions
  if luck.stack && userRange sp frameSize then
    ({ p with
        actions := actions
        blocked := p.blocked ||| action.mask ||| if action.flags &&& saNodefer ≠ 0 then 0 else sigBit s
        events := p.events ++ [.acted s p.blocked]
        deliveries := p.deliveries ++ [⟨saved, ctx.fpu, p.blocked, sp, frame⟩] },
      { ctx with
        regs := { ctx.regs with
          rsp := sp, rip := action.handler, rdi := BitVec.ofNat 64 s, rsi := sp + 192, rdx := sp + 320, rax := 0 }
        mem := writeBytes ctx.mem sp frame })
  else (endBySignal 11 { p with actions := actions }, ctx)

/-- The loop of `deliver_signals`: each round takes one signal. -/
def deliverLoop (luck : SigLuck) (nr res : Word) (ctx : UserContext) :
    Nat → SigProc → SigProc × UserContext
  | 0, p => (p, ctx)
  | rounds + 1, p =>
      match lowestSignal (p.pending &&& ~~~p.blocked) with
      | none => (p, ctx)
      | some s =>
          let taken := { p with pending := p.pending &&& ~~~(sigBit s) }
          let handler := (p.actions s).handler
          if ignores s handler then
            deliverLoop luck nr res ctx rounds { taken with events := p.events ++ [.discarded s handler] }
          else if handler = 0 then (endBySignal s taken, ctx)
          else if luck.memory = false then (taken, ctx)
          else startHandler luck s nr res ctx taken

/-- `deliver_signals`; there are no more rounds than signals. -/
def deliverSignals (luck : SigLuck) (nr res : Word) (ctx : UserContext) (p : SigProc) :
    SigProc × UserContext :=
  deliverLoop luck nr res ctx 64 p

def setWord (bytes : List UInt8) (at_ width value : Nat) : List UInt8 :=
  bytes.take at_ ++ (wordBytes width value ++ bytes.drop (at_ + width))

def wordAt (bytes : List UInt8) (at_ width : Nat) : Nat := wordValue ((bytes.drop at_).take width)

/-- The `MXCSR_MASK` of an image. -/
def mxcsrMask (bytes : List UInt8) : Nat :=
  if wordAt bytes 28 4 = 0 then 0xFFBF else wordAt bytes 28 4

/-- `cos_fpu_sanitize`; `xsave` is `cos_xsave_on`. -/
def fpuSanitize (xsave : Bool) (bytes : List UInt8) : List UInt8 :=
  let masked := setWord bytes 24 4 (wordAt bytes 24 4 &&& mxcsrMask bytes)
  if xsave then
    let header := setWord masked 512 8 (wordAt masked 512 8 &&& 7)
    header.take 520 ++ (List.replicate 56 0 ++ header.drop 576)
  else masked

/-- `do_sigreturn`: the blocked signals and the state of the thread, or the error. -/
def doSigreturn (xsave : Bool) (luck : SigLuck) (ctx : UserContext) :
    Word ⊕ (Word × Regs × List UInt8) :=
  if luck.memory = false then .inl (-12)
  else if !(luck.stack && userRange (ctx.regs.rsp - 8) frameSize) then .inl (-14)
  else
    let bytes := readBytes ctx.mem (ctx.regs.rsp - 8) frameSize
    let g := fun k => frameWord bytes (45 + k)
    .inr (frameWord bytes 23 &&& ~~~(sigBit 9),
      { ctx.regs with
        r8 := g 0, r9 := g 1, r10 := g 2, r11 := g 3, r12 := g 4, r13 := g 5, r14 := g 6, r15 := g 7
        rdi := g 8, rsi := g 9, rbp := g 10, rbx := g 11, rdx := g 12, rax := g 13, rcx := g 14
        rsp := g 15, rip := g 16, rflags := (g 17 &&& 0x0CD5) ||| 0x202 },
      fpuSanitize xsave (bytes.drop 832))

structure SigSystem where
  xsave : Bool
  procs : List SigProc

/-- The system calls; a user pointer is `none` when it is null and `some none` when it cannot be
read. -/
inductive SigCall where
  | sigaction (sg : Nat) (oldWritable : Bool) (act : Option (Option SigAction))
  | sigprocmask (how : Nat) (oldWritable : Bool) (set : Option (Option Word))
  | kill (target sig : Nat)
  | alarm (seconds : Nat)
  | setitimer (seconds micros : Nat)
  | sigreturn
  /-- Any other call, with what it returns. -/
  | other (result : Word)
  | exit

/-- A system call of a thread of the process with the given number. -/
structure SigStep where
  proc : Nat
  ctx : UserContext
  now : Nat
  luck : SigLuck
  call : SigCall

def notifyParent (p : SigProc) (procs : List SigProc) : List SigProc :=
  match p.parent with
  | none => procs
  | some parent => procs.modify parent (sigRaise 17)

/-- `rt_sigaction`. -/
def sigactionCall (sg : Nat) (oldWritable : Bool) (act : Option (Option SigAction)) (p : SigProc) :
    SigProc × Word :=
  if sg < 1 ∨ 64 < sg ∨ sg = 9 ∨ sg = 19 then (p, -22)
  else if oldWritable = false then (p, -14)
  else
    match act with
    | none => (p, 0)
    | some none => (p, -14)
    | some (some action) =>
        let changed := { p with actions := Function.update p.actions sg action }
        if ignores sg action.handler then
          ({ changed with
              pending := p.pending &&& ~~~(sigBit sg)
              events := p.events ++ if p.pending.getLsbD (sg - 1) then [.discarded sg action.handler] else [] }, 0)
        else (changed, 0)

/-- `rt_sigprocmask`. -/
def sigprocmaskCall (how : Nat) (oldWritable : Bool) (set : Option (Option Word)) (p : SigProc) :
    SigProc × Word :=
  let masked := fun blocked : Word => ({ p with blocked := blocked &&& ~~~(sigBit 9 ||| sigBit 19) }, (0 : Word))
  if oldWritable = false then (p, -14)
  else
    match set with
    | none => (p, 0)
    | some none => (p, -14)
    | some (some set) =>
        match how with
        | 0 => masked (p.blocked ||| set)
        | 1 => masked (p.blocked &&& ~~~set)
        | 2 => masked set
        | _ => (p, -22)

/-- `do_kill` of the Linux process with the given number; `none` when the call does not return. -/
def killCall (i target sig : Nat) (procs : List SigProc) : List SigProc × Option Word :=
  if 64 < sig then (procs, some (-22))
  else
    match procs[target]? with
    | none => (procs, some (-3))
    | some t =>
        if t.alive = false then (procs, some (-3))
        else if sig = 0 then (procs, some 0)
        else if target = i then
          let raised := procs.modify target (sigRaise sig)
          if sig = 9 then (notifyParent t (raised.modify target (endBySignal 9)), none) else (raised, some 0)
        else if sig = 9 ∨ ((t.actions sig).handler = 0 ∧ sigDefaultEnds sig) then
          (notifyParent t (procs.modify target (killNow sig)), some 0)
        else (procs.modify target (sigRaise sig), some 0)

/-- The end of a system call: its result is set, timers are looked at, and signals are delivered. -/
def syscallReturn (step : SigStep) (res : Word) (procs : List SigProc) : List SigProc :=
  match procs[step.proc]? with
  | none => procs
  | some p =>
      let r := step.ctx.regs
      let ctx := { step.ctx with
        regs := { r with rax := res, rcx := r.rip + 2, r11 := r.rflags, rip := r.rip + 2 } }
      let done := deliverSignals step.luck r.rax res ctx (sigPollTimers step.now p)
      let after := procs.set step.proc done.1
      if done.1.alive then after else notifyParent done.1 after

/-- The call itself, with its result when it returns through `syscallReturn`. -/
def sigCall (xsave : Bool) (step : SigStep) (p : SigProc) (procs : List SigProc) :
    List SigProc × Option Word :=
  match step.call with
  | .sigaction sg oldWritable act =>
      let done := sigactionCall sg oldWritable act p
      (procs.set step.proc done.1, some done.2)
  | .sigprocmask how oldWritable set =>
      let done := sigprocmaskCall how oldWritable set p
      (procs.set step.proc done.1, some done.2)
  | .kill target sig => killCall step.proc target sig procs
  | .alarm seconds =>
      (procs.set step.proc { p with alarm := if seconds = 0 then 0 else (step.now + 1000 * seconds) % 2 ^ 64 }, some 0)
  | .setitimer seconds micros =>
      let ms := (1000 * seconds + micros / 1000) % 2 ^ 64
      (procs.set step.proc { p with alarm := if ms = 0 then 0 else (step.now + ms) % 2 ^ 64 }, some 0)
  | .sigreturn =>
      match doSigreturn xsave step.luck step.ctx with
      | .inl error => (procs, some error)
      | .inr restored => (procs.set step.proc { p with blocked := restored.1 }, none)
  | .other result => (procs, some result)
  | .exit => (notifyParent p (procs.set step.proc { p with alive := false }), none)

def sigStep (state : SigSystem) (step : SigStep) : SigSystem :=
  match (state.procs[step.proc]?).filter fun p => p.alive with
  | none => state
  | some p =>
      let called := sigCall state.xsave step p state.procs
      { state with procs :=
          match called.2 with
          | none => called.1
          | some res => syscallReturn step res called.1 }

end Cos.Linux
