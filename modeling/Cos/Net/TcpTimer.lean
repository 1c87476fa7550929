import Cos.Net.TcpRuns
import Mathlib

/-! # The retransmission timer

A socket that has something to send has its timer armed, in every state that calls, segments and
ticks can bring about, and the tick it is armed for transmits or closes.
-/

namespace Cos.Net

open Cos.Lib

variable {s s' : TcpSocket} {now sends wnd fuel : Nat} {segment : TcpSegment}
  {rxCell txCell : Nat → UInt8} {stack : TcpStack}

structure Numbered (stack : TcpStack) : Prop where
  unique : (stack.sockets.map Prod.fst).Nodup
  numbered : ∀ entry ∈ stack.sockets, entry.1 < stack.nextId

theorem Numbered.mapSockets (numbered : Numbered stack) (change : Nat → TcpSocket → TcpSocket) :
    Numbered (stack.mapSockets change) := by
  have sameKeys : (stack.mapSockets change).sockets.map Prod.fst = stack.sockets.map Prod.fst := by
    simp [TcpStack.mapSockets, Function.comp_def]
  refine ⟨sameKeys ▸ numbered.unique, fun entry member => ?_⟩
  obtain ⟨old, isOld, rfl⟩ := List.mem_map.mp member
  exact numbered.numbered old isOld

theorem Numbered.update (numbered : Numbered stack) {id : Nat} (change : TcpSocket → TcpSocket) :
    Numbered (stack.update id change) :=
  numbered.mapSockets _

theorem Numbered.add (numbered : Numbered stack) (s : TcpSocket) : Numbered (stack.add s) := by
  refine ⟨List.nodup_cons.mpr ⟨fun member => ?_, numbered.unique⟩, fun entry member => ?_⟩
  · obtain ⟨entry, isEntry, sameKey⟩ := List.mem_map.mp member
    have below := numbered.numbered entry isEntry
    omega
  · obtain rfl | old := List.mem_cons.mp member
    · exact Nat.lt_succ_self _
    · exact Nat.lt_succ_of_lt (numbered.numbered entry old)

theorem Numbered.filter (numbered : Numbered stack) (keep : Nat × TcpSocket → Bool) :
    Numbered { stack with sockets := stack.sockets.filter keep } :=
  ⟨numbered.unique.sublist (List.filter_sublist.map Prod.fst),
    fun entry member => numbered.numbered entry (List.mem_filter.mp member).1⟩

theorem Numbered.same (numbered : Numbered stack) {id : Nat} (one : (id, s) ∈ stack.sockets)
    (other : (id, s') ∈ stack.sockets) : s = s' :=
  congrArg Prod.snd (List.inj_on_of_nodup_map numbered.unique one other rfl)

/-- What holds of a new socket and survives every operation of one, whatever its arguments.  A
connect goes on with the sockets that it `tries`, and a listener that is destroyed `loses` its
connections. -/
structure SocketRule (tries loses holds : TcpSocket → Prop) : Prop where
  alloc : ∀ rxCell txCell, holds (TcpSocket.alloc rxCell txCell)
  child : ∀ listener rxCell txCell iss now segment,
    holds (TcpSocket.child listener rxCell txCell iss now segment)
  bind : ∀ s port, holds s → holds { s with localPort := port, bound := true }
  aim : ∀ s peer port localPort, holds s →
    holds { s with peer := peer, remotePort := port, localPort := localPort }
  connect : ∀ s peer port localPort iss, holds s → holds (s.connect peer port localPort iss)
  connectTry : ∀ s now sends, tries s → holds s → holds (s.connectTry now sends).1
  startSyn : ∀ s now sends, s.state = .synSent → holds s →
    holds (s.firstSyn now sends (now + 100)).1
  connectEnd : ∀ s, holds s → holds s.connectEnd
  listen : ∀ s backlog, holds s → holds (s.listen backlog)
  discard : ∀ s, holds s →
    holds { s with parent := none, unaccepted := false, detached := true, detachDeadline := 1 }
  accept : ∀ s, s.state ≠ .closed → s.state ≠ .listen → holds s →
    holds { s with parent := none, unaccepted := false }
  send : ∀ s now sends data, holds s → holds (s.send now sends data).2.1
  recv : ∀ s maxLen, holds s → holds (s.recv maxLen).2.2.1
  shutdownWr : ∀ s now sends, holds s → holds (s.shutdownWr now sends).1
  closeEnd : ∀ s, holds s → holds s.closeEnd
  abandon : ∀ s now sends, holds s → holds (s.abandon now sends).1
  orphan : ∀ s listener, holds s → holds (s.orphan listener)
  lose : ∀ s, loses s → holds s → holds { s with parent := none, state := .closed }
  input : ∀ s now sends segment, holds s → holds (s.input now sends segment).1
  expire : ∀ s now, holds s → holds (s.expireTimeWait now)
  poll : ∀ s now sends, holds s → holds (s.poll now sends).1

def TcpStack.Each (holds : TcpSocket → Prop) (stack : TcpStack) : Prop :=
  ∀ entry ∈ stack.sockets, holds entry.2

section
variable {tries loses holds : TcpSocket → Prop} {id : Nat}

theorem TcpStack.Each.mapSockets (each : stack.Each holds) {change : Nat → TcpSocket → TcpSocket}
    (keeps : ∀ other s, holds s → holds (change other s)) :
    (stack.mapSockets change).Each holds := by
  intro entry member
  obtain ⟨old, isOld, rfl⟩ := List.mem_map.mp member
  exact keeps old.1 old.2 (each old isOld)

theorem TcpStack.Each.update (each : stack.Each holds) {change : TcpSocket → TcpSocket}
    (keeps : ∀ s, holds s → holds (change s)) : (stack.update id change).Each holds := by
  refine each.mapSockets fun other s old => ?_
  split
  · exact keeps s old
  · exact old

theorem TcpStack.Each.add (each : stack.Each holds) (fresh : holds s) : (stack.add s).Each holds :=
  List.forall_mem_cons.mpr ⟨fresh, each⟩

theorem TcpStack.Each.filter (each : stack.Each holds) (keep : Nat × TcpSocket → Bool) :
    TcpStack.Each holds { stack with sockets := stack.sockets.filter keep } := fun entry member =>
  each entry (List.mem_filter.mp member).1

theorem SocketRule.connectStack (rule : SocketRule tries loses holds) (each : stack.Each holds)
    {peer : TcpPeer} {port : Nat} {draws : List Nat} {iss : Seq} :
    (stack.connect id peer port draws iss).Each holds := by
  refine each.update fun s old => ?_
  dsimp only
  obtain ⟨localPort, isPort⟩ : ∃ localPort, (if s.localPort = 0 ∨ stack.portUsed s.localPort id then
    stack.pickPort draws id else s.localPort) = localPort := ⟨_, rfl⟩
  rw [isPort]
  split
  · exact rule.aim s peer port localPort old
  · exact rule.connect s peer port localPort iss old

theorem SocketRule.acceptStack (rule : SocketRule tries loses holds) (numbered : Numbered stack)
    (each : stack.Each holds) : (stack.accept id).Each holds := by
  rw [TcpStack.accept]
  split
  · exact each
  · split
    · split
      · exact each
      · next child s found =>
        have isFound : (child, s) ∈ stack.sockets := List.mem_of_find?_eq_some found
        have isReady := List.find?_some found
        simp only [decide_eq_true_eq] at isReady
        split
        · exact each.update rule.discard
        · next isOpen =>
          intro entry member
          obtain ⟨old, isOld, rfl⟩ := List.mem_map.mp member
          dsimp only
          split
          · next isChild =>
            have isThis : (child, old.2) ∈ stack.sockets := isChild ▸ isOld
            have same : old.2 = s := numbered.same isThis isFound
            rw [same]
            exact rule.accept s isOpen isReady.2.2.2 (each (child, s) isFound)
          · exact each old isOld
    · exact each

theorem SocketRule.abandonStack (rule : SocketRule tries loses holds) (each : stack.Each holds) :
    (stack.abandon now sends id).Each holds := by
  rw [TcpStack.abandon]
  split
  · exact each
  · refine TcpStack.Each.update ?_ fun s old => rule.abandon s now sends old
    split
    · exact each.mapSockets fun _ s old => rule.orphan s id old
    · exact each

theorem SocketRule.inputStack (rule : SocketRule tries loses holds) (each : stack.Each holds)
    {iss : Seq} : (stack.input now sends segment rxCell txCell iss).Each holds := by
  rw [TcpStack.input]
  split
  · exact each.update fun s old => rule.input s now sends segment old
  · split
    · split
      · rw [TcpStack.inputListen]
        split
        · exact each.add (rule.child _ rxCell txCell iss now segment)
        · exact each
      · exact each
    · exact each

theorem SocketRule.pollStack (rule : SocketRule tries loses holds) (each : stack.Each holds)
    {takes : Nat → Nat} : (stack.poll now takes).Each holds := by
  have expired : (stack.mapSockets fun _ => TcpSocket.expireTimeWait now).Each holds :=
    each.mapSockets fun _ s old => rule.expire s now old
  exact TcpStack.Each.mapSockets (expired.filter fun entry => !entry.2.isDead now)
    fun other s old =>
    rule.poll s now (takes other) old

def TcpCall.Meets (tries loses : TcpSocket → Prop) (stack : TcpStack) : TcpCall → Prop
  | .connectTry id _ _ => ∀ s, (id, s) ∈ stack.sockets → tries s
  | .destroy id => ∀ entry ∈ stack.sockets, entry.2.parent = some id → loses entry.2
  | _ => True

theorem SocketRule.step (rule : SocketRule tries loses holds) (numbered : Numbered stack)
    (each : stack.Each holds) (call : TcpCall) (meets : call.Meets tries loses stack) :
    (tcpStep stack call).Each holds := by
  cases call with
  | create rxCell txCell => exact each.add (rule.alloc rxCell txCell)
  | destroy id =>
      intro entry member
      obtain ⟨old, isKept, rfl⟩ := List.mem_map.mp member
      have isOld := (List.mem_filter.mp isKept).1
      dsimp only
      split
      · next isChild => exact rule.lose old.2 (meets old isOld isChild) (each old isOld)
      · exact each old isOld
  | bind id port draws =>
      change (stack.bind id port draws).Each holds
      rw [TcpStack.bind]
      obtain ⟨chosen, isChosen⟩ : ∃ chosen, (if port = 0 then stack.pickPort draws id else
        if stack.portUsed port id then 0 else port) = chosen := ⟨_, rfl⟩
      rw [isChosen]
      split
      · exact each
      · exact each.update fun s old => rule.bind s chosen old
  | listen id backlog => exact each.update fun s old => rule.listen s backlog old
  | connect id peer port draws iss => exact rule.connectStack each
  | connectTry id now sends =>
      intro entry member
      obtain ⟨old, isOld, rfl⟩ := List.mem_map.mp member
      dsimp only
      split
      · next isId => exact rule.connectTry old.2 now sends (meets old.2 (isId ▸ isOld)) (each old isOld)
      · exact each old isOld
  | connectEnd id => exact each.update rule.connectEnd
  | connectStart id now sends peer port draws iss =>
      change (stack.connectStart now sends id peer port draws iss).Each holds
      rw [TcpStack.connectStart]
      split
      · exact each
      · split
        · refine (rule.connectStack each).update fun s old => ?_
          split
          · next isState => exact rule.startSyn s now sends isState old
          · exact old
        · exact each
  | accept id => exact rule.acceptStack numbered each
  | send id now sends data => exact each.update fun s old => rule.send s now sends data old
  | recv id maxLen => exact each.update fun s old => rule.recv s maxLen old
  | shutdownWr id now sends => exact each.update fun s old => rule.shutdownWr s now sends old
  | closeEnd id => exact each.update rule.closeEnd
  | abandon id now sends => exact rule.abandonStack each
  | input now sends segment rxCell txCell iss => exact rule.inputStack each
  | poll now sends => exact rule.pollStack each

end

theorem outputLoop_frame (now wnd fuel sends : Nat) (s : TcpSocket) :
    ∃ rttSeq rttStart txSent sndMax, (TcpSocket.outputLoop now wnd fuel sends s).1 =
      { s with rttSeq := rttSeq, rttStart := rttStart, txSent := txSent, sndMax := sndMax } := by
  induction fuel generalizing s sends with
  | zero => exact ⟨s.rttSeq, s.rttStart, s.txSent, s.sndMax, rfl⟩
  | succ fuel ih =>
      rw [TcpSocket.outputLoop]
      split
      · dsimp only
        split
        · exact ⟨s.rttSeq, s.rttStart, s.txSent, s.sndMax, rfl⟩
        · obtain ⟨rttSeq, rttStart, txSent, sndMax, same⟩ := ih (sends - 1) _
          exact ⟨rttSeq, rttStart, txSent, sndMax, same⟩
      · exact ⟨s.rttSeq, s.rttStart, s.txSent, s.sndMax, rfl⟩

theorem outputFin_frame (sends : Nat) (s : TcpSocket) :
    ∃ finSent sndMax, (TcpSocket.outputFin sends s).1 =
    { s with finSent := finSent, sndMax := sndMax } := by
  rw [TcpSocket.outputFin]
  split
  · exact ⟨true, _, rfl⟩
  · exact ⟨s.finSent, s.sndMax, rfl⟩

theorem arm_frame (now : Nat) (s : TcpSocket) : ∃ rtxAt, s.arm now = { s with rtxAt := rtxAt } := by
  rw [TcpSocket.arm]
  split
  · exact ⟨_, rfl⟩
  · exact ⟨s.rtxAt, rfl⟩

theorem output_frame (now sends : Nat) (s : TcpSocket) :
    ∃ rttSeq rttStart txSent sndMax finSent sndNxt rtxAt, (s.output now sends).1 =
      { s with rttSeq := rttSeq, rttStart := rttStart, txSent := txSent, sndMax := sndMax, finSent := finSent
               sndNxt := sndNxt, rtxAt := rtxAt } := by
  rw [TcpSocket.output]
  split
  · dsimp only
    obtain ⟨rttSeq, rttStart, txSent, _, isLoop⟩ := outputLoop_frame now (max 1 (min s.cwnd s.peerWnd)) (s.txLen - s.txSent) sends s
    obtain ⟨loop, isResult⟩ : ∃ loop, TcpSocket.outputLoop now (max 1 (min s.cwnd s.peerWnd))
      (s.txLen - s.txSent) sends s = loop := ⟨_, rfl⟩
    rw [isResult] at isLoop ⊢
    obtain ⟨finSent, sndMax, isFin⟩ := outputFin_frame loop.2.2 loop.1
    rw [isFin, isLoop]
    obtain ⟨rtxAt, isArmed⟩ := arm_frame now { s with
      rttSeq := rttSeq, rttStart := rttStart, txSent := txSent, sndMax := sndMax, finSent := finSent
      sndNxt := TcpSocket.sentEnd { s with
        rttSeq := rttSeq, rttStart := rttStart, txSent := txSent, sndMax := sndMax, finSent := finSent } }
    exact ⟨rttSeq, rttStart, txSent, sndMax, finSent, _, rtxAt, isArmed⟩
  · exact ⟨s.rttSeq, s.rttStart, s.txSent, s.sndMax, s.finSent, s.sndNxt, s.rtxAt, rfl⟩

namespace TcpSocket

/-- Bytes or a FIN that the peer has not acknowledged, in a state that sends. -/
def Works (s : TcpSocket) : Prop := sendsIn s.state = true ∧ (0 < s.txLen ∨ s.finQueued = true)

end TcpSocket

structure TimerReady (s : TcpSocket) : Prop where
  rto : s.state ≠ .closed → s.state ≠ .listen → 0 < s.rto
  reset : s.resetSeen = true → s.state = .closed ∨ s.state = .listen
  opening : s.state = .synSent ∨ s.state = .synReceived → s.txLen = 0 ∧ s.finQueued = false

structure TimerSound (s : TcpSocket) : Prop where
  ready : TimerReady s
  armed : s.Works → s.rtxAt ≠ 0

theorem sendsIn_open {state : TcpState} (sends : TcpSocket.sendsIn state = true) :
    state ≠ .closed ∧ state ≠ .listen ∧ state ≠ .synSent ∧ state ≠ .synReceived := by
  cases state <;> simp_all [TcpSocket.sendsIn]

theorem TimerReady.pending (ready : TimerReady s) (works : s.Works) : s.pending = true := by
  obtain ⟨notClosed, notListen, -, -⟩ := sendsIn_open works.1
  have notReset : s.resetSeen = false := by
    cases isReset : s.resetSeen with
    | false => rfl
    | true => exact absurd (ready.reset isReset) (not_or.mpr ⟨notClosed, notListen⟩)
  obtain some | queued := works.2
  · simp [TcpSocket.pending, some]
  · simp [TcpSocket.pending, queued, notReset]

theorem TimerReady.positive (ready : TimerReady s) (works : s.Works) : 0 < s.rto := by
  obtain ⟨notClosed, notListen, -, -⟩ := sendsIn_open works.1
  exact ready.rto notClosed notListen

theorem TimerReady.arm (ready : TimerReady s) (now : Nat) : TimerSound (s.arm now) := by
  rw [TcpSocket.arm]
  split
  · refine ⟨⟨ready.rto, ready.reset, ready.opening⟩, fun works => ?_⟩
    have positive := ready.positive works
    dsimp only
    omega
  · next armed =>
    exact ⟨ready, fun works off => armed ⟨off, ready.pending works⟩⟩

theorem TimerReady.output (ready : TimerReady s) : TimerSound (s.output now sends).1 := by
  rw [TcpSocket.output]
  split
  · dsimp only
    obtain ⟨rttSeq, rttStart, txSent, _, isLoop⟩ := outputLoop_frame now (max 1 (min s.cwnd s.peerWnd)) (s.txLen - s.txSent) sends s
    obtain ⟨loop, isResult⟩ : ∃ loop, TcpSocket.outputLoop now (max 1 (min s.cwnd s.peerWnd))
      (s.txLen - s.txSent) sends s = loop := ⟨_, rfl⟩
    rw [isResult] at isLoop ⊢
    obtain ⟨finSent, sndMax, isFin⟩ := outputFin_frame loop.2.2 loop.1
    rw [isFin, isLoop]
    refine TimerReady.arm ?_ now
    exact ⟨ready.rto, ready.reset, ready.opening⟩
  · next quiet => exact ⟨ready, fun works => absurd works.1 quiet⟩

theorem TimerSound.closed (isClosed : s.state = .closed) : TimerSound s := by
  refine ⟨⟨fun isOpen => absurd isClosed isOpen, fun _ => .inl isClosed, fun opening => ?_⟩,
    fun works => ?_⟩
  · rw [isClosed] at opening
    exact absurd opening (by decide)
  · rw [TcpSocket.Works, isClosed] at works
    exact absurd works.1 (by decide)

/-- The queue and the timer stay, and the state does not begin to send. -/
structure KeepsTimer (s s' : TcpSocket) : Prop where
  rto : s'.rto = s.rto
  resetSeen : s'.resetSeen = s.resetSeen
  txLen : s'.txLen = s.txLen
  finQueued : s'.finQueued = s.finQueued
  rtxAt : TcpSocket.sendsIn s'.state = true → s'.rtxAt = s.rtxAt
  state : s'.state = s.state ∨ s.state ≠ .closed ∧ s.state ≠ .listen ∧ s'.state ≠ .synSent ∧
    s'.state ≠ .synReceived ∧ (TcpSocket.sendsIn s'.state = true → TcpSocket.sendsIn s.state = true)

theorem KeepsTimer.refl (s : TcpSocket) : KeepsTimer s s :=
  ⟨rfl, rfl, rfl, rfl, fun _ => rfl, .inl rfl⟩

theorem TimerSound.keeps (sound : TimerSound s) (keeps : KeepsTimer s s') : TimerSound s' := by
  have ready : TimerReady s' := by
    refine ⟨fun notClosed notListen => ?_, fun isReset => ?_, fun opening => ?_⟩
    · rw [keeps.rto]
      obtain same | ⟨isOpen, connects, -⟩ := keeps.state
      · exact sound.ready.rto (same ▸ notClosed) (same ▸ notListen)
      · exact sound.ready.rto isOpen connects
    · have before := sound.ready.reset (keeps.resetSeen ▸ isReset)
      obtain same | ⟨isOpen, connects, -⟩ := keeps.state
      · rw [same]
        exact before
      · exact absurd before (not_or.mpr ⟨isOpen, connects⟩)
    · rw [keeps.txLen, keeps.finQueued]
      obtain same | ⟨-, -, notSent, notReceived, -⟩ := keeps.state
      · exact sound.ready.opening (same ▸ opening)
      · exact absurd opening (not_or.mpr ⟨notSent, notReceived⟩)
  refine ⟨ready, fun works => ?_⟩
  rw [keeps.rtxAt works.1]
  refine sound.armed ⟨?_, ?_⟩
  · obtain same | moved := keeps.state
    · exact same ▸ works.1
    · exact moved.2.2.2.2 works.1
  · rw [← keeps.txLen, ← keeps.finQueued]
    exact works.2

theorem updateRtt_rto (sample : Nat) (s : TcpSocket) : 200 ≤ (s.updateRtt sample).rto := by
  rw [TcpSocket.updateRtt]
  dsimp only
  omega

theorem TimerReady.sampleRtt (ready : TimerReady s) (now : Nat) (ack : Seq) :
    TimerReady (s.sampleRtt now ack) := by
  rw [TcpSocket.sampleRtt]
  split
  · refine ⟨fun _ _ => ?_, ready.reset, ready.opening⟩
    have := updateRtt_rto ((now - s.rttStart) % 2 ^ 32) s
    change 0 < (s.updateRtt _).rto
    omega
  · exact ready

theorem TimerReady.dropAcked (ready : TimerReady s) (acked : Nat) :
    TimerReady (s.dropAcked acked) := by
  rw [TcpSocket.dropAcked]
  split
  · exact ready
  · refine ⟨ready.rto, ready.reset, fun opening => ?_⟩
    obtain ⟨isEmpty, notQueued⟩ := ready.opening opening
    refine ⟨?_, notQueued⟩
    change s.txLen - acked = 0
    omega

theorem TimerReady.finAcked (ready : TimerReady s) (now : Nat) : TimerReady (s.finAcked now) := by
  have kept : TimerReady { s with sndUna := s.sndUna + 1, finQueued := false, finSent := false } :=
    ⟨ready.rto, ready.reset, fun opening => ⟨(ready.opening opening).1, rfl⟩⟩
  have moved : ∀ state rtxAt timeWaitUntil, s.state ≠ .closed → s.state ≠ .listen →
      state ≠ .closed ∧ state ≠ .listen ∧ state ≠ .synSent ∧ state ≠ .synReceived →
      TimerReady { s with sndUna := s.sndUna + 1, finQueued := false, finSent := false, state := state, rtxAt := rtxAt
                          timeWaitUntil := timeWaitUntil } := by
    intro state rtxAt timeWaitUntil isOpen connects isState
    refine ⟨fun _ _ => ready.rto isOpen connects, fun isReset => ?_, fun opening => ?_⟩
    · exact absurd (ready.reset isReset) (not_or.mpr ⟨isOpen, connects⟩)
    · exact absurd opening (not_or.mpr isState.2.2)
  rw [TcpSocket.finAcked]
  split
  · next isState =>
    dsimp only at isState
    refine moved .finWait2 s.rtxAt s.timeWaitUntil ?_ ?_ ?_ <;> simp [isState]
  · next isState =>
    dsimp only at isState
    refine moved .timeWait 0 (now + 2000) ?_ ?_ ?_ <;> simp [isState]
  · exact (TimerSound.closed rfl).ready
  · exact kept

theorem TimerSound.processAck {ack : Seq} {win : Nat} {pure : Bool} (sound : TimerSound s) :
    TimerSound (s.processAck now sends ack win pure).1 := by
  have windowed : TimerSound { s with peerWnd := win } :=
    sound.keeps ⟨rfl, rfl, rfl, rfl, fun _ => rfl, .inl rfl⟩
  rw [TcpSocket.processAck]
  split
  · exact sound
  · split
    · rw [TcpSocket.processDuplicate]
      dsimp only
      split
      · split
        · refine TimerReady.output ?_
          exact ⟨sound.ready.rto, sound.ready.reset, sound.ready.opening⟩
        · exact windowed.keeps ⟨rfl, rfl, rfl, rfl, fun _ => rfl, .inl rfl⟩
      · split
        · exact windowed.ready.output
        · exact windowed
    · refine TimerReady.output ?_
      have started : TimerReady { s with peerWnd := win, dupAcks := 0 } :=
        ⟨sound.ready.rto, sound.ready.reset, sound.ready.opening⟩
      have timed := started.sampleRtt now ack
      obtain ⟨sampled, isSampled⟩ : ∃ sampled, TcpSocket.sampleRtt now ack { s with peerWnd := win, dupAcks := 0 } = sampled :=
        ⟨_, rfl⟩
      rw [isSampled] at timed ⊢
      have counted : TimerReady { sampled with rtxCount := 0 } := ⟨timed.rto, timed.reset, timed.opening⟩
      have dropped := counted.dropAcked (min (Seq.diff ack s.sndUna).toNat sampled.txLen)
      rw [TcpSocket.cutQueue]
      split
      · have acked := dropped.finAcked now
        exact ⟨acked.rto, acked.reset, acked.opening⟩
      · exact ⟨dropped.rto, dropped.reset, dropped.opening⟩

theorem keepHole_timer (s : TcpSocket) (segment : TcpSegment) :
    KeepsTimer s (s.keepHole segment) := by
  rw [TcpSocket.keepHole]
  dsimp only
  split
  · split
    · exact ⟨rfl, rfl, rfl, rfl, fun _ => rfl, .inl rfl⟩
    · split
      · exact ⟨rfl, rfl, rfl, rfl, fun _ => rfl, .inl rfl⟩
      · exact .refl s
  · exact .refl s

theorem takeBytes_timer (s : TcpSocket) (bytes : List UInt8) :
    KeepsTimer s (s.takeBytes bytes).closeHole ∧ (s.takeBytes bytes).closeHole.state = s.state := by
  have taken : KeepsTimer s (s.takeBytes bytes) ∧ (s.takeBytes bytes).state = s.state := by
    rw [TcpSocket.takeBytes]
    split
    · exact ⟨.refl s, rfl⟩
    · exact ⟨⟨rfl, rfl, rfl, rfl, fun _ => rfl, .inl rfl⟩, rfl⟩
  rw [TcpSocket.closeHole]
  split
  · obtain ⟨keeps, sameState⟩ := taken
    exact ⟨⟨keeps.rto, keeps.resetSeen, keeps.txLen, keeps.finQueued, keeps.rtxAt, .inl sameState⟩, sameState⟩
  · exact taken

theorem takeFin_timer (s : TcpSocket) (now : Nat) : KeepsTimer s (s.takeFin now) := by
  rw [TcpSocket.takeFin]
  split
  · next isState =>
    dsimp only at isState
    exact ⟨rfl, rfl, rfl, rfl, fun _ => rfl, .inr (by simp [isState, TcpSocket.sendsIn])⟩
  · next isState =>
    dsimp only at isState
    exact ⟨rfl, rfl, rfl, rfl, fun _ => rfl, .inr (by simp [isState, TcpSocket.sendsIn])⟩
  · next isState =>
    dsimp only at isState
    exact ⟨rfl, rfl, rfl, rfl, fun sendsIn => (by cases sendsIn),
      .inr (by simp [isState, TcpSocket.sendsIn, TcpSocket.enterTimeWait])⟩
  · exact ⟨rfl, rfl, rfl, rfl, fun _ => rfl, .inl rfl⟩

theorem TimerSound.inputData (sound : TimerSound s) : TimerSound (s.inputData now segment).1 := by
  rw [TcpSocket.inputData]
  dsimp only
  split
  · split
    · exact sound.keeps (keepHole_timer s segment)
    · split
      · exact sound
      · rw [TcpSocket.takeData]
        have taken : ∀ bytes, TimerSound (s.takeBytes bytes).closeHole := fun bytes => sound.keeps (takeBytes_timer s bytes).1
        split
        · exact (taken _).keeps (takeFin_timer _ now)
        · exact taken _
  · exact sound

theorem TimerSound.inputOpen (sound : TimerSound s) :
    TimerSound (s.inputOpen now sends segment).1 := by
  rw [TcpSocket.inputOpen]
  split
  · exact sound
  · split
    · dsimp only
      split
      · exact .closed rfl
      · exact sound
    · split
      · exact sound
      · split
        · exact sound
        · dsimp only
          have acked := @TimerSound.processAck s now sends segment.ack segment.window
            (decide (segment.data = [] ∧ segment.isFin = false)) sound
          split
          · exact acked
          · exact acked.inputData

theorem TimerSound.established (sound : TimerSound s)
    (opening : s.state = .synSent ∨ s.state = .synReceived)
    (isState : s'.state = .established) (rto : s.rto = s'.rto ∨ 0 < s'.rto)
    (same : s'.resetSeen = s.resetSeen) (queue : s'.txLen = s.txLen ∧ s'.finQueued = s.finQueued) :
    TimerSound s' := by
  obtain ⟨isEmpty, notQueued⟩ := sound.ready.opening opening
  have isOpen : s.state ≠ .closed ∧ s.state ≠ .listen := by
    obtain isState | isState := opening <;> simp [isState]
  refine ⟨⟨fun _ _ => ?_, fun isReset => ?_, fun opening => ?_⟩, fun works => ?_⟩
  · obtain same | positive := rto
    · exact same ▸ sound.ready.rto isOpen.1 isOpen.2
    · exact positive
  · exact absurd (sound.ready.reset (same ▸ isReset)) (not_or.mpr isOpen)
  · simp [isState] at opening
  · obtain some | queued := works.2
    · rw [queue.1, isEmpty] at some
      exact absurd some (Nat.lt_irrefl 0)
    · rw [queue.2, notQueued] at queued
      cases queued

theorem TimerSound.inputSynSent (sound : TimerSound s) (isState : s.state = .synSent) :
    TimerSound (s.inputSynSent now segment).1 := by
  rw [TcpSocket.inputSynSent]
  dsimp only
  split
  · exact sound
  · split
    · split
      · exact .closed rfl
      · exact sound
    · split
      · split
        · refine sound.established (.inl isState) rfl (.inr ?_) rfl ⟨rfl, rfl⟩
          exact Nat.lt_of_lt_of_le (by decide) (updateRtt_rto _ _)
        · exact sound.established (.inl isState) rfl (.inl rfl) rfl ⟨rfl, rfl⟩
      · exact sound

theorem TimerSound.input (sound : TimerSound s) : TimerSound (s.input now sends segment).1 := by
  rw [TcpSocket.input]
  split
  · next isState => exact sound.inputSynSent isState
  · split
    · next isState =>
      split
      · dsimp only
        split
        · exact .closed rfl
        · exact sound
      · split
        · exact sound
        · split
          · refine TimerSound.inputOpen ?_
            exact sound.established (.inr isState) rfl (.inl rfl) rfl ⟨rfl, rfl⟩
          · exact sound
    · exact sound.inputOpen

theorem TimerSound.firstSyn {retryAt : Nat} (sound : TimerSound s)
    (retries : sends = 0 → retryAt = s.rtxAt ∨ s.state = .synSent) :
    TimerSound (s.firstSyn now sends retryAt).1 := by
  have ready : ∀ rttStart rttSeq rtxAt,
    TimerReady { s with rttStart := rttStart, rttSeq := rttSeq, rtxAt := rtxAt } :=
    fun _ _ _ => ⟨sound.ready.rto, sound.ready.reset, sound.ready.opening⟩
  rw [TcpSocket.firstSyn]
  split
  · next refused =>
    refine ⟨ready s.rttStart s.rttSeq retryAt, fun works => ?_⟩
    obtain same | isState := retries refused
    · exact same ▸ sound.armed works
    · exact absurd works.1 (by simp [isState, TcpSocket.sendsIn])
  · refine ⟨ready now _ _, fun works => ?_⟩
    have := sound.ready.positive works
    dsimp only
    omega

theorem TimerSound.send {data : List UInt8} (sound : TimerSound s) :
    TimerSound (s.send now sends data).2.1 := by
  have ready := sound.ready
  rw [TcpSocket.send]
  split
  · next isOpen =>
    dsimp only
    split
    · exact sound
    · refine TimerReady.output ?_
      have appended : ∀ tx txOff txLen, TimerReady { s with tx := tx, txOff := txOff, txLen := txLen } := fun _ _ _ => by
        refine ⟨ready.rto, ready.reset, fun opening => ?_⟩
        obtain isState | isState := isOpen <;> simp [isState] at opening
      rw [TcpSocket.txAppend]
      split <;> exact appended _ _ _
  · exact sound

theorem TimerSound.recv {maxLen : Nat} (sound : TimerSound s) :
    TimerSound (s.recv maxLen).2.2.1 := by
  rw [TcpSocket.recv]
  split
  · exact sound
  · exact sound.keeps ⟨rfl, rfl, rfl, rfl, fun _ => rfl, .inl rfl⟩

theorem TimerSound.shutdownWr (sound : TimerSound s) : TimerSound (s.shutdownWr now sends).1 := by
  have ready := sound.ready
  rw [TcpSocket.shutdownWr]
  split
  · next isOpen =>
    refine TimerReady.output ⟨fun _ _ => ready.rto ?_ ?_, fun isReset => ?_, fun opening => ?_⟩
    · obtain isState | isState := isOpen <;> simp [isState]
    · obtain isState | isState := isOpen <;> simp [isState]
    · have := ready.reset isReset
      obtain isState | isState := isOpen <;> simp [isState] at this
    · split at opening <;> simp at opening
  · exact sound

theorem TimerSound.abandon (sound : TimerSound s) : TimerSound (s.abandon now sends).1 := by
  have shut := @TimerSound.shutdownWr s now sends sound
  rw [TcpSocket.abandon]
  split
  · exact .closed rfl
  · exact shut.keeps ⟨rfl, rfl, rfl, rfl, fun _ => rfl, .inl rfl⟩

theorem TimerSound.poll (sound : TimerSound s) : TimerSound (s.poll now sends).1 := by
  have ready := sound.ready
  rw [TcpSocket.poll]
  split
  · exact .closed rfl
  split
  · exact sound
  split
  · next idle =>
    refine ⟨⟨ready.rto, ready.reset, ready.opening⟩, fun works => ?_⟩
    exact absurd ((ready.pending works).symm.trans idle) (by rintro ⟨⟩)
  dsimp only
  obtain ⟨limit, isLimit⟩ :
    ∃ limit, (if s.state = .synSent ∨ s.state = .synReceived then 5 else 8) = limit := ⟨_, rfl⟩
  rw [isLimit]
  split
  · exact .closed rfl
  have slowed : TimerReady
    { s with rtxCount := (s.rtxCount + 1) % 256, rto := min 16000 (s.rto * 2), rtxAt := 0 } := by
    refine ⟨fun notClosed notListen => ?_, ready.reset, ready.opening⟩
    have := ready.rto notClosed notListen
    dsimp only
    omega
  split
  · next isState =>
    refine ⟨⟨slowed.rto, slowed.reset, slowed.opening⟩, fun works => absurd works.1 ?_⟩
    simp [isState, TcpSocket.sendsIn]
  split
  · next isState =>
    refine ⟨⟨slowed.rto, slowed.reset, slowed.opening⟩, fun works => absurd works.1 ?_⟩
    simp [isState, TcpSocket.sendsIn]
  have resent := @TimerReady.output (TcpSocket.rewind { s with
      rtxCount := (s.rtxCount + 1) % 256, rto := min 16000 (s.rto * 2), rtxAt := 0
      ssthresh := s.lossThreshold (s.sndMax - s.sndUna).toNat, cwnd := s.mss }) now sends
    ⟨slowed.rto, slowed.reset, slowed.opening⟩
  split
  · refine ⟨⟨resent.ready.rto, resent.ready.reset, resent.ready.opening⟩, fun works => ?_⟩
    dsimp only
    omega
  · exact resent

theorem TimerSound.begun (isState : s.state = .synSent ∨ s.state = .synReceived)
    (rto : s.rto = 1000) (quiet : s.resetSeen = false ∧ s.txLen = 0 ∧ s.finQueued = false) :
    TimerSound s := by
  refine ⟨⟨fun _ _ => ?_, fun isReset => ?_, fun _ => quiet.2⟩, fun works => absurd works.1 ?_⟩
  · rw [rto]
    decide
  · rw [quiet.1] at isReset
    cases isReset
  · obtain isState | isState := isState <;> simp [isState, TcpSocket.sendsIn]

theorem timer_rule : SocketRule (fun _ => True) (fun _ => True) TimerSound where
  alloc _ _ := .closed rfl
  child listener rxCell txCell iss now segment := .begun (.inr rfl) rfl ⟨rfl, rfl, rfl⟩
  bind s port sound := sound.keeps ⟨rfl, rfl, rfl, rfl, fun _ => rfl, .inl rfl⟩
  aim s peer port localPort sound := sound.keeps ⟨rfl, rfl, rfl, rfl, fun _ => rfl, .inl rfl⟩
  connect s peer port localPort iss _ := .begun (.inl rfl) rfl ⟨rfl, rfl, rfl⟩
  connectTry s now sends _ sound := by
    rw [TcpSocket.connectTry]
    split
    · exact sound
    · next tries => exact sound.firstSyn fun refused => absurd (.inr (.inr refused)) tries
  startSyn s now sends isState sound := sound.firstSyn fun _ => .inr isState
  connectEnd s sound := by
    rw [TcpSocket.connectEnd]
    split
    · exact sound
    · exact .closed rfl
  listen s backlog sound := by
    rw [TcpSocket.listen]
    split
    · refine ⟨⟨fun _ notListen => absurd rfl notListen, fun _ => .inr rfl, fun opening => ?_⟩, fun works => ?_⟩
      · exact absurd opening (by simp)
      · exact absurd works.1 (by simp [TcpSocket.sendsIn])
    · exact sound
  discard s sound := sound.keeps ⟨rfl, rfl, rfl, rfl, fun _ => rfl, .inl rfl⟩
  accept s _ _ sound := sound.keeps ⟨rfl, rfl, rfl, rfl, fun _ => rfl, .inl rfl⟩
  send s now sends data sound := sound.send
  recv s maxLen sound := sound.recv
  shutdownWr s now sends sound := sound.shutdownWr
  closeEnd s _ := .closed rfl
  abandon s now sends sound := sound.abandon
  orphan s listener sound := by
    rw [TcpSocket.orphan]
    split
    · exact .closed rfl
    · exact sound
  lose s _ _ := .closed rfl
  input s now sends segment sound := sound.input
  expire s now sound := by
    rw [TcpSocket.expireTimeWait]
    split
    · exact .closed rfl
    · exact sound
  poll s now sends sound := sound.poll

theorem segmentFits_le {n m : Nat} (fits : s.segmentFits m = true) (below : n ≤ m) :
    s.segmentFits n = true := by
  rw [TcpSocket.segmentFits, decide_eq_true_eq] at fits ⊢
  exact ⟨Nat.le_trans below fits.1, fun isV6 => Nat.le_trans below (fits.2 isV6)⟩

theorem mss_pos (s : TcpSocket) : 0 < s.mss := by
  rw [TcpSocket.mss]
  split <;> omega

theorem outputLoop_sends (unsent : s.txSent = 0) (some : 0 < s.txLen) (window : 0 < wnd)
    (taken : sends ≠ 0) (fits : s.segmentFits s.mss = true) :
    (TcpSocket.outputLoop now wnd (s.txLen - s.txSent) sends s).2.1 ≠ [] := by
  have isLength : s.txLen - s.txSent = (s.txLen - 1) + 1 := by omega
  have positive := mss_pos s
  have isN : min (min (s.txLen - s.txSent) s.mss) (wnd - s.txSent) ≠ 0 := by omega
  have small := segmentFits_le (n := min (min (s.txLen - s.txSent) s.mss) (wnd - s.txSent)) fits
    (by omega)
  have goesOut : ¬ (min (min (s.txLen - s.txSent) s.mss) (wnd - s.txSent) = 0 ∨
      s.segmentFits (min (min (s.txLen - s.txSent) s.mss) (wnd - s.txSent)) = false ∨ sends = 0) := by
    rintro (isZero | refused | none)
    · exact isN isZero
    · rw [small] at refused
      cases refused
    · exact taken none
  rw [show TcpSocket.outputLoop now wnd (s.txLen - s.txSent) sends s =
    TcpSocket.outputLoop now wnd ((s.txLen - 1) + 1) sends s by rw [isLength]]
  rw [TcpSocket.outputLoop, if_pos ⟨by omega, by omega⟩]
  rw [if_neg goesOut]
  exact List.cons_ne_nil _ _

theorem output_sends (works : s.Works) (rewound : s.txSent = 0 ∧ s.finSent = false)
    (taken : sends ≠ 0) (fits : s.segmentFits s.mss = true) : (s.output now sends).2 ≠ [] := by
  rw [TcpSocket.output, if_pos works.1]
  dsimp only
  by_cases isEmpty : s.txLen = 0
  · have queued : s.finQueued = true := works.2.resolve_left (by omega)
    have nothing : s.txLen - s.txSent = 0 := by omega
    rw [nothing, TcpSocket.outputLoop, TcpSocket.outputFin,
      if_pos ⟨queued, rewound.2, rewound.1.trans isEmpty.symm, taken⟩]
    exact List.append_ne_nil_of_right_ne_nil _ (List.cons_ne_nil _ _)
  · refine List.append_ne_nil_of_left_ne_nil ?_ _
    exact outputLoop_sends rewound.1 (by omega) (by omega) taken fits

/-- A due tick closes the socket, or arms the timer again; it transmits unless the network takes no
segment, or `tcp_xmit_raw` refuses one of the peer's MSS, which is then above the limits that
`tcp_parse_mss` keeps. -/
structure TickWorks (now sends : Nat) (s : TcpSocket) : Prop where
  again : (s.poll now sends).1.state = .closed ∨ (s.poll now sends).1.rtxAt ≠ 0
  transmits : (s.poll now sends).1.state = .closed ∨ (s.poll now sends).2 ≠ [] ∨ sends = 0 ∨
    s.segmentFits s.mss = false

theorem TimerSound.tick (sound : TimerSound s) (works : s.Works) (due : s.rtxAt ≤ now) :
    TickWorks now sends s := by
  obtain ⟨notClosed, -, notSent, notReceived⟩ := sendsIn_open works.1
  have armed := sound.armed works
  have notWaiting : s.state ≠ .timeWait := by
    intro isState
    have sendsIn := works.1
    rw [isState] at sendsIn
    cases sendsIn
  have isDue : ¬ (s.rtxAt = 0 ∨ now < s.rtxAt ∨ s.state = .closed) := by
    rintro (off | early | isClosed)
    · exact armed off
    · omega
    · exact notClosed isClosed
  have pends : s.pending ≠ false := by
    rw [sound.ready.pending works]
    exact nofun
  have slowed : ∀ rtxCount, TcpSocket.Works (TcpSocket.rewind { s with
      rtxCount := rtxCount, rto := min 16000 (s.rto * 2), rtxAt := 0
      ssthresh := s.lossThreshold (s.sndMax - s.sndUna).toNat, cwnd := s.mss }) := fun _ => works
  refine ⟨?_, ?_⟩
  · rw [TcpSocket.poll, if_neg fun waiting => notWaiting waiting.1, if_neg isDue, if_neg pends]
    dsimp only
    rw [if_neg (not_or.mpr ⟨notSent, notReceived⟩)]
    split
    · exact .inl rfl
    · right
      split
      · change now + (TcpSocket.output now sends (TcpSocket.rewind { s with
          rtxCount := (s.rtxCount + 1) % 256, rto := min 16000 (s.rto * 2), rtxAt := 0
          ssthresh := s.lossThreshold (s.sndMax - s.sndUna).toNat, cwnd := s.mss })).1.rto ≠ 0
        omega
      · next still => exact still
  · rw [TcpSocket.poll, if_neg fun waiting => notWaiting waiting.1, if_neg isDue, if_neg pends]
    dsimp only
    rw [if_neg (not_or.mpr ⟨notSent, notReceived⟩)]
    split
    · exact .inl rfl
    · by_cases taken : sends = 0
      · exact .inr (.inr (.inl taken))
      · cases fits : s.segmentFits s.mss with
        | false => exact .inr (.inr (.inr rfl))
        | true => exact .inr (.inl (output_sends (slowed _) ⟨rfl, rfl⟩ taken fits))

theorem Numbered.step (numbered : Numbered stack) (call : TcpCall) :
    Numbered (tcpStep stack call) := by
  cases call with
  | create rxCell txCell => exact numbered.add _
  | destroy id =>
      change Numbered (stack.destroy id)
      exact (numbered.filter fun entry => decide (entry.1 ≠ id)).mapSockets _
  | bind id port draws =>
      change Numbered (stack.bind id port draws)
      rw [TcpStack.bind]
      obtain ⟨chosen, isChosen⟩ : ∃ chosen, (if port = 0 then stack.pickPort draws id else
        if stack.portUsed port id then 0 else port) = chosen := ⟨_, rfl⟩
      rw [isChosen]
      split
      · exact numbered
      · exact numbered.update _
  | connectStart id now sends peer port draws iss =>
      change Numbered (stack.connectStart now sends id peer port draws iss)
      rw [TcpStack.connectStart]
      split
      · exact numbered
      · split
        · exact (numbered.update _).update _
        · exact numbered
  | accept id =>
      change Numbered (stack.accept id)
      rw [TcpStack.accept]
      split
      · exact numbered
      · split
        · split
          · exact numbered
          · split <;> exact numbered.update _
        · exact numbered
  | abandon id now sends =>
      change Numbered (stack.abandon now sends id)
      rw [TcpStack.abandon]
      split
      · exact numbered
      · refine Numbered.update ?_ _
        split
        · exact numbered.mapSockets _
        · exact numbered
  | input now sends segment rxCell txCell iss =>
      change Numbered (stack.input now sends segment rxCell txCell iss)
      rw [TcpStack.input]
      split
      · exact numbered.update _
      · split
        · split
          · rw [TcpStack.inputListen]
            split
            · exact numbered.add _
            · exact numbered
          · exact numbered
        · exact numbered
  | poll now sends =>
      change Numbered (stack.poll now sends)
      rw [TcpStack.poll]
      exact ((numbered.mapSockets _).filter fun entry => !entry.2.isDead now).mapSockets _
  | listen id backlog => exact numbered.update _
  | connect id peer port draws iss =>
      change Numbered (stack.connect id peer port draws iss)
      exact numbered.update _
  | connectTry id now sends => exact numbered.update _
  | connectEnd id => exact numbered.update _
  | send id now sends data => exact numbered.update _
  | recv id maxLen => exact numbered.update _
  | shutdownWr id now sends => exact numbered.update _
  | closeEnd id => exact numbered.update _

theorem emptyStack_numbered : Numbered emptyStack :=
  ⟨List.nodup_nil, fun _ member => (nomatch member)⟩

theorem poll_works {id : Nat} {takes : Nat → Nat} (numbered : Numbered stack)
    (member : (id, s) ∈ stack.sockets) (works : s.Works)
    (after : (id, s') ∈ (stack.poll now takes).sockets) : s' = (s.poll now (takes id)).1 := by
  obtain ⟨old, isKept, isAfter⟩ := List.mem_map.mp after
  obtain ⟨before, isBefore, isOld⟩ := List.mem_map.mp (List.mem_filter.mp isKept).1
  have isId : before.1 = id := by
    rw [← isOld] at isAfter
    exact congrArg Prod.fst isAfter
  have isThis : (id, before.2) ∈ stack.sockets := isId ▸ isBefore
  have same : before.2 = s := numbered.same isThis member
  have stays : s.expireTimeWait now = s := by
    rw [TcpSocket.expireTimeWait, if_neg]
    rintro ⟨waiting, -⟩
    have sendsIn := works.1
    rw [waiting] at sendsIn
    cases sendsIn
  have isState := congrArg Prod.snd isAfter
  rw [← isOld] at isState
  dsimp only at isState
  rw [isId, same, stays] at isState
  exact isState.symm

/-- In every reachable state a socket with something to send has its timer armed, and the tick it is
armed for closes it, or transmits where the network takes what it gives, and arms the timer
again. -/
theorem sender_timer_armed (reached : Reaches tcpStep (fun _ _ => True) emptyStack stack) :
    ∀ id s, (id, s) ∈ stack.sockets → TcpSocket.sendsIn s.state = true → (0 < s.txLen ∨ s.finQueued = true) →
      s.rtxAt ≠ 0 ∧ ∀ now takes, s.rtxAt ≤ now → ∀ s', (id, s') ∈ (stack.poll now takes).sockets →
        s' = (s.poll now (takes id)).1 ∧ TickWorks now (takes id) s := by
  have sound : Numbered stack ∧ stack.Each TimerSound := by
    refine @Lib.Reaches.invariant _ _ _ _ _ _ (fun stack => Numbered stack ∧ stack.Each TimerSound)
      reached ⟨emptyStack_numbered, fun _ member => (nomatch member)⟩ fun _ call both _ => ?_
    exact ⟨both.1.step call, timer_rule.step both.1 both.2 call (by cases call <;> simp [TcpCall.Meets])⟩
  intro id s member sends work
  have timer := sound.2 (id, s) member
  refine ⟨timer.armed ⟨sends, work⟩,
    fun now takes due s' after => ⟨?_, timer.tick ⟨sends, work⟩ due⟩⟩
  exact poll_works sound.1 member ⟨sends, work⟩ after

theorem sender_timer_armed_queued :
    ∃ entry ∈ (runSteps tcpStep emptyStack (openedCalls ++ [.send 0 7 9 [1, 2, 3]])).sockets,
    entry.2.rtxAt ≠ 0 := by
  have queued : (runSteps tcpStep emptyStack (openedCalls ++ [.send 0 7 9 [1, 2, 3]])).sockets.any
      (fun entry => TcpSocket.sendsIn entry.2.state && decide (0 < entry.2.txLen)) = true := by decide
  obtain ⟨entry, member, both⟩ := List.any_eq_true.mp queued
  have both := Bool.and_eq_true_iff.mp both
  exact ⟨entry, member,
    (sender_timer_armed (Reaches.refl.runSteps (stepsAllowed_true _ _)) entry.1 entry.2 member both.1
    (.inl (of_decide_eq_true both.2))).1⟩

end Cos.Net
