import Cos.Net.TcpStack

/-! # What a TCP socket keeps

The send queue, the receive buffer and the phase of the connection each have an invariant.  Sending
leaves the receive buffer alone, and receiving leaves the send queue alone.
-/

namespace Cos.Net

open Cos.Lib

variable {s s' s'' : TcpSocket} {now sends wnd fuel : Nat} {segment : TcpSegment}

/-- `d` numbers from `sndUna` on are out.  The FIN is the last of them. -/
structure SendSound (s : TcpSocket) : Prop where
  sent : s.txSent ≤ s.txLen
  queue : s.txOff + s.txLen ≤ s.txMax
  size : s.txMax = tcpWindowSize
  flight : ∃ d, s.sndMax = s.sndUna + BitVec.ofNat 32 d ∧ s.txSent + s.finSent.toNat ≤ d ∧
    d ≤ s.txLen + 1
  fin : s.finSent = true → s.txSent = s.txLen
  within : s.tx.overrun = false

structure RecvSound (s : TcpSocket) : Prop where
  received : s.rxLen ≤ s.rxMax
  size : s.rxMax = tcpWindowSize
  hole : s.oooLen ≠ 0 → ∃ gap, 0 < gap ∧ s.oooSeq = s.rcvNxt + BitVec.ofNat 32 gap ∧
    s.rxLen + gap + s.oooLen ≤ s.rxMax
  within : s.rx.overrun = false

structure PhaseSound (s : TcpSocket) : Prop where
  fin : s.finQueued = true ∨ s.finSent = true →
    s.state ≠ .established ∧ s.state ≠ .closeWait ∧ s.state ≠ .synSent ∧ s.state ≠ .synReceived
  opening : s.state = .synSent ∨ s.state = .synReceived →
    s.txLen = 0 ∧ s.oooLen = 0 ∧ s.sndMax = s.sndUna + 1

structure SocketSound (s : TcpSocket) : Prop where
  send : SendSound s
  recv : RecvSound s
  phase : PhaseSound s

structure SameReceiver (s s' : TcpSocket) : Prop where
  rx : s'.rx = s.rx
  rxLen : s'.rxLen = s.rxLen
  rcvNxt : s'.rcvNxt = s.rcvNxt
  oooSeq : s'.oooSeq = s.oooSeq
  oooLen : s'.oooLen = s.oooLen

theorem SameReceiver.refl (s : TcpSocket) : SameReceiver s s := ⟨rfl, rfl, rfl, rfl, rfl⟩

theorem SameReceiver.trans (first : SameReceiver s s') (second : SameReceiver s' s'') :
    SameReceiver s s'' :=
  ⟨second.rx.trans first.rx, second.rxLen.trans first.rxLen, second.rcvNxt.trans first.rcvNxt,
    second.oooSeq.trans first.oooSeq, second.oooLen.trans first.oooLen⟩

theorem RecvSound.same (sound : RecvSound s) (same : SameReceiver s s') : RecvSound s' := by
  have sameMax : s'.rxMax = s.rxMax := congrArg Buffer.size same.rx
  refine ⟨?_, ?_, ?_, ?_⟩
  · rw [same.rxLen, sameMax]
    exact sound.received
  · rw [sameMax]
    exact sound.size
  · rw [same.oooLen, same.oooSeq, same.rcvNxt, same.rxLen, sameMax]
    exact sound.hole
  · rw [same.rx]
    exact sound.within

structure SameSender (s s' : TcpSocket) : Prop where
  tx : s'.tx = s.tx
  txOff : s'.txOff = s.txOff
  txLen : s'.txLen = s.txLen
  txSent : s'.txSent = s.txSent
  sndUna : s'.sndUna = s.sndUna
  sndMax : s'.sndMax = s.sndMax
  finQueued : s'.finQueued = s.finQueued
  finSent : s'.finSent = s.finSent

theorem SendSound.same (sound : SendSound s) (same : SameSender s s') : SendSound s' := by
  have sameMax : s'.txMax = s.txMax := congrArg Buffer.size same.tx
  refine ⟨?_, ?_, ?_, ?_, ?_, ?_⟩
  · rw [same.txSent, same.txLen]
    exact sound.sent
  · rw [same.txOff, same.txLen, sameMax]
    exact sound.queue
  · rw [sameMax]
    exact sound.size
  · rw [same.sndMax, same.sndUna, same.txSent, same.finSent, same.txLen]
    exact sound.flight
  · rw [same.finSent, same.txSent, same.txLen]
    exact sound.fin
  · rw [same.tx]
    exact sound.within

/-- Sending changes neither what is queued nor what was acknowledged. -/
structure Sends (s s' : TcpSocket) : Prop where
  receiver : SameReceiver s s'
  state : s'.state = s.state
  finQueued : s'.finQueued = s.finQueued
  finSent : s'.finSent = true → s.finSent = true ∨ s.finQueued = true
  txLen : s'.txLen = s.txLen
  sndUna : s'.sndUna = s.sndUna

theorem Sends.refl (s : TcpSocket) : Sends s s := ⟨SameReceiver.refl s, rfl, rfl, Or.inl, rfl, rfl⟩

theorem Sends.trans (first : Sends s s') (second : Sends s' s'') : Sends s s'' := by
  refine ⟨first.receiver.trans second.receiver, second.state.trans first.state,
    second.finQueued.trans first.finQueued, fun isSent => ?_, second.txLen.trans first.txLen,
    second.sndUna.trans first.sndUna⟩
  obtain before | queued := second.finSent isSent
  · exact first.finSent before
  · exact .inr (first.finQueued ▸ queued)

theorem raiseMax_eq {d e : Nat} (isMax : s.sndMax = s.sndUna + BitVec.ofNat 32 d)
    (nearD : d < 2 ^ 31) (nearE : e < 2 ^ 31) :
    s.raiseMax (s.sndUna + BitVec.ofNat 32 e) = s.sndUna + BitVec.ofNat 32 (max d e) := by
  have isDiff := @Seq.diff_near s.sndUna e d (by omega) (by omega)
  rw [TcpSocket.raiseMax, isMax, isDiff]
  split
  · rw [Nat.max_eq_right (by omega)]
  · rw [Nat.max_eq_left (by omega)]

theorem outputLoop_sound (sound : SendSound s) :
    SendSound (TcpSocket.outputLoop now wnd fuel sends s).1 ∧
    Sends s (TcpSocket.outputLoop now wnd fuel sends s).1 := by
  induction fuel generalizing s sends with
  | zero => exact ⟨sound, Sends.refl s⟩
  | succ fuel ih =>
      rw [TcpSocket.outputLoop]
      split
      case isFalse => exact ⟨sound, Sends.refl s⟩
      case isTrue more =>
        dsimp only
        split
        case isTrue => exact ⟨sound, Sends.refl s⟩
        case isFalse refused =>
          obtain ⟨n, isN⟩ : ∃ n, min (min (s.txLen - s.txSent) s.mss) (wnd - s.txSent) = n := ⟨_, rfl⟩
          rw [isN]
          have inQueue : s.txSent + n ≤ s.txLen := by omega
          have unsent : s.finSent = false := by
            cases isFin : s.finSent with
            | false => rfl
            | true => exact absurd (sound.fin isFin) (by omega)
          obtain ⟨d, isMax, isSent, isQueued⟩ := sound.flight
          have := sound.queue
          have isSize : s.txMax = 65535 := sound.size
          have raised := raiseMax_eq isMax (show d < 2 ^ 31 by omega) (show s.txSent + n < 2 ^ 31 by omega)
          have stepped : ∀ rttSeq rttStart, SendSound { s with
              rttSeq := rttSeq, rttStart := rttStart, txSent := s.txSent + n
              sndMax := s.raiseMax (s.sndUna + BitVec.ofNat 32 (s.txSent + n)) } := by
            intro rttSeq rttStart
            refine ⟨inQueue, sound.queue, sound.size, ⟨max d (s.txSent + n), raised, ?_, by dsimp only; omega⟩, ?_, sound.within⟩
            · simp only [unsent, Bool.toNat_false]
              omega
            · intro isFin
              rw [unsent] at isFin
              cases isFin
          obtain ⟨after, quiet⟩ := @ih _ (sends - 1) (stepped
            (if s.rtxCount = 0 ∧ s.rttStart = 0 then s.sndUna + BitVec.ofNat 32 s.txSent + BitVec.ofNat 32 n else s.rttSeq)
            (if s.rtxCount = 0 ∧ s.rttStart = 0 then now else s.rttStart))
          refine ⟨after, Sends.trans ?_ quiet⟩
          exact ⟨⟨rfl, rfl, rfl, rfl, rfl⟩, rfl, rfl, Or.inl, rfl, rfl⟩

theorem outputFin_sound (sound : SendSound s) :
    SendSound (TcpSocket.outputFin sends s).1 ∧ Sends s (TcpSocket.outputFin sends s).1 := by
  rw [TcpSocket.outputFin]
  split
  · rename_i due
    obtain ⟨d, isMax, isSent, isQueued⟩ := sound.flight
    have := sound.queue
    have isSize : s.txMax = 65535 := sound.size
    have isEnd : s.sndUna + BitVec.ofNat 32 s.txLen + 1 =
      s.sndUna + BitVec.ofNat 32 (s.txLen + 1) :=
      Seq.add_ofNat s.sndUna s.txLen 1
    have raised := raiseMax_eq isMax (show d < 2 ^ 31 by omega) (show s.txLen + 1 < 2 ^ 31 by omega)
    refine ⟨⟨sound.sent, sound.queue, sound.size, ⟨max d (s.txLen + 1), ?_, ?_, ?_⟩,
      fun _ => due.2.2.1, sound.within⟩,
      ⟨⟨rfl, rfl, rfl, rfl, rfl⟩, rfl, rfl, fun _ => .inr due.1, rfl, rfl⟩⟩
    · dsimp only
      rw [isEnd]
      exact raised
    · simp only [Bool.toNat_true]
      omega
    · simp only
      omega
  · exact ⟨sound, Sends.refl s⟩

theorem arm_sends (now : Nat) (s : TcpSocket) : SameSender s (s.arm now) ∧ Sends s (s.arm now) := by
  rw [TcpSocket.arm]
  split
  · exact ⟨⟨rfl, rfl, rfl, rfl, rfl, rfl, rfl, rfl⟩,
      ⟨⟨rfl, rfl, rfl, rfl, rfl⟩, rfl, rfl, Or.inl, rfl, rfl⟩⟩
  · exact ⟨⟨rfl, rfl, rfl, rfl, rfl, rfl, rfl, rfl⟩, Sends.refl s⟩

theorem output_sound (sound : SendSound s) :
    SendSound (s.output now sends).1 ∧ Sends s (s.output now sends).1 := by
  rw [TcpSocket.output]
  split
  · dsimp only
    obtain ⟨sent, loopSends⟩ :=
      @outputLoop_sound s now sends (max 1 (min s.cwnd s.peerWnd)) (s.txLen - s.txSent) sound
    obtain ⟨loop, isLoop⟩ :
      ∃ loop, TcpSocket.outputLoop now (max 1 (min s.cwnd s.peerWnd)) (s.txLen - s.txSent) sends s =
      loop := ⟨_, rfl⟩
    rw [isLoop] at sent loopSends ⊢
    obtain ⟨ended, finSends⟩ := @outputFin_sound loop.1 loop.2.2 sent
    obtain ⟨last, isLast⟩ : ∃ last, TcpSocket.outputFin loop.2.2 loop.1 = last := ⟨_, rfl⟩
    rw [isLast] at ended finSends ⊢
    obtain ⟨sameSender, armSends⟩ := arm_sends now { last.1 with sndNxt := last.1.sentEnd }
    have moved : SendSound { last.1 with sndNxt := last.1.sentEnd } :=
      ended.same ⟨rfl, rfl, rfl, rfl, rfl, rfl, rfl, rfl⟩
    have movedSends : Sends last.1 { last.1 with sndNxt := last.1.sentEnd } :=
      ⟨⟨rfl, rfl, rfl, rfl, rfl⟩, rfl, rfl, Or.inl, rfl, rfl⟩
    exact ⟨moved.same sameSender, loopSends.trans (finSends.trans (movedSends.trans armSends))⟩
  · exact ⟨sound, Sends.refl s⟩

theorem rewind_sound (sound : SendSound s) : SendSound s.rewind ∧ Sends s s.rewind := by
  obtain ⟨d, isMax, isSent, isQueued⟩ := sound.flight
  exact ⟨⟨Nat.zero_le _, sound.queue, sound.size, ⟨d, isMax, Nat.zero_le _, isQueued⟩,
    fun isFin => (nomatch isFin),
    sound.within⟩, ⟨⟨rfl, rfl, rfl, rfl, rfl⟩, rfl, rfl, fun isFin => (nomatch isFin), rfl, rfl⟩⟩

def Synchronized (s : TcpSocket) : Prop := s.state ≠ .synSent ∧ s.state ≠ .synReceived

theorem SocketSound.quiet (sound : SocketSound s) (sent : SendSound s') (quiet : Sends s s')
    (past : Synchronized s) : SocketSound s' := by
  refine ⟨sent, sound.recv.same quiet.receiver, ⟨fun isFin => ?_, fun opening => ?_⟩⟩
  · rw [quiet.state]
    refine sound.phase.fin ?_
    obtain queued | isSent := isFin
    · exact .inl (quiet.finQueued ▸ queued)
    · exact (quiet.finSent isSent).symm
  · rw [quiet.state] at opening
    exact absurd opening (not_or.mpr past)

theorem SocketSound.output (sound : SocketSound s) : SocketSound (s.output now sends).1 := by
  obtain ⟨sent, quiet⟩ := @output_sound s now sends sound.send
  by_cases active : TcpSocket.sendsIn s.state = true
  · refine sound.quiet sent quiet ⟨fun isState => ?_, fun isState => ?_⟩ <;>
    · rw [isState] at active
      cases active
  · rw [TcpSocket.output, if_neg active]
    exact sound

theorem dropAcked_sound {acked d : Nat} (sound : SendSound s)
    (isMax : s.sndMax = s.sndUna + BitVec.ofNat 32 d)
    (isSent : s.txSent + s.finSent.toNat ≤ d) (isQueued : d ≤ s.txLen + 1)
    (inQueue : acked ≤ s.txLen) (inFlight : acked ≤ d) :
    SendSound (s.dropAcked acked) ∧
      (s.dropAcked acked).sndMax = (s.dropAcked acked).sndUna + BitVec.ofNat 32 (d - acked) ∧
      SameReceiver s (s.dropAcked acked) ∧ (s.dropAcked acked).state = s.state ∧
      (s.dropAcked acked).finQueued = s.finQueued ∧ (s.dropAcked acked).finSent = s.finSent ∧
      (s.dropAcked acked).txLen = s.txLen - acked := by
  have isSplit : s.sndMax = s.sndUna + BitVec.ofNat 32 acked + BitVec.ofNat 32 (d - acked) := by
    rw [isMax, Seq.add_ofNat, Nat.add_sub_cancel' inFlight]
  rw [TcpSocket.dropAcked]
  split
  · rename_i isZero
    subst isZero
    exact ⟨sound, isMax, SameReceiver.refl s, rfl, rfl, rfl, rfl⟩
  · have := sound.sent
    have := sound.queue
    refine ⟨⟨?_, ?_, sound.size, ⟨d - acked, isSplit, ?_, ?_⟩, ?_, sound.within⟩, isSplit,
      ⟨rfl, rfl, rfl, rfl, rfl⟩, rfl, rfl, rfl, rfl⟩
    · dsimp only
      omega
    · change (if s.txLen - acked = 0 then 0 else s.txOff + acked) + (s.txLen - acked) ≤ s.txMax
      split <;> omega
    · dsimp only
      cases isFin : s.finSent with
      | false =>
          rw [isFin] at isSent
          simp only [Bool.toNat_false] at isSent ⊢
          omega
      | true =>
          have isAll := sound.fin isFin
          rw [isFin] at isSent
          simp only [Bool.toNat_true] at isSent ⊢
          omega
    · dsimp only
      omega
    · intro isFin
      have isAll := sound.fin isFin
      dsimp only
      omega

theorem processDuplicate_sound {win : Nat} {pure : Bool} {outstanding : Int} (sound : SendSound s) :
    SendSound (s.processDuplicate now sends win pure outstanding).1 ∧
      Sends s (s.processDuplicate now sends win pure outstanding).1 := by
  have kept : ∀ peerWnd dupAcks ssthresh cwnd, SendSound { s with
      peerWnd := peerWnd, dupAcks := dupAcks, ssthresh := ssthresh, cwnd := cwnd } ∧ Sends s { s with
      peerWnd := peerWnd, dupAcks := dupAcks, ssthresh := ssthresh, cwnd := cwnd } := by
    intro peerWnd dupAcks ssthresh cwnd
    exact ⟨sound.same ⟨rfl, rfl, rfl, rfl, rfl, rfl, rfl, rfl⟩,
      ⟨⟨rfl, rfl, rfl, rfl, rfl⟩, rfl, rfl, Or.inl, rfl, rfl⟩⟩
  rw [TcpSocket.processDuplicate]
  dsimp only
  split
  · split
    · obtain ⟨lost, lostSends⟩ := kept win ((s.dupAcks + 1) % 256) _ _
      obtain ⟨rewound, rewindSends⟩ := rewind_sound lost
      obtain ⟨resent, resends⟩ := @output_sound _ now sends rewound
      exact ⟨resent, lostSends.trans (rewindSends.trans resends)⟩
    · exact kept win ((s.dupAcks + 1) % 256) s.ssthresh s.cwnd
  · split
    · obtain ⟨opened, openSends⟩ := kept win s.dupAcks s.ssthresh s.cwnd
      obtain ⟨resent, resends⟩ := @output_sound _ now sends opened
      exact ⟨resent, openSends.trans resends⟩
    · exact kept win s.dupAcks s.ssthresh s.cwnd

theorem finAcked_sound (sound : SendSound s) (isMax : s.sndMax = s.sndUna + BitVec.ofNat 32 1)
    (isEmpty : s.txLen = 0) :
      SendSound (s.finAcked now) ∧ SameReceiver s (s.finAcked now) ∧
      (s.finAcked now).finQueued = false ∧ (s.finAcked now).finSent = false := by
  have := sound.sent
  have isSent : s.txSent = 0 := by omega
  have base : SendSound
    { s with sndUna := s.sndUna + 1, finQueued := false, finSent := false } := by
    refine ⟨sound.sent, sound.queue, sound.size, ⟨0, ?_, ?_, Nat.zero_le _⟩,
      fun isFin => (nomatch isFin), sound.within⟩
    · exact isMax.trans (BitVec.add_zero _).symm
    · simp [isSent]
  rw [TcpSocket.finAcked]
  split <;> exact ⟨base.same ⟨rfl, rfl, rfl, rfl, rfl, rfl, rfl, rfl⟩, ⟨rfl, rfl, rfl, rfl, rfl⟩,
    rfl, rfl⟩

theorem finAcked_state (s : TcpSocket) (now : Nat) :
    (s.finAcked now).state = s.state ∨ s.state = .finWait1 ∧ (s.finAcked now).state = .finWait2 ∨
      (s.finAcked now).state = .timeWait ∨ (s.finAcked now).state = .closed := by
  rw [TcpSocket.finAcked]
  split
  · rename_i isState
    exact .inr (.inl ⟨isState, rfl⟩)
  · exact .inr (.inr (.inl rfl))
  · exact .inr (.inr (.inr rfl))
  · exact .inl rfl

structure Acks (s s' : TcpSocket) : Prop where
  receiver : SameReceiver s s'
  past : Synchronized s'
  takes : TcpSocket.takesData s'.state = true → TcpSocket.takesData s.state = true

theorem Acks.ofSends (quiet : Sends s s') (past : Synchronized s) : Acks s s' := by
  refine ⟨quiet.receiver, ?_, fun takes => quiet.state ▸ takes⟩
  rw [Synchronized, quiet.state]
  exact past

theorem Acks.trans (first : Acks s s') (second : Acks s' s'') : Acks s s'' :=
  ⟨first.receiver.trans second.receiver, second.past, fun takes => first.takes (second.takes takes)⟩

theorem SocketSound.same (sound : SocketSound s) (sender : SameSender s s')
    (receiver : SameReceiver s s') (sameState : s'.state = s.state) : SocketSound s' := by
  refine ⟨sound.send.same sender, sound.recv.same receiver, ?_, ?_⟩
  · rw [sender.finQueued, sender.finSent, sameState]
    exact sound.phase.fin
  · rw [sender.txLen, receiver.oooLen, sender.sndMax, sender.sndUna, sameState]
    exact sound.phase.opening

theorem sampleRtt_same (now : Nat) (ack : Seq) (s : TcpSocket) :
    SameSender s (s.sampleRtt now ack) ∧ SameReceiver s (s.sampleRtt now ack) ∧
    (s.sampleRtt now ack).state = s.state := by
  rw [TcpSocket.sampleRtt]
  split <;> exact ⟨⟨rfl, rfl, rfl, rfl, rfl, rfl, rfl, rfl⟩, ⟨rfl, rfl, rfl, rfl, rfl⟩, rfl⟩

theorem SocketSound.cutQueue {adv d : Nat} (sound : SocketSound s) (past : Synchronized s)
    (isMax : s.sndMax = s.sndUna + BitVec.ofNat 32 d) (isSent : s.txSent + s.finSent.toNat ≤ d)
    (isQueued : d ≤ s.txLen + 1) (inFlight : adv ≤ d) :
    SocketSound (s.cutQueue now adv) ∧ Acks s (s.cutQueue now adv) := by
  rw [TcpSocket.cutQueue]
  obtain ⟨acked, isAcked⟩ : ∃ acked, min adv s.txLen = acked := ⟨_, rfl⟩
  rw [isAcked]
  obtain ⟨cut, cutMax, cutReceiver, cutState, cutQueued, cutFin, cutLen⟩ :=
    @dropAcked_sound s acked d sound.send isMax isSent isQueued (by omega) (by omega)
  obtain ⟨s₁, isCut⟩ : ∃ s₁, s.dropAcked acked = s₁ := ⟨_, rfl⟩
  rw [isCut] at cut cutMax cutReceiver cutState cutQueued cutFin cutLen ⊢
  have cutPast : Synchronized s₁ := by
    rw [Synchronized, cutState]
    exact past
  split
  · rename_i isFinAcked
    rw [Bool.and_eq_true, decide_eq_true_eq] at isFinAcked
    have isLast : acked = s.txLen ∧ d = acked + 1 := by omega
    rw [isLast.2, Nat.add_sub_cancel_left] at cutMax
    obtain ⟨ended, endReceiver, unqueued, unsent⟩ := @finAcked_sound s₁ now cut cutMax (by omega)
    have isState := finAcked_state s₁ now
    rw [cutState] at isState
    have endPast : Synchronized (s₁.finAcked now) := by
      rw [Synchronized]
      obtain same | ⟨-, isState⟩ | isState | isState := isState
      · rw [same]
        exact past
      all_goals
        rw [isState]
        exact ⟨fun same => (nomatch same), fun same => (nomatch same)⟩
    refine ⟨⟨ended, sound.recv.same (cutReceiver.trans endReceiver), fun isFin => ?_,
      fun opening => ?_⟩, cutReceiver.trans endReceiver, endPast, fun takes => ?_⟩
    · rw [unqueued, unsent] at isFin
      exact absurd isFin (by simp)
    · exact absurd opening (not_or.mpr endPast)
    · obtain same | ⟨before, -⟩ | isState | isState := isState
      · exact same ▸ takes
      · rw [before]
        rfl
      · rw [isState] at takes
        cases takes
      · rw [isState] at takes
        cases takes
  · refine ⟨⟨cut, sound.recv.same cutReceiver, fun isFin => ?_,
      fun opening => absurd opening (not_or.mpr cutPast)⟩,
      cutReceiver, cutPast, fun takes => cutState ▸ takes⟩
    rw [cutQueued, cutFin] at isFin
    rw [cutState]
    exact sound.phase.fin isFin

theorem SocketSound.processAck {ack : Seq} {win : Nat} {pure : Bool} (sound : SocketSound s)
    (past : Synchronized s) :
    SocketSound (s.processAck now sends ack win pure).1 ∧
    Acks s (s.processAck now sends ack win pure).1 := by
  obtain ⟨d, isMax, isSent, isQueued⟩ := sound.send.flight
  have inBuffer := sound.send.queue
  have isSize : s.txMax = 65535 := sound.send.size
  have isOut : Seq.diff s.sndMax s.sndUna = d := by
    rw [isMax]
    exact Seq.diff_base (by omega)
  rw [TcpSocket.processAck]
  dsimp only
  rw [isOut]
  split
  · exact ⟨sound, Acks.ofSends (Sends.refl s) past⟩
  · split
    · obtain ⟨sent, quiet⟩ := @processDuplicate_sound s now sends win pure d sound.send
      exact ⟨sound.quiet sent quiet past, Acks.ofSends quiet past⟩
    · obtain ⟨sender, receiver, sameState⟩ := sampleRtt_same now ack { s with peerWnd := win, dupAcks := 0 }
      obtain ⟨timed, isTimed⟩ : ∃ timed, ({ s with peerWnd := win, dupAcks := 0 } : TcpSocket).sampleRtt now ack = timed :=
        ⟨_, rfl⟩
      rw [isTimed] at sender receiver sameState ⊢
      have timedSound : SocketSound { timed with rtxCount := 0 } :=
        sound.same ⟨sender.tx, sender.txOff, sender.txLen, sender.txSent, sender.sndUna, sender.sndMax, sender.finQueued,
          sender.finSent⟩ ⟨receiver.rx, receiver.rxLen, receiver.rcvNxt, receiver.oooSeq, receiver.oooLen⟩ sameState
      obtain ⟨cut, acks⟩ := @SocketSound.cutQueue _ now (Seq.diff ack s.sndUna).toNat d timedSound
        (by exact sameState ▸ past) (by rw [sender.sndMax, sender.sndUna]; exact isMax)
        (by rw [sender.txSent, sender.finSent]; exact isSent) (by rw [sender.txLen]; exact isQueued) (by omega)
      obtain ⟨s₂, isCut⟩ : ∃ s₂, ({ timed with rtxCount := 0 } : TcpSocket).cutQueue now (Seq.diff ack s.sndUna).toNat = s₂ :=
        ⟨_, rfl⟩
      rw [isCut] at cut acks ⊢
      have stopped : SocketSound { s₂ with rtxAt := 0 } :=
        cut.same ⟨rfl, rfl, rfl, rfl, rfl, rfl, rfl, rfl⟩ ⟨rfl, rfl, rfl, rfl, rfl⟩ rfl
      obtain ⟨-, quiet⟩ := @output_sound { s₂ with rtxAt := 0 } now sends stopped.send
      have cutAcks : Acks s { s₂ with rtxAt := 0 } := by
        have kept := acks.receiver
        refine ⟨⟨kept.rx.trans receiver.rx, kept.rxLen.trans receiver.rxLen, kept.rcvNxt.trans receiver.rcvNxt,
          kept.oooSeq.trans receiver.oooSeq, kept.oooLen.trans receiver.oooLen⟩, acks.past, fun takes => ?_⟩
        have before := acks.takes takes
        rw [sameState] at before
        exact before
      exact ⟨stopped.output, cutAcks.trans (Acks.ofSends quiet cutAcks.past)⟩

end Cos.Net
