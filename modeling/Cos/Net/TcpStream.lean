import Cos.Net.TcpReceive
import Cos.Net.TcpStack
import Mathlib

/-! # What a TCP socket sends and receives of a stream

The queue of a socket is the end of the stream that it was given, and every segment that it sends
has a part of it.  The receive buffer is a part of the stream of the other end, and so is the block
behind a gap.
-/

namespace Cos.Net

open Cos.Lib

variable {s s' s'' : TcpSocket} {segment : TcpSegment} {base ack : Seq} {now sends wnd fuel : Nat}

structure SameQueue (s s' : TcpSocket) : Prop where
  receiver : SameReceiver s s'
  state : s'.state = s.state
  tx : s'.tx = s.tx
  txOff : s'.txOff = s.txOff
  txLen : s'.txLen = s.txLen
  sndUna : s'.sndUna = s.sndUna
  finQueued : s'.finQueued = s.finQueued
  finSent : s'.finSent = s.finSent

theorem SameQueue.refl (s : TcpSocket) : SameQueue s s :=
  ⟨SameReceiver.refl s, rfl, rfl, rfl, rfl, rfl, rfl, rfl⟩

theorem SameQueue.trans (first : SameQueue s s') (second : SameQueue s' s'') : SameQueue s s'' :=
  ⟨first.receiver.trans second.receiver, second.state.trans first.state, second.tx.trans first.tx,
    second.txOff.trans first.txOff, second.txLen.trans first.txLen,
    second.sndUna.trans first.sndUna, second.finQueued.trans first.finQueued,
    second.finSent.trans first.finSent⟩

/-- The segment has a part of the queue, and acknowledges up to `ack`. -/
structure Emits (s : TcpSocket) (ack : Seq) (segment : TcpSegment) : Prop where
  syn : segment.isSyn = false
  fin : segment.isFin = false
  ack : segment.ack = ack
  part : ∃ k n, k + n ≤ s.txLen ∧ segment.seq = s.sndUna + BitVec.ofNat 32 k ∧
    segment.data = s.tx.read (s.txOff + k) n

theorem Emits.same (emits : Emits s ack segment) (same : SameQueue s' s) :
    Emits s' ack segment := by
  obtain ⟨k, n, inQueue, isSeq, isData⟩ := emits.part
  rw [same.txLen] at inQueue
  rw [same.sndUna] at isSeq
  rw [same.tx, same.txOff] at isData
  exact ⟨emits.syn, emits.fin, emits.ack, k, n, inQueue, isSeq, isData⟩

theorem Emits.back (emits : Emits s ack segment) (same : SameQueue s s') :
    Emits s' ack segment := by
  obtain ⟨k, n, inQueue, isSeq, isData⟩ := emits.part
  rw [← same.txLen] at inQueue
  rw [← same.sndUna] at isSeq
  rw [← same.tx, ← same.txOff] at isData
  exact ⟨emits.syn, emits.fin, emits.ack, k, n, inQueue, isSeq, isData⟩

theorem Emits.sender (emits : Emits s ack segment) (same : SameSender s s') :
    Emits s' ack segment := by
  obtain ⟨k, n, inQueue, isSeq, isData⟩ := emits.part
  rw [← same.txLen] at inQueue
  rw [← same.sndUna] at isSeq
  rw [← same.tx, ← same.txOff] at isData
  exact ⟨emits.syn, emits.fin, emits.ack, k, n, inQueue, isSeq, isData⟩

theorem Emits.acks {ack' : Seq} (emits : Emits s ack segment) (same : ack = ack') :
    Emits s ack' segment :=
  same ▸ emits

theorem ackNow_emits (unfinished : s.finSent = false) (sent : s.txSent ≤ s.txLen) :
    Emits s s.rcvNxt s.ackNow := by
  refine ⟨rfl, rfl, rfl, s.txSent, 0, sent, ?_, rfl⟩
  change s.sentEnd = _
  rw [TcpSocket.sentEnd, unfinished]
  exact BitVec.add_zero _

theorem outputLoop_emits : SameQueue s (TcpSocket.outputLoop now wnd fuel sends s).1 ∧
    ∀ segment ∈ (TcpSocket.outputLoop now wnd fuel sends s).2.1, Emits s s.rcvNxt segment := by
  induction fuel generalizing s sends with
  | zero => exact ⟨SameQueue.refl s, fun _ member => (by cases member)⟩
  | succ fuel ih =>
      rw [TcpSocket.outputLoop]
      split
      case isFalse => exact ⟨SameQueue.refl s, fun _ member => (by cases member)⟩
      case isTrue more =>
        dsimp only
        split
        case isTrue => exact ⟨SameQueue.refl s, fun _ member => (by cases member)⟩
        case isFalse refused =>
          obtain ⟨n, isN⟩ : ∃ n, min (min (s.txLen - s.txSent) s.mss) (wnd - s.txSent) = n := ⟨_, rfl⟩
          rw [isN]
          obtain ⟨s₁, isNext⟩ : ∃ s₁ : TcpSocket, { s with
            rttSeq := if s.rtxCount = 0 ∧ s.rttStart = 0 then s.sndUna + BitVec.ofNat 32 s.txSent + BitVec.ofNat 32 n
              else s.rttSeq
            rttStart := if s.rtxCount = 0 ∧ s.rttStart = 0 then now else s.rttStart
            txSent := s.txSent + n
            sndMax := s.raiseMax (s.sndUna + BitVec.ofNat 32 (s.txSent + n)) } = s₁ := ⟨_, rfl⟩
          have stepped : SameQueue s s₁ := by
            rw [← isNext]
            exact ⟨⟨rfl, rfl, rfl, rfl, rfl⟩, rfl, rfl, rfl, rfl, rfl, rfl, rfl⟩
          rw [isNext]
          obtain ⟨same, emitted⟩ := @ih s₁ (sends - 1)
          refine ⟨stepped.trans same, fun segment member => ?_⟩
          obtain rfl | later := List.mem_cons.mp member
          · exact ⟨rfl, rfl, rfl, s.txSent, n, by omega, rfl, rfl⟩
          · exact ((emitted segment later).same stepped).acks stepped.receiver.rcvNxt

theorem output_emits (unfinished : s.finQueued = false) :
    SameQueue s (s.output now sends).1 ∧
    ∀ segment ∈ (s.output now sends).2, Emits s s.rcvNxt segment := by
  rw [TcpSocket.output]
  split
  · dsimp only
    obtain ⟨same, emitted⟩ :=
      @outputLoop_emits s now sends (max 1 (min s.cwnd s.peerWnd)) (s.txLen - s.txSent)
    obtain ⟨loop, isLoop⟩ :
      ∃ loop, TcpSocket.outputLoop now (max 1 (min s.cwnd s.peerWnd)) (s.txLen - s.txSent) sends s =
      loop := ⟨_, rfl⟩
    rw [isLoop] at same emitted ⊢
    have noFin : TcpSocket.outputFin loop.2.2 loop.1 = (loop.1, []) := by
      rw [TcpSocket.outputFin, if_neg]
      rw [same.finQueued, unfinished]
      exact fun due => (by cases due.1)
    rw [noFin, List.append_nil]
    have armed : SameQueue loop.1 (TcpSocket.arm now { loop.1 with sndNxt := loop.1.sentEnd }) := by
      rw [TcpSocket.arm]
      split <;> exact ⟨⟨rfl, rfl, rfl, rfl, rfl⟩, rfl, rfl, rfl, rfl, rfl, rfl, rfl⟩
    exact ⟨same.trans armed, emitted⟩
  · exact ⟨SameQueue.refl s, fun _ member => (by cases member)⟩

/-- The queue is the end of the stream, and what is before it was acknowledged. -/
structure Sending (base : Seq) (stream : List UInt8) (s : TcpSocket) : Prop where
  unfinished : s.finQueued = false ∧ s.finSent = false
  queued : s.txLen ≤ stream.length
  una : s.sndUna = base + BitVec.ofNat 32 (stream.length - s.txLen)
  holds : s.tx.Holds s.txOff stream (stream.length - s.txLen) s.txLen

variable {stream : List UInt8}

theorem Sending.same (sending : Sending base stream s) (same : SameQueue s s') :
    Sending base stream s' := by
  refine ⟨?_, ?_, ?_, ?_⟩
  · rw [same.finQueued, same.finSent]
    exact sending.unfinished
  · rw [same.txLen]
    exact sending.queued
  · rw [same.sndUna, same.txLen]
    exact sending.una
  · rw [same.tx, same.txOff, same.txLen]
    exact sending.holds

theorem Sending.sender (sending : Sending base stream s) (same : SameSender s s') :
    Sending base stream s' := by
  refine ⟨?_, ?_, ?_, ?_⟩
  · rw [same.finQueued, same.finSent]
    exact sending.unfinished
  · rw [same.txLen]
    exact sending.queued
  · rw [same.sndUna, same.txLen]
    exact sending.una
  · rw [same.tx, same.txOff, same.txLen]
    exact sending.holds

theorem rewind_same (unfinished : s.finSent = false) : SameQueue s s.rewind :=
  ⟨⟨rfl, rfl, rfl, rfl, rfl⟩, rfl, rfl, rfl, rfl, rfl, rfl, unfinished.symm⟩

theorem processDuplicate_emits {win : Nat} {pure : Bool} {outstanding : Int}
    (unfinished : s.finQueued = false ∧ s.finSent = false) :
    SameQueue s (s.processDuplicate now sends win pure outstanding).1 ∧
      ∀ segment ∈ (s.processDuplicate now sends win pure outstanding).2,
      Emits s s.rcvNxt segment := by
  have kept : ∀ peerWnd dupAcks ssthresh cwnd, SameQueue s { s with
      peerWnd := peerWnd, dupAcks := dupAcks, ssthresh := ssthresh, cwnd := cwnd } := by
    intro peerWnd dupAcks ssthresh cwnd
    exact ⟨⟨rfl, rfl, rfl, rfl, rfl⟩, rfl, rfl, rfl, rfl, rfl, rfl, rfl⟩
  have sent : ∀ s', SameQueue s s' → SameQueue s (s'.output now sends).1 ∧
      ∀ segment ∈ (s'.output now sends).2, Emits s s.rcvNxt segment := by
    intro s' same
    obtain ⟨after, emitted⟩ := @output_emits s' now sends (same.finQueued.trans unfinished.1)
    refine ⟨same.trans after, fun segment member => ?_⟩
    exact ((emitted segment member).same same).acks same.receiver.rcvNxt
  rw [TcpSocket.processDuplicate]
  dsimp only
  split
  · split
    · exact sent _ (SameQueue.trans (kept win ((s.dupAcks + 1) % 256) _ _) (rewind_same unfinished.2))
    · exact ⟨kept win ((s.dupAcks + 1) % 256) s.ssthresh s.cwnd, fun _ member => (by cases member)⟩
  · split
    · exact sent _ (kept win s.dupAcks s.ssthresh s.cwnd)
    · exact ⟨kept win s.dupAcks s.ssthresh s.cwnd, fun _ member => (by cases member)⟩

theorem Sending.dropAcked {acked : Nat} (sending : Sending base stream s)
    (inQueue : acked ≤ s.txLen) :
      Sending base stream (s.dropAcked acked) ∧ SameReceiver s (s.dropAcked acked) ∧
      (s.dropAcked acked).state = s.state ∧ (s.dropAcked acked).txLen = s.txLen - acked := by
  have queued := sending.queued
  rw [TcpSocket.dropAcked]
  split
  · rename_i isZero
    subst isZero
    exact ⟨sending, SameReceiver.refl s, rfl, rfl⟩
  · have isStart : stream.length - s.txLen + acked = stream.length - (s.txLen - acked) := by omega
    refine ⟨⟨sending.unfinished, ?_, ?_, ?_⟩, ⟨rfl, rfl, rfl, rfl, rfl⟩, rfl, rfl⟩
    · exact Nat.le_trans (Nat.sub_le _ _) queued
    · rw [sending.una, Seq.add_ofNat, isStart]
    · change s.tx.Holds (if s.txLen - acked = 0 then 0 else s.txOff + acked) stream
        (stream.length - (s.txLen - acked)) (s.txLen - acked)
      rw [← isStart]
      split
      · rename_i isEmpty
        rw [isEmpty]
        exact fun _ inside => absurd inside (Nat.not_lt_zero _)
      · exact sending.holds.part (by omega)

theorem cutQueue_eq {adv : Nat} (unfinished : s.finSent = false) :
    s.cutQueue now adv = s.dropAcked (min adv s.txLen) := by
  rw [TcpSocket.cutQueue, unfinished, Bool.false_and, if_neg Bool.false_ne_true]

theorem Sending.processAck {at' win : Nat} {pure : Bool} (sending : Sending base stream s)
    (sound : SendSound s) (isAck : ack = base + BitVec.ofNat 32 at')
    (inStream : at' ≤ stream.length) (near : stream.length - at' < 2 ^ 31) :
    Sending base stream (s.processAck now sends ack win pure).1 ∧
      SameReceiver s (s.processAck now sends ack win pure).1 ∧
      (s.processAck now sends ack win pure).1.state = s.state ∧
      stream.length - (s.processAck now sends ack win pure).1.txLen ≤
      max (stream.length - s.txLen) at' ∧
      ∀ segment ∈ (s.processAck now sends ack win pure).2,
      Emits (s.processAck now sends ack win pure).1 s.rcvNxt segment := by
  have inBuffer := sound.queue
  have isSize : s.txMax = 65535 := sound.size
  have isAdv : Seq.diff ack s.sndUna = at' - ((stream.length - s.txLen : Nat) : Int) := by
    rw [isAck, sending.una]
    exact Seq.diff_near (by omega) (by omega)
  rw [TcpSocket.processAck]
  dsimp only
  rw [isAdv]
  split
  · exact ⟨sending, SameReceiver.refl s, rfl, Nat.le_max_left _ _,
      fun _ member => (by cases member)⟩
  · split
    · obtain ⟨same, emitted⟩ :=
        @processDuplicate_emits s now sends win pure (Seq.diff s.sndMax s.sndUna) sending.unfinished
      refine ⟨sending.same same, same.receiver, same.state, ?_, fun segment member => (emitted segment member).back same⟩
      rw [same.txLen]
      exact Nat.le_max_left _ _
    · obtain ⟨sender, receiver, sameState⟩ := sampleRtt_same now ack { s with peerWnd := win, dupAcks := 0 }
      obtain ⟨timed, isTimed⟩ : ∃ timed, ({ s with peerWnd := win, dupAcks := 0 } : TcpSocket).sampleRtt now ack = timed :=
        ⟨_, rfl⟩
      rw [isTimed] at sender receiver sameState ⊢
      have timedSame : SameQueue s { timed with rtxCount := 0 } :=
        ⟨⟨receiver.rx, receiver.rxLen, receiver.rcvNxt, receiver.oooSeq, receiver.oooLen⟩, sameState, sender.tx, sender.txOff,
          sender.txLen, sender.sndUna, sender.finQueued, sender.finSent⟩
      obtain ⟨adv, isCount⟩ : ∃ adv, ((at' : Int) - ((stream.length - s.txLen : Nat) : Int)).toNat = adv := ⟨_, rfl⟩
      have inQueue : adv ≤ s.txLen := by omega
      obtain ⟨s₀, isFresh⟩ : ∃ s₀ : TcpSocket, { timed with rtxCount := 0 } = s₀ := ⟨_, rfl⟩
      rw [isFresh] at timedSame ⊢
      rw [isCount, cutQueue_eq (timedSame.finSent.trans sending.unfinished.2), timedSame.txLen, Nat.min_eq_left inQueue]
      obtain ⟨cut, cutReceiver, cutState, cutLen⟩ := @Sending.dropAcked _ _ _ adv
        (sending.same timedSame) (Nat.le_trans inQueue (Nat.le_of_eq timedSame.txLen.symm))
      obtain ⟨s₁, isCut⟩ : ∃ s₁, s₀.dropAcked adv = s₁ := ⟨_, rfl⟩
      rw [isCut] at cut cutReceiver cutState cutLen ⊢
      have stopped : SameQueue s₁ { s₁ with rtxAt := 0 } :=
        ⟨⟨rfl, rfl, rfl, rfl, rfl⟩, rfl, rfl, rfl, rfl, rfl, rfl, rfl⟩
      obtain ⟨same, emitted⟩ := @output_emits { s₁ with rtxAt := 0 } now sends cut.unfinished.1
      have toEnd := stopped.trans same
      have allReceiver := timedSame.receiver.trans (cutReceiver.trans toEnd.receiver)
      refine ⟨cut.same toEnd, allReceiver, toEnd.state.trans (cutState.trans timedSame.state), ?_, fun segment member => ?_⟩
      · rw [toEnd.txLen, cutLen, timedSame.txLen]
        omega
      · have emits := (emitted segment member).back same
        have sameNext : ({ s₁ with rtxAt := 0 } : TcpSocket).rcvNxt = s.rcvNxt :=
          (timedSame.receiver.trans cutReceiver).rcvNxt
        exact emits.acks sameNext

theorem Sending.txAppend {data : List UInt8} (sending : Sending base stream s) :
    Sending base (stream ++ data) (s.txAppend data) ∧ SameReceiver s (s.txAppend data) ∧
      (s.txAppend data).state = s.state ∧ (s.txAppend data).txLen = s.txLen + data.length := by
  have queued := sending.queued
  have isStart : (stream ++ data).length - (s.txLen + data.length) = stream.length - s.txLen := by
    rw [List.length_append]
    omega
  have fresh : data <+: (stream ++ data).drop (stream.length - s.txLen + s.txLen) := by
    rw [Nat.sub_add_cancel queued, List.drop_left]
  have added : ∀ (off : Nat) (tx : Buffer UInt8),
      tx.Holds off stream (stream.length - s.txLen) s.txLen → Sending base (stream ++ data) { s with
        txOff := off, tx := tx.write (off + s.txLen) data, txLen := s.txLen + data.length } := by
    intro off tx holds
    refine ⟨sending.unfinished, ?_, ?_, ?_⟩
    · rw [List.length_append]
      exact Nat.add_le_add_right queued _
    · exact sending.una.trans (by rw [isStart])
    · rw [isStart]
      refine Buffer.Holds.join (holds.append.write fresh (by omega)) (Buffer.write_holds fresh)
  rw [TcpSocket.txAppend]
  split
  · refine ⟨added 0 (s.tx.slide s.txOff s.txLen) ?_, ⟨rfl, rfl, rfl, rfl, rfl⟩, rfl, rfl⟩
    exact @Buffer.Holds.slide _ _ s.txOff s.txLen _ _ 0 s.txLen sending.holds (by omega)
  · exact ⟨added s.txOff s.tx sending.holds, ⟨rfl, rfl, rfl, rfl, rfl⟩, rfl, rfl⟩

/-- The first `read` bytes of the stream were returned, the next ones are in the buffer. -/
structure Received (stream : List UInt8) (read : Nat) (s : TcpSocket) : Prop where
  bound : read + s.rxLen ≤ stream.length
  data : s.rx.Holds 0 stream read s.rxLen

structure Receiving (base : Seq) (stream : List UInt8) (read : Nat) (s : TcpSocket) : Prop extends
    Received stream read s where
  next : s.rcvNxt = base + BitVec.ofNat 32 (read + s.rxLen)
  hole : s.oooLen ≠ 0 → ∃ place, s.rxLen < place ∧ place + s.oooLen ≤ s.rxMax ∧
    s.oooSeq = base + BitVec.ofNat 32 (read + place) ∧
    s.rx.Holds place stream (read + place) s.oooLen

variable {read : Nat} {more : List UInt8}

theorem Received.same (received : Received stream read s) (same : SameReceiver s s') :
    Received stream read s' := by
  refine ⟨?_, ?_⟩
  · rw [same.rxLen]
    exact received.bound
  · rw [same.rx, same.rxLen]
    exact received.data

theorem Receiving.same (receiving : Receiving base stream read s) (same : SameReceiver s s') :
    Receiving base stream read s' := by
  have sameMax : s'.rxMax = s.rxMax := congrArg Buffer.size same.rx
  refine ⟨receiving.toReceived.same same, ?_, ?_⟩
  · rw [same.rcvNxt, same.rxLen]
    exact receiving.next
  · rw [same.oooLen, same.rxLen, same.oooSeq, same.rx, sameMax]
    exact receiving.hole

theorem Received.append (received : Received stream read s) : Received (stream ++ more) read s := by
  refine ⟨?_, received.data.append⟩
  rw [List.length_append]
  exact Nat.le_trans received.bound (Nat.le_add_right _ _)

theorem Receiving.append (receiving : Receiving base stream read s) :
    Receiving base (stream ++ more) read s := by
  refine ⟨receiving.toReceived.append, receiving.next, fun some => ?_⟩
  obtain ⟨place, behind, fits, isSeq, holds⟩ := receiving.hole some
  exact ⟨place, behind, fits, isSeq, holds.append⟩

theorem Receiving.keepHole {at' : Nat} (receiving : Receiving base stream read s)
    (sound : RecvSound s) (isSeq : segment.seq = base + BitVec.ofNat 32 at')
    (part : segment.data <+: stream.drop at') (behind : read + s.rxLen < at')
    (near : at' ≤ read + s.rxLen + 65536) :
    Receiving base stream read (s.keepHole segment) ∧ (s.keepHole segment).rxLen = s.rxLen := by
  have isSize : s.rxMax = 65535 := sound.size
  have isGap : (segment.seq - s.rcvNxt).toNat = at' - (read + s.rxLen) := by
    rw [isSeq, receiving.next]
    exact Seq.sub_toNat (by omega) (by omega)
  obtain ⟨pos, isPos⟩ : ∃ pos, s.rxLen + (at' - (read + s.rxLen)) = pos := ⟨_, rfl⟩
  have isAt : at' = read + pos := by omega
  subst isAt
  have ahead : s.rxLen < pos := by omega
  rw [TcpSocket.keepHole]
  simp only [isGap, isPos]
  split
  case isFalse => exact ⟨receiving, rfl⟩
  case isTrue fits =>
    have written : Received stream read { s with rx := s.rx.write pos segment.data } :=
      ⟨receiving.bound, receiving.data.write part (by omega)⟩
    have block := @Buffer.write_holds _ s.rx pos segment.data stream (read + pos) part
    split
    · exact ⟨⟨⟨written.bound, written.data⟩, receiving.next, fun _ => ⟨pos, ahead, fits.2, isSeq, block⟩⟩, rfl⟩
    · rename_i isHole
      obtain ⟨place, heldBehind, heldFits, heldSeq, held⟩ := receiving.hole isHole
      have kept := held.write part (show pos + (read + place) = place + (read + pos) by omega)
      split
      case isFalse => exact ⟨receiving, rfl⟩
      case isTrue touches =>
        obtain ⟨length, isLength⟩ : ∃ length, segment.data.length = length := ⟨_, rfl⟩
        rw [isLength] at fits touches block ⊢
        rw [heldSeq, isSeq, Seq.add_ofNat, Seq.add_ofNat] at touches ⊢
        rw [Seq.diff_near (by omega) (by omega), Seq.diff_near (by omega) (by omega)] at touches
        have isFirst : (if Seq.diff (base + BitVec.ofNat 32 (read + pos)) (base + BitVec.ofNat 32 (read + place)) < 0 then
            base + BitVec.ofNat 32 (read + pos) else base + BitVec.ofNat 32 (read + place)) =
            base + BitVec.ofNat 32 (read + min pos place) := by
          rw [Seq.diff_near (by omega) (by omega)]
          split
          · rw [Nat.min_eq_left (by omega)]
          · rw [Nat.min_eq_right (by omega)]
        have isLast : (if 0 < Seq.diff (base + BitVec.ofNat 32 (read + pos + length))
            (base + BitVec.ofNat 32 (read + place + s.oooLen)) then base + BitVec.ofNat 32
            (read + pos + length) else base + BitVec.ofNat 32 (read + place + s.oooLen)) =
            base + BitVec.ofNat 32 (read + max (pos + length) (place + s.oooLen)) := by
          rw [Seq.diff_near (by omega) (by omega), Nat.add_assoc, Nat.add_assoc]
          split
          · rw [Nat.max_eq_left (by omega)]
          · rw [Nat.max_eq_right (by omega)]
        have isCount : read + max (pos + length) (place + s.oooLen) - (read + min pos place) =
            max (pos + length) (place + s.oooLen) - min pos place := by omega
        rw [isFirst, isLast, Seq.sub_toNat (by omega) (by omega), isCount]
        refine ⟨⟨⟨written.bound, written.data⟩, receiving.next, fun _ => ⟨min pos place, ?_, ?_, rfl, ?_⟩⟩, rfl⟩
        · exact lt_min ahead heldBehind
        · change min pos place + (max (pos + length) (place + s.oooLen) - min pos place) ≤ s.rxMax
          omega
        · exact block.merge kept (by omega)

theorem closeHole_receiving (received : Received stream read s)
    (isNext : s.rcvNxt = base + BitVec.ofNat 32 (read + s.rxLen)) (isSize : s.rxMax = tcpWindowSize)
    (inBuffer : s.rxLen ≤ s.rxMax)
    (hole : s.oooLen ≠ 0 →
      ∃ place, place + s.oooLen ≤ s.rxMax ∧ s.oooSeq = base + BitVec.ofNat 32 (read + place) ∧
      s.rx.Holds place stream (read + place) s.oooLen) :
    Receiving base stream read s.closeHole ∧ s.rxLen ≤ s.closeHole.rxLen := by
  have bound : s.rxMax = 65535 := isSize
  by_cases isHole : s.oooLen = 0
  · rw [TcpSocket.closeHole, if_neg (fun both => both.1 isHole)]
    exact ⟨⟨received, isNext, fun some => absurd isHole some⟩, Nat.le_refl _⟩
  · obtain ⟨place, fits, isSeq, holds⟩ := hole isHole
    have isDiff : Seq.diff s.oooSeq s.rcvNxt =
      ((read + place : Nat) : Int) - ((read + s.rxLen : Nat) : Int) := by
      rw [isSeq, isNext]
      exact Seq.diff_near (by omega) (by omega)
    rw [TcpSocket.closeHole, isDiff]
    by_cases reached : place ≤ s.rxLen
    · have isOverlap : (s.rcvNxt - s.oooSeq).toNat = s.rxLen - place := by
        rw [isSeq, isNext, Seq.sub_toNat (by omega) (by omega)]
        omega
      rw [if_pos ⟨isHole, by omega⟩, isOverlap]
      obtain ⟨fresh, isFresh⟩ : ∃ fresh, s.oooLen - (s.rxLen - place) = fresh := ⟨_, rfl⟩
      dsimp only
      rw [isFresh]
      have joined : s.rx.Holds 0 stream read (s.rxLen + fresh) := by
        by_cases isNone : fresh = 0
        · rw [isNone]
          exact received.data
        · have tail := @Buffer.Holds.part _ _ _ _ _ _ (s.rxLen - place) fresh holds (by omega)
          rw [Nat.add_sub_cancel' reached, Nat.add_assoc, Nat.add_sub_cancel' reached] at tail
          refine received.data.join ?_
          rw [Nat.zero_add]
          exact tail
      refine ⟨⟨⟨?_, joined⟩, ?_, fun some => absurd rfl some⟩, Nat.le_add_right _ _⟩
      · by_cases isNone : s.rxLen + fresh = 0
        · omega
        · exact joined.length isNone
      · rw [isNext, Seq.add_ofNat, Nat.add_assoc]
    · rw [if_neg (fun both => reached (by omega))]
      exact ⟨⟨received, isNext, fun _ => ⟨place, Nat.lt_of_not_le reached, fits, isSeq, holds⟩⟩, Nat.le_refl _⟩

theorem Receiving.takeBytes {bytes : List UInt8} (receiving : Receiving base stream read s)
    (sound : RecvSound s) (part : bytes <+: stream.drop (read + s.rxLen))
    (fits : bytes.length ≤ s.rxMax - s.rxLen) :
    Receiving base stream read (s.takeBytes bytes).closeHole ∧
    s.rxLen ≤ (s.takeBytes bytes).closeHole.rxLen := by
  have room := sound.received
  have hole : s.oooLen ≠ 0 →
      ∃ place, place + s.oooLen ≤ s.rxMax ∧ s.oooSeq = base + BitVec.ofNat 32 (read + place) ∧
      s.rx.Holds place stream (read + place) s.oooLen := by
    intro some
    obtain ⟨place, -, fits, isSeq, holds⟩ := receiving.hole some
    exact ⟨place, fits, isSeq, holds⟩
  rw [TcpSocket.takeBytes]
  split
  · exact closeHole_receiving receiving.toReceived receiving.next sound.size room hole
  · have kept : (s.rx.write s.rxLen bytes).Holds 0 stream read s.rxLen :=
      receiving.data.write part (by omega)
    have fresh : (s.rx.write s.rxLen bytes).Holds (0 + s.rxLen) stream (read + s.rxLen)
      bytes.length := by
      rw [Nat.zero_add]
      exact Buffer.write_holds part
    have inStream : read + s.rxLen + bytes.length ≤ stream.length := by
      have length := part.length_le
      have := receiving.bound
      rw [List.length_drop] at length
      omega
    obtain ⟨s₁, isTaken⟩ : ∃ s₁ : TcpSocket, { s with
      rx := s.rx.write s.rxLen bytes, rxLen := s.rxLen + bytes.length
      rcvNxt := s.rcvNxt + BitVec.ofNat 32 bytes.length } = s₁ := ⟨_, rfl⟩
    have isLen : s₁.rxLen = s.rxLen + bytes.length := by rw [← isTaken]
    have isMax : s₁.rxMax = s.rxMax := by rw [← isTaken]; rfl
    rw [isTaken]
    obtain ⟨closed, grown⟩ := @closeHole_receiving s₁ base stream read
      (by subst isTaken; exact ⟨by omega, kept.join fresh⟩)
      (by subst isTaken; rw [receiving.next, Seq.add_ofNat, Nat.add_assoc])
      (isMax.trans sound.size) (by omega)
      (by
        subst isTaken
        intro some
        obtain ⟨place, fits, isSeq, holds⟩ := hole some
        exact ⟨place, fits, isSeq, holds.write part (by omega)⟩)
    exact ⟨closed, by omega⟩

theorem Receiving.inputData {at' : Nat} (receiving : Receiving base stream read s)
    (sound : RecvSound s) (noFin : segment.isFin = false)
    (isSeq : segment.seq = base + BitVec.ofNat 32 at') (part : segment.data <+: stream.drop at')
    (near : stream.length - at' < 2 ^ 31) (window : stream.length ≤ read + s.rxLen + 65535) :
    Receiving base stream read (s.inputData now segment).1 ∧
      SameSender s (s.inputData now segment).1 ∧ (s.inputData now segment).1.state = s.state ∧
      s.rxLen ≤ (s.inputData now segment).1.rxLen ∧
      ∀ answer ∈ (s.inputData now segment).2, answer = (s.inputData now segment).1.ackNow := by
  have unchanged : SameSender s s := ⟨rfl, rfl, rfl, rfl, rfl, rfl, rfl, rfl⟩
  have bound := receiving.bound
  have length := part.length_le
  rw [List.length_drop] at length
  rw [TcpSocket.inputData]
  split
  case isFalse => exact ⟨receiving, unchanged, rfl, Nat.le_refl _,
    fun _ member => (by cases member)⟩
  case isTrue due =>
    have some : 0 < segment.data.length := by
      obtain some | isFin := due.2
      · exact some
      · rw [noFin] at isFin
        cases isFin
    have isOff : Seq.diff s.rcvNxt segment.seq = ((read + s.rxLen : Nat) : Int) - (at' : Int) := by
      rw [receiving.next, isSeq]
      exact Seq.diff_near (by omega) (by omega)
    dsimp only
    rw [isOff]
    split
    case isTrue behind =>
      obtain ⟨-, sender, sameState⟩ := @keepHole_sound s segment sound (by omega)
      obtain ⟨kept, sameLen⟩ := receiving.keepHole sound isSeq part (by omega) (by omega)
      exact ⟨kept, sender, sameState, Nat.le_of_eq sameLen.symm, fun _ member => List.mem_singleton.mp member⟩
    case isFalse ahead =>
      split
      case isTrue => exact ⟨receiving, unchanged, rfl, Nat.le_refl _, fun _ member => List.mem_singleton.mp member⟩
      case isFalse fresh =>
        obtain ⟨skip, isSkip⟩ : ∃ skip, (((read + s.rxLen : Nat) : Int) - (at' : Int)).toNat = skip := ⟨_, rfl⟩
        have isAt : at' + skip = read + s.rxLen := by omega
        rw [isSkip, TcpSocket.takeData]
        rw [if_neg (fun taken => by rw [noFin] at taken; cases taken.1)]
        obtain ⟨take, isTake⟩ : ∃ take, min (segment.data.length - skip) (s.rxMax - s.rxLen) = take := ⟨_, rfl⟩
        rw [isTake]
        have isCount : ((segment.data.drop skip).take take).length ≤ s.rxMax - s.rxLen := by
          rw [List.length_take]
          omega
        have isPart : (segment.data.drop skip).take take <+: stream.drop (read + s.rxLen) := by
          have dropped := part.drop skip
          rw [List.drop_drop, isAt] at dropped
          exact (List.take_prefix _ _).trans dropped
        obtain ⟨-, sender, sameState, -⟩ := takeBytes_sound sound isCount
        obtain ⟨taken, grown⟩ := receiving.takeBytes sound isPart isCount
        exact ⟨taken, sender, sameState, grown, fun _ member => List.mem_singleton.mp member⟩

theorem Received.recv {maxLen : Nat} (received : Received stream read s) :
    (s.recv maxLen).2.1 <+: stream.drop read ∧
      Received stream (read + (s.recv maxLen).2.1.length) (s.recv maxLen).2.2.1 ∧
      (s.recv maxLen).2.1.length + (s.recv maxLen).2.2.1.rxLen = s.rxLen := by
  have bound := received.bound
  rw [TcpSocket.recv]
  split
  case isTrue isEmpty => exact ⟨List.nil_prefix, received, Nat.zero_add _⟩
  case isFalse some =>
    dsimp only
    obtain ⟨count, isCount⟩ : ∃ count, min s.rxLen maxLen = count := ⟨_, rfl⟩
    obtain ⟨hole, isHole⟩ :
      ∃ hole, (if s.oooLen = 0 then 0 else (s.oooSeq - s.rcvNxt).toNat + s.oooLen) = hole :=
      ⟨_, rfl⟩
    rw [isCount, isHole, Buffer.read_length]
    refine ⟨Buffer.Holds.read (received.data.part (show 0 + count ≤ s.rxLen by omega)),
      ⟨?_, ?_⟩, by omega⟩
    · dsimp only
      omega
    · dsimp only
      have rest := @Buffer.Holds.part _ _ _ _ _ _ count (s.rxLen - count) received.data (by omega)
      split
      · have isZero : s.rxLen - count = 0 := by omega
        rw [isZero]
        exact fun _ before => absurd before (Nat.not_lt_zero _)
      · rw [Nat.zero_add] at rest
        exact @Buffer.Holds.slide _ _ count _ _ _ 0 _ rest (by omega)

theorem Receiving.recv {maxLen : Nat} (receiving : Receiving base stream read s)
    (sound : RecvSound s) :
    Receiving base stream (read + (s.recv maxLen).2.1.length) (s.recv maxLen).2.2.1 := by
  obtain ⟨-, received, isLength⟩ := @Received.recv _ _ _ maxLen receiving.toReceived
  refine ⟨received, ?_, ?_⟩
  · rw [Nat.add_assoc, isLength, ← receiving.next, TcpSocket.recv]
    split <;> rfl
  · have isSize : s.rxMax = 65535 := sound.size
    rw [TcpSocket.recv]
    split
    case isTrue isEmpty => exact receiving.hole
    case isFalse some =>
      dsimp only
      intro isHole
      rw [if_neg isHole]
      obtain ⟨place, behind, fits, isSeq, holds⟩ := receiving.hole isHole
      obtain ⟨count, isCount⟩ : ∃ count, min s.rxLen maxLen = count := ⟨_, rfl⟩
      have isGap : (s.oooSeq - s.rcvNxt).toNat = place - s.rxLen := by
        rw [isSeq, receiving.next, Seq.sub_toNat (by omega) (by omega)]
        omega
      have sameTail : s.rxLen - count + (place - s.rxLen + s.oooLen) = place - count + s.oooLen := by omega
      have samePlace : read + count + (place - count) = read + place := by omega
      rw [isCount, isGap, Buffer.read_length, sameTail, if_neg (by omega)]
      refine ⟨place - count, by omega, ?_, ?_, ?_⟩
      · change place - count + s.oooLen ≤ s.rxMax
        omega
      · rw [samePlace]
        exact isSeq
      · rw [samePlace]
        refine @Buffer.Holds.slide _ _ count _ _ _ (place - count) _ ?_ (Nat.le_refl _)
        rw [Nat.add_sub_cancel' (by omega)]
        exact holds

end Cos.Net
