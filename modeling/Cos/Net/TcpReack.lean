import Cos.Net.TcpEnd

/-! # Acknowledging again

Which segments that carry data or a FIN are answered with an acknowledgement of everything received
so far.
-/

namespace Cos.Net

open Cos.Lib

variable {s s' : TcpSocket} {now sends : Nat} {segment : TcpSegment}

def synchronized : TcpState → Bool
  | .established | .finWait1 | .finWait2 | .closeWait | .closing | .lastAck | .timeWait => true
  | _ => false

namespace TcpSocket

/-- With `sent` bytes of a queue of `queued` in flight, the window lets a segment out, or the FIN is
next. -/
def hasSegment (s : TcpSocket) (sent queued window : Nat) (unsentFin : Bool) : Bool :=
  decide (sent < queued ∧ sent < window) &&
    s.segmentFits (min (min (queued - sent) s.mss) (window - sent)) || unsentFin &&
    decide (sent = queued)

/-- `tcp_output` sends something. -/
def transmits (sends : Nat) (s : TcpSocket) : Bool :=
  sendsIn s.state && decide (sends ≠ 0) &&
    s.hasSegment s.txSent s.txLen (max 1 (min s.cwnd s.peerWnd)) (s.finQueued && !s.finSent)

/-- The acknowledgement in a segment is one of numbers that were sent. -/
def ackInRange (segment : TcpSegment) (s : TcpSocket) : Bool :=
  decide (0 ≤ Seq.diff segment.ack s.sndUna ∧
    Seq.diff segment.ack s.sndUna ≤ Seq.diff s.sndMax s.sndUna)

/-- How many numbers a segment acknowledges, and how many of them are bytes. -/
def ackedNumbers (segment : TcpSegment) (s : TcpSocket) : Nat :=
  (Seq.diff segment.ack s.sndUna).toNat

def ackedBytes (segment : TcpSegment) (s : TcpSocket) : Nat := min (s.ackedNumbers segment) s.txLen

def acksFin (segment : TcpSegment) (s : TcpSocket) : Bool :=
  s.ackInRange segment && s.finSent && decide (s.ackedBytes segment < s.ackedNumbers segment)

/-- The acknowledgement or the window in the segment lets more of the queue out. -/
def releases (sends : Nat) (segment : TcpSegment) (s : TcpSocket) : Bool :=
  let acked := s.ackedBytes segment
  let cwnd := if acked = 0 then s.cwnd else s.openWindow acked
  s.ackInRange segment && decide (sends ≠ 0) &&
    decide (0 < s.ackedNumbers segment ∨ s.peerWnd < segment.window) &&
    s.hasSegment (s.txSent - acked) (s.txLen - acked) (max 1 (min cwnd segment.window))
    (s.finQueued && !s.finSent)

def reacknowledges (sends : Nat) (segment : TcpSegment) (s : TcpSocket) : Bool :=
  if segment.isSyn then decide (segment.seq + 1 = s.rcvNxt)
  else segment.isAck && match s.state with
    | .established | .finWait1 | .finWait2 => true
    | .timeWait => segment.isFin
    | .closing => if s.acksFin segment then segment.isFin else s.releases sends segment
    | .lastAck => !s.acksFin segment && s.releases sends segment
    | .closeWait => s.releases sends segment
    | _ => false

end TcpSocket

theorem hasSegment_same (peer : s'.peer = s.peer) (peerMss : s'.peerMss = s.peerMss)
    (sent queued window : Nat) (fin : Bool) :
    s'.hasSegment sent queued window fin = s.hasSegment sent queued window fin := by
  have mss : s'.mss = s.mss := by simp only [TcpSocket.mss, peerMss]
  have fits : ∀ n, s'.segmentFits n = s.segmentFits n := fun n => by
    simp only [TcpSocket.segmentFits, peer]
  rw [TcpSocket.hasSegment, mss, fits]
  rfl

theorem outputLoop_acks (wnd fuel : Nat) :
    ∀ sent ∈ (s.outputLoop now wnd fuel sends).2.1, sent.isAck = true ∧ sent.ack = s.rcvNxt := by
  induction fuel generalizing s sends with
  | zero => exact fun _ member => (by cases member)
  | succ fuel ih =>
      rw [TcpSocket.outputLoop]
      split
      · dsimp only
        split
        · exact fun _ member => (by cases member)
        · intro sent member
          obtain rfl | rest := List.mem_cons.mp member
          · exact ⟨rfl, rfl⟩
          · obtain ⟨isAck, ack⟩ := ih sent rest
            exact ⟨isAck, ack⟩
      · exact fun _ member => (by cases member)

theorem output_acks : ∀ sent ∈ (s.output now sends).2, sent.isAck = true ∧ sent.ack = s.rcvNxt := by
  rw [TcpSocket.output]
  split
  · intro sent member
    obtain ⟨rttSeq, rttStart, txSent, sndMax, isLoop⟩ :=
      outputLoop_frame now (max 1 (min s.cwnd s.peerWnd)) (s.txLen - s.txSent) sends s
    obtain looped | ended := List.mem_append.mp member
    · exact outputLoop_acks _ _ sent looped
    · rw [TcpSocket.outputFin, isLoop] at ended
      split at ended
      · rw [List.mem_singleton.mp ended]
        exact ⟨rfl, rfl⟩
      · cases ended
  · exact fun _ member => (by cases member)

theorem outputLoop_nonempty (wnd : Nat) :
    (s.outputLoop now wnd (s.txLen - s.txSent) sends).2.1 ≠ [] ↔
      sends ≠ 0 ∧ (s.txSent < s.txLen ∧ s.txSent < wnd) ∧
      s.segmentFits (min (min (s.txLen - s.txSent) s.mss) (wnd - s.txSent)) = true := by
  have positive := mss_pos s
  cases isFuel : s.txLen - s.txSent with
  | zero =>
      refine ⟨fun some => absurd rfl some, fun both => ?_⟩
      omega
  | succ fuel =>
      rw [TcpSocket.outputLoop]
      by_cases goes : s.txSent < s.txLen ∧ s.txSent < wnd
      · rw [if_pos goes, isFuel]
        dsimp only
        split
        · next stops =>
          refine ⟨fun some => absurd rfl some, fun both => ?_⟩
          obtain none | refused | out := stops
          · omega
          · exact absurd (refused.symm.trans both.2.2) (by rintro ⟨⟩)
          · exact absurd out both.1
        · next sendsOne =>
          rw [not_or, not_or, Bool.not_eq_false] at sendsOne
          exact ⟨fun _ => ⟨sendsOne.2.2, goes, sendsOne.2.1⟩, fun _ => List.cons_ne_nil _ _⟩
      · rw [if_neg goes]
        exact ⟨fun some => absurd rfl some, fun both => absurd both.2.1 goes⟩

theorem outputLoop_idle {wnd fuel : Nat} (silent : (s.outputLoop now wnd fuel sends).2.1 = []) :
    s.outputLoop now wnd fuel sends = (s, [], sends) := by
  cases fuel with
  | zero => rfl
  | succ fuel =>
      rw [TcpSocket.outputLoop] at silent ⊢
      split
      · next goes =>
        rw [if_pos goes] at silent
        dsimp only at silent ⊢
        split
        · rfl
        · next sendsOne =>
          rw [if_neg sendsOne] at silent
          cases silent
      · rfl

theorem output_nonempty : (s.output now sends).2 ≠ [] ↔ s.transmits sends = true := by
  rw [TcpSocket.transmits, TcpSocket.output]
  split
  · next isOpen =>
    obtain ⟨wnd, isWindow⟩ : ∃ wnd, max 1 (min s.cwnd s.peerWnd) = wnd := ⟨_, rfl⟩
    rw [isWindow, isOpen, TcpSocket.hasSegment]
    have looped := @outputLoop_nonempty s now sends wnd
    by_cases silent : (s.outputLoop now wnd (s.txLen - s.txSent) sends).2.1 = []
    · have isIdle := outputLoop_idle silent
      have notLooped := (not_congr looped).mp (not_not.mpr silent)
      simp only [isIdle, List.nil_append, TcpSocket.outputFin]
      split
      · next ends => simp [ends.1, ends.2.1, ends.2.2.1, ends.2.2.2]
      · next ends =>
        refine ⟨fun some => absurd rfl some, fun both => ?_⟩
        simp only [Bool.and_eq_true, Bool.or_eq_true, decide_eq_true_eq, Bool.not_eq_true', Bool.true_and] at both
        obtain ⟨sendsOne, inWindow | unsent⟩ := both
        · exact absurd ⟨sendsOne, inWindow⟩ notLooped
        · exact absurd ⟨unsent.1.1, unsent.1.2, unsent.2, sendsOne⟩ ends
    · obtain ⟨sendsOne, inWindow, fits⟩ := looped.mp silent
      refine ⟨fun _ => ?_, fun _ => List.append_ne_nil_of_left_ne_nil silent _⟩
      rw [decide_eq_true sendsOne, decide_eq_true inWindow, fits]
      rfl
  · next notOpen =>
    simp [notOpen]

/-- What `transmits` and `openWindow` look at. -/
structure SameQueueView (s s' : TcpSocket) : Prop where
  state : s'.state = s.state
  peer : s'.peer = s.peer
  peerMss : s'.peerMss = s.peerMss
  txSent : s'.txSent = s.txSent
  txLen : s'.txLen = s.txLen
  cwnd : s'.cwnd = s.cwnd
  ssthresh : s'.ssthresh = s.ssthresh
  peerWnd : s'.peerWnd = s.peerWnd
  finQueued : s'.finQueued = s.finQueued
  finSent : s'.finSent = s.finSent

theorem SameQueueView.transmits (same : SameQueueView s s') :
    s'.transmits sends = s.transmits sends := by
  rw [TcpSocket.transmits, TcpSocket.transmits, same.state, same.txSent, same.txLen, same.cwnd,
    same.peerWnd, same.finQueued, same.finSent, hasSegment_same same.peer same.peerMss]

theorem SameQueueView.openWindow (same : SameQueueView s s') (acked : Nat) :
    s'.openWindow acked = s.openWindow acked := by
  have mss : s'.mss = s.mss := by simp only [TcpSocket.mss, same.peerMss]
  rw [TcpSocket.openWindow, TcpSocket.openWindow, mss, same.cwnd, same.ssthresh]

theorem dropAcked_view (acked : Nat) (s : TcpSocket) : SameQueueView { s with
    txSent := s.txSent - acked, txLen := s.txLen - acked,
      cwnd := if acked = 0 then s.cwnd else s.openWindow acked }
    (s.dropAcked acked) := by
  rw [TcpSocket.dropAcked]
  split
  · next none =>
    rw [none]
    exact ⟨rfl, rfl, rfl, rfl, rfl, rfl, rfl, rfl, rfl, rfl⟩
  · exact ⟨rfl, rfl, rfl, rfl, rfl, rfl, rfl, rfl, rfl, rfl⟩

def finAckedState : TcpState → TcpState
  | .finWait1 => .finWait2
  | .closing => .timeWait
  | .lastAck => .closed
  | state => state

theorem finAcked_next : (s.finAcked now).state = finAckedState s.state := by
  rw [TcpSocket.finAcked]
  split <;> next isState => simp_all [finAckedState, TcpSocket.enterTimeWait]

theorem finAcked_transmits :
    (s.finAcked now).transmits sends = (TcpSocket.sendsIn (finAckedState s.state) &&
    decide (sends ≠ 0) && s.hasSegment s.txSent s.txLen (max 1 (min s.cwnd s.peerWnd)) false) := by
  rw [TcpSocket.transmits, finAcked_next]
  have kept : (s.finAcked now).peer = s.peer ∧ (s.finAcked now).peerMss = s.peerMss ∧
      (s.finAcked now).txSent = s.txSent ∧ (s.finAcked now).txLen = s.txLen ∧
      (s.finAcked now).cwnd = s.cwnd ∧ (s.finAcked now).peerWnd = s.peerWnd ∧
      (s.finAcked now).finQueued = false := by
    rw [TcpSocket.finAcked]
    split <;> exact ⟨rfl, rfl, rfl, rfl, rfl, rfl, rfl⟩
  obtain ⟨peer, peerMss, txSent, txLen, cwnd, peerWnd, finQueued⟩ := kept
  rw [hasSegment_same peer peerMss, txSent, txLen, cwnd, peerWnd, finQueued, Bool.false_and]

theorem processAck_late (late : s.state = .closeWait ∨ s.state = .closing ∨ s.state = .lastAck) :
    ((s.processAck now sends segment.ack segment.window false).2 ≠ [] ↔
      (s.acksFin segment = false ∨ s.state = .closeWait) ∧ s.releases sends segment = true) ∧
    (s.processAck now sends segment.ack segment.window false).1.state =
      if s.acksFin segment = true then finAckedState s.state else s.state := by
  have isOpen : TcpSocket.sendsIn s.state = true := by
    obtain isState | isState | isState := late <;> rw [isState] <;> rfl
  rw [TcpSocket.processAck]
  dsimp only
  split
  · next outside =>
    have notInRange : s.ackInRange segment = false := by
      rw [TcpSocket.ackInRange, decide_eq_false_iff_not]
      omega
    simp [TcpSocket.acksFin, TcpSocket.releases, notInRange]
  · next inside =>
    have inRange : s.ackInRange segment = true := by
      rw [TcpSocket.ackInRange, decide_eq_true_iff]
      omega
    split
    · next noneNew =>
      have noNumbers : s.ackedNumbers segment = 0 := by
        rw [TcpSocket.ackedNumbers, noneNew]
        rfl
      have noBytes : s.ackedBytes segment = 0 := by rw [TcpSocket.ackedBytes, noNumbers, Nat.zero_min]
      have notFin : s.acksFin segment = false := by simp [TcpSocket.acksFin, noNumbers]
      have stays : (if s.acksFin segment = true then finAckedState s.state else s.state) = s.state := if_neg (by simp [notFin])
      have notPure : ¬ (false = true ∧ 0 < Seq.diff s.sndMax s.sndUna ∧ segment.window = s.peerWnd) := by
        rintro ⟨⟨⟩, -⟩
      rw [TcpSocket.processDuplicate, stays, notFin]
      rw [if_neg notPure]
      split
      · next opened =>
        refine ⟨?_, (output_kept now sends _).2.2⟩
        rw [output_nonempty, TcpSocket.transmits, TcpSocket.releases, noBytes, inRange, noNumbers]
        rw [@hasSegment_same s { s with peerWnd := segment.window } rfl rfl, isOpen]
        simp [opened]
      · next notOpened =>
        simp [TcpSocket.releases, noNumbers, notOpened]
    · next someNew =>
      have positive : 0 < s.ackedNumbers segment := by
        rw [TcpSocket.ackedNumbers]
        omega
      obtain ⟨timed, isTimed⟩ : ∃ timed, TcpSocket.sampleRtt now segment.ack
        { s with peerWnd := segment.window, dupAcks := 0 } = timed := ⟨_, rfl⟩
      have view : SameQueueView { s with peerWnd := segment.window } timed := by
        rw [← isTimed, TcpSocket.sampleRtt]
        split <;> exact ⟨rfl, rfl, rfl, rfl, rfl, rfl, rfl, rfl, rfl, rfl⟩
      rw [isTimed]
      obtain ⟨acked, isAcked⟩ : ∃ acked, s.ackedBytes segment = acked := ⟨_, rfl⟩
      have sameAcked : min (Seq.diff segment.ack s.sndUna).toNat timed.txLen = acked := by
        rw [view.txLen, ← isAcked, TcpSocket.ackedBytes, TcpSocket.ackedNumbers]
      have left := (dropAcked_view acked { timed with rtxCount := 0 })
      have drops : SameQueueView { s with
          peerWnd := segment.window, txSent := s.txSent - acked, txLen := s.txLen - acked
          cwnd := if acked = 0 then s.cwnd else s.openWindow acked } (TcpSocket.dropAcked acked { timed with rtxCount := 0 }) := by
        have cwnd : (if acked = 0 then timed.cwnd else TcpSocket.openWindow { timed with rtxCount := 0 } acked) =
            if acked = 0 then s.cwnd else s.openWindow acked := by
          have opens : TcpSocket.openWindow { timed with rtxCount := 0 } acked = s.openWindow acked := view.openWindow acked
          rw [opens, view.cwnd]
        refine ⟨left.state.trans view.state, left.peer.trans view.peer, left.peerMss.trans view.peerMss, ?_, ?_,
          left.cwnd.trans cwnd, left.ssthresh.trans view.ssthresh, left.peerWnd.trans view.peerWnd,
          left.finQueued.trans view.finQueued, left.finSent.trans view.finSent⟩
        · rw [left.txSent]
          exact congrArg (· - acked) view.txSent
        · rw [left.txLen]
          exact congrArg (· - acked) view.txLen
      have isFin : (timed.finSent && decide (acked < (Seq.diff segment.ack s.sndUna).toNat)) = s.acksFin segment := by
        rw [view.finSent, TcpSocket.acksFin, inRange, isAcked, TcpSocket.ackedNumbers, Bool.true_and]
      rw [TcpSocket.cutQueue]
      rw [sameAcked, isFin, output_nonempty, (output_kept now sends _).2.2]
      have room : s.releases sends segment = (decide (sends ≠ 0) && s.hasSegment (s.txSent - acked) (s.txLen - acked)
          (max 1 (min (if acked = 0 then s.cwnd else s.openWindow acked) segment.window)) (s.finQueued && !s.finSent)) := by
        have counts : decide (0 < s.ackedNumbers segment ∨ s.peerWnd < segment.window) = true := decide_eq_true (.inl positive)
        rw [TcpSocket.releases, inRange, isAcked, counts, Bool.true_and, Bool.and_true]
      cases ended : s.acksFin segment with
      | false =>
          rw [if_neg (by rintro ⟨⟩), if_neg (by rintro ⟨⟩)]
          refine ⟨?_, drops.state⟩
          have timerOff : SameQueueView (TcpSocket.dropAcked acked { timed with rtxCount := 0 })
            { TcpSocket.dropAcked acked { timed with rtxCount := 0 } with rtxAt := 0 } :=
            ⟨rfl, rfl, rfl, rfl, rfl, rfl, rfl, rfl, rfl, rfl⟩
          rw [timerOff.transmits, drops.transmits, TcpSocket.transmits, room]
          rw [isOpen, Bool.true_and]
          exact ⟨fun sent => ⟨.inl rfl, sent⟩, fun both => both.2⟩
      | true =>
          rw [if_pos rfl, if_pos rfl]
          have finSent : s.finSent = true := by
            rw [TcpSocket.acksFin, Bool.and_eq_true, Bool.and_eq_true] at ended
            exact ended.1.2
          obtain ⟨dropped, isDropped⟩ : ∃ dropped, TcpSocket.dropAcked acked { timed with rtxCount := 0 } = dropped := ⟨_, rfl⟩
          rw [isDropped] at drops ⊢
          have timerOff : SameQueueView (dropped.finAcked now) { dropped.finAcked now with rtxAt := 0 } :=
            ⟨rfl, rfl, rfl, rfl, rfl, rfl, rfl, rfl, rfl, rfl⟩
          have fins : finAckedState dropped.state = finAckedState s.state := congrArg finAckedState drops.state
          refine ⟨?_, finAcked_next.trans fins⟩
          rw [timerOff.transmits, finAcked_transmits, fins, drops.txSent, drops.txLen, drops.cwnd, drops.peerWnd,
            @hasSegment_same s dropped drops.peer drops.peerMss, room, finSent, Bool.not_true, Bool.and_false]
          obtain isState | isState | isState := late
          · simp [isState, finAckedState, TcpSocket.sendsIn]
          · simp [isState, finAckedState, TcpSocket.sendsIn]
          · simp [isState, finAckedState, TcpSocket.sendsIn]

theorem AckFrame.takes (frame : AckFrame s s') (takes : TcpSocket.takesData s.state = true) :
    TcpSocket.takesData s'.state = true := by
  obtain same | ⟨-, after⟩ | ⟨before, -⟩ | ⟨before, -⟩ := frame.state
  · rw [same]
    exact takes
  · rw [after]
    rfl
  · rw [before] at takes
    cases takes
  · rw [before] at takes
    cases takes

theorem inputData_acks (takes : TcpSocket.takesData s.state = true)
    (occupies : segment.data ≠ [] ∨ segment.isFin = true) :
    ∃ sent ∈ (s.inputData now segment).2, sent.isAck = true ∧
    sent.ack = (s.inputData now segment).1.rcvNxt := by
  have some : 0 < segment.data.length ∨ segment.isFin = true :=
    occupies.imp_left List.length_pos_iff.mpr
  rw [TcpSocket.inputData, if_pos ⟨takes, some⟩]
  dsimp only
  split
  · exact ⟨_, List.mem_singleton_self _, rfl, rfl⟩
  · split
    · exact ⟨_, List.mem_singleton_self _, rfl, rfl⟩
    · exact ⟨_, List.mem_singleton_self _, rfl, rfl⟩

theorem processAck_acks {ack : Seq} {win : Nat} {pure : Bool} :
    ∀ sent ∈ (s.processAck now sends ack win pure).2, sent.isAck = true ∧ sent.ack = s.rcvNxt := by
  have sends' : ∀ s' : TcpSocket, s'.rcvNxt = s.rcvNxt →
    ∀ sent ∈ (s'.output now sends).2, sent.isAck = true ∧ sent.ack = s.rcvNxt :=
    fun s' same sent member => ⟨(output_acks sent member).1, (output_acks sent member).2.trans same⟩
  rw [TcpSocket.processAck]
  split
  · exact fun _ member => (by cases member)
  · split
    · rw [TcpSocket.processDuplicate]
      dsimp only
      split
      · split
        · exact sends' _ rfl
        · exact fun _ member => (by cases member)
      · split
        · exact sends' _ rfl
        · exact fun _ member => (by cases member)
    · refine sends' _ ?_
      exact (cutQueue_frame now _ _).rcvNxt.trans (sampleRtt_kept now ack { s with peerWnd := win, dupAcks := 0 }).2.1

/-- The segment is answered with an acknowledgement of everything that was received. -/
def Reacknowledged (now sends : Nat) (segment : TcpSegment) (s : TcpSocket) : Prop :=
  ∃ sent ∈ (s.input now sends segment).2, sent.isAck = true ∧
    sent.ack = (s.input now sends segment).1.rcvNxt

theorem reacknowledged_open (sync : synchronized s.state = true) :
    Reacknowledged now sends segment s ↔
      ∃ sent ∈ (s.inputOpen now sends segment).2, sent.isAck = true ∧
      sent.ack = (s.inputOpen now sends segment).1.rcvNxt := by
  rw [Reacknowledged, TcpSocket.input, if_neg, if_neg]
  · intro isState
    rw [isState] at sync
    cases sync
  · intro isState
    rw [isState] at sync
    cases sync

theorem inputOpen_late (isAck : segment.isAck = true) (notReset : segment.isRst = false)
    (noSyn : segment.isSyn = false)
    (notPure : decide (segment.data = [] ∧ segment.isFin = false) = false)
    (late : s.state = .closeWait ∨ s.state = .closing ∨ s.state = .lastAck) :
    (∃ sent ∈ (s.inputOpen now sends segment).2, sent.isAck = true ∧
      sent.ack = (s.inputOpen now sends segment).1.rcvNxt) ↔
      (s.state = .closing ∧ s.acksFin segment = true ∧ segment.isFin = true) ∨
        (s.acksFin segment = false ∨ s.state = .closeWait) ∧ s.releases sends segment = true := by
  obtain ⟨releases, isState⟩ := @processAck_late s now sends segment late
  have acks := @processAck_acks s now sends segment.ack segment.window false
  have rcvNxt := (@processAck_frame s now sends segment.ack segment.window false).rcvNxt
  have notClosed : s.state ≠ .closed := fun isState => by
    rw [isState] at late; exact absurd late (by decide)
  rw [TcpSocket.inputOpen, if_neg notClosed, if_neg (by simp [notReset]), if_neg (by simp [noSyn]),
    if_neg (by simp [isAck])]
  rw [notPure]
  dsimp only
  obtain ⟨acked, isAcked⟩ :
    ∃ acked, s.processAck now sends segment.ack segment.window false = acked := ⟨_, rfl⟩
  rw [isAcked] at releases isState acks rcvNxt ⊢
  have answered : acked.2 ≠ [] → ∀ rest rcv, rcv = s.rcvNxt →
    ∃ sent ∈ acked.2 ++ rest, sent.isAck = true ∧ sent.ack = rcv := by
    intro some rest rcv isRcv
    obtain ⟨sent, member⟩ := List.exists_mem_of_ne_nil acked.2 some
    exact ⟨sent, List.mem_append_left rest member, (acks sent member).1,
      (acks sent member).2.trans isRcv.symm⟩
  split
  · next waits =>
    have isClosing : s.state = .closing ∧ s.acksFin segment = true := by
      rw [isState] at waits
      split at waits
      · next isFin =>
        refine ⟨?_, isFin⟩
        obtain same | same | same := late <;> rw [same] at waits ⊢ <;> cases waits
      · obtain same | same | same := late <;> rw [same] at waits <;> cases waits
    constructor
    · rintro ⟨sent, member, -⟩
      obtain early | again := List.mem_append.mp member
      · exact .inr (releases.mp (List.ne_nil_of_mem early))
      · split at again
        · next isFin => exact .inl ⟨isClosing.1, isClosing.2, isFin⟩
        · cases again
    · rintro (⟨-, -, isFin⟩ | released)
      · refine ⟨acked.1.ackNow, List.mem_append_right _ ?_, rfl, rfl⟩
        rw [if_pos isFin]
        exact List.mem_singleton_self _
      · exact answered (releases.mpr released) _ _ rcvNxt
  · next notWaits =>
    have idle : TcpSocket.takesData acked.1.state = false := by
      rw [isState]
      obtain same | same | same := late <;> rw [same] <;> split <;> rfl
    rw [inputData_idle idle]
    constructor
    · rintro ⟨sent, member, -⟩
      rw [List.append_nil] at member
      exact .inr (releases.mp (List.ne_nil_of_mem member))
    · rintro (⟨isClosing, acksFin, -⟩ | released)
      · rw [isState, if_pos acksFin, isClosing] at notWaits
        exact absurd rfl notWaits
      · exact answered (releases.mpr released) _ _ rcvNxt

theorem inputOpen_takes (isAck : segment.isAck = true) (notReset : segment.isRst = false)
    (noSyn : segment.isSyn = false) (occupies : segment.data ≠ [] ∨ segment.isFin = true)
    (takes : TcpSocket.takesData s.state = true) :
    ∃ sent ∈ (s.inputOpen now sends segment).2, sent.isAck = true ∧
    sent.ack = (s.inputOpen now sends segment).1.rcvNxt := by
  have notClosed : s.state ≠ .closed := fun isState => by rw [isState] at takes; cases takes
  rw [TcpSocket.inputOpen, if_neg notClosed, if_neg (by simp [notReset]), if_neg (by simp [noSyn]),
    if_neg (by simp [isAck])]
  dsimp only
  have acked := (@processAck_frame s now sends segment.ack segment.window
    (decide (segment.data = [] ∧ segment.isFin = false))).takes takes
  split
  · next waits =>
    rw [waits] at acked
    cases acked
  · obtain ⟨sent, member, acks⟩ := @inputData_acks _ now segment acked occupies
    exact ⟨sent, List.mem_append_right _ member, acks⟩

theorem output_silent (isState : s.state = .timeWait) : (s.output now sends).2 = [] := by
  rw [TcpSocket.output, if_neg (by simp [isState, TcpSocket.sendsIn])]

theorem processAck_silent {ack : Seq} {win : Nat} {pure : Bool} (isState : s.state = .timeWait) :
    (s.processAck now sends ack win pure).2 = [] := by
  rw [TcpSocket.processAck]
  split
  · rfl
  · split
    · rw [TcpSocket.processDuplicate]
      dsimp only
      split
      · split
        · exact output_silent isState
        · rfl
      · split
        · exact output_silent isState
        · rfl
    · refine output_silent ?_
      have timed := (sampleRtt_kept now ack { s with peerWnd := win, dupAcks := 0 }).2.2.trans isState
      obtain same | ⟨before, -⟩ | ⟨before, -⟩ | ⟨before, -⟩ := (cutQueue_frame now (Seq.diff ack s.sndUna).toNat
        { TcpSocket.sampleRtt now ack { s with peerWnd := win, dupAcks := 0 } with rtxCount := 0 }).state
      · exact same.trans timed
      · cases before.symm.trans timed
      · cases before.symm.trans timed
      · cases before.symm.trans timed

theorem inputOpen_timeWait (isAck : segment.isAck = true) (notReset : segment.isRst = false)
    (noSyn : segment.isSyn = false) (isState : s.state = .timeWait) :
      (∃ sent ∈ (s.inputOpen now sends segment).2, sent.isAck = true ∧
      sent.ack = (s.inputOpen now sends segment).1.rcvNxt) ↔ segment.isFin = true := by
  rw [TcpSocket.inputOpen, if_neg (by simp [isState]), if_neg (by simp [notReset]),
    if_neg (by simp [noSyn]), if_neg (by simp [isAck])]
  have waits : (s.processAck now sends segment.ack segment.window
      (decide (segment.data = [] ∧ segment.isFin = false))).1.state = .timeWait := by
    obtain same | ⟨before, -⟩ | ⟨before, -⟩ | ⟨before, -⟩ :=
      (@processAck_frame s now sends segment.ack segment.window
      (decide (segment.data = [] ∧ segment.isFin = false))).state
    · exact same.trans isState
    · cases before.symm.trans isState
    · cases before.symm.trans isState
    · cases before.symm.trans isState
  rw [if_pos waits, processAck_silent isState, List.nil_append]
  constructor
  · rintro ⟨sent, member, -⟩
    split at member
    · next isFin => exact isFin
    · cases member
  · intro isFin
    rw [if_pos isFin]
    exact ⟨_, List.mem_singleton_self _, rfl, rfl⟩

/-- In a synchronized state a segment with data or a FIN is acknowledged exactly where
`reacknowledges` says. -/
theorem segment_reacknowledged_iff (sync : synchronized s.state = true)
    (notReset : segment.isRst = false) (occupies : segment.data ≠ [] ∨ segment.isFin = true) :
    Reacknowledged now sends segment s ↔ s.reacknowledges sends segment = true := by
  rw [reacknowledged_open sync, TcpSocket.reacknowledges]
  have notClosed : s.state ≠ .closed := fun isState => by rw [isState] at sync; cases sync
  have notPure : decide (segment.data = [] ∧ segment.isFin = false) = false := by
    rw [decide_eq_false_iff_not]
    rintro ⟨noData, noFin⟩
    exact occupies.elim (fun some => some noData) fun isFin => by cases noFin.symm.trans isFin
  cases isSyn : segment.isSyn with
  | true =>
      rw [TcpSocket.inputOpen, if_neg notClosed, if_neg (by simp [notReset]), if_pos isSyn, if_pos rfl, decide_eq_true_iff]
      split
      · next again => exact ⟨fun _ => again, fun _ => ⟨_, List.mem_singleton_self _, rfl, rfl⟩⟩
      · next other => exact ⟨fun out => absurd out.choose_spec.1 List.not_mem_nil, fun again => absurd again other⟩
  | false =>
      cases isAck : segment.isAck with
      | false =>
          rw [TcpSocket.inputOpen, if_neg notClosed, if_neg (by simp [notReset]), if_neg (by simp [isSyn]), if_pos isAck]
          exact ⟨fun out => absurd out.choose_spec.1 List.not_mem_nil, fun again => (by cases again)⟩
      | true =>
          have late := @inputOpen_late s now sends segment isAck notReset isSyn notPure
          cases isState : s.state with
          | closeWait => simp [late (.inl isState), isState]
          | closing =>
              rw [late (.inr (.inl isState)), isState]
              cases s.acksFin segment <;> simp
          | lastAck =>
              rw [late (.inr (.inr isState)), isState]
              cases s.acksFin segment <;> simp
          | timeWait => exact inputOpen_timeWait isAck notReset isSyn isState
          | established => exact iff_of_true (inputOpen_takes isAck notReset isSyn occupies (isState ▸ rfl)) rfl
          | finWait1 => exact iff_of_true (inputOpen_takes isAck notReset isSyn occupies (isState ▸ rfl)) rfl
          | finWait2 => exact iff_of_true (inputOpen_takes isAck notReset isSyn occupies (isState ▸ rfl)) rfl
          | _ =>
              rw [isState] at sync
              cases sync

def finSegment : TcpSegment :=
  ⟨⟨false, 9⟩, 80, 49152, 100, 1, false, true, true, false, 65535, [], []⟩

def finCall : TcpCall := .input 7 9 finSegment (fun _ => 0) (fun _ => 0) 0

theorem segment_reacknowledged_open : ∃ entry ∈ (runSteps tcpStep emptyStack openedCalls).sockets,
    Reacknowledged 7 9 finSegment entry.2 := by
  have open' : (runSteps tcpStep emptyStack openedCalls).sockets.any
      (fun entry => synchronized entry.2.state && entry.2.reacknowledges 9 finSegment) =
      true := by decide
  obtain ⟨entry, member, both⟩ := List.any_eq_true.mp open'
  obtain ⟨sync, answers⟩ := Bool.and_eq_true_iff.mp both
  exact ⟨entry, member, (segment_reacknowledged_iff sync rfl (.inr rfl)).mpr answers⟩

/-- The peer did not hear that its FIN was taken and sends it again: nobody answers. -/
theorem segment_unanswered :
    ¬ ∀ stack : TcpStack, Reaches tcpStep (fun _ _ => True) emptyStack stack →
    ∀ segment id s, stack.socketOf segment = some (id, s) → synchronized s.state = true →
      segment.isRst = false → (segment.data ≠ [] ∨ segment.isFin = true) →
      ∀ now sends, Reacknowledged now sends segment s := by
  intro answered
  have silent : ((runSteps tcpStep emptyStack (openedCalls ++ [finCall])).socketOf finSegment).any
    (fun entry =>
      synchronized entry.2.state && (entry.2.input 8 9 finSegment).2.isEmpty) = true := by decide
  cases found : (runSteps tcpStep emptyStack (openedCalls ++ [finCall])).socketOf finSegment with
  | none =>
      rw [found] at silent
      cases silent
  | some entry =>
      rw [found] at silent
      obtain ⟨sync, isEmpty⟩ := Bool.and_eq_true_iff.mp silent
      obtain ⟨sent, member, -⟩ := answered _ (Reaches.refl.runSteps (stepsAllowed_true _ _))
        finSegment entry.1 entry.2 found sync rfl (.inr rfl) 8 9
      rw [List.isEmpty_iff.mp isEmpty] at member
      cases member

end Cos.Net
