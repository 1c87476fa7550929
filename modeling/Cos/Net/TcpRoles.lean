import Cos.Net.TcpTimer

/-! # What a socket is to the others

Segments and ticks leave alone whose connection a socket is, and they end neither a listener nor a
closed socket.
-/

namespace Cos.Net

open Cos.Lib

variable {s s' s'' : TcpSocket} {now sends : Nat} {segment : TcpSegment}

/-- The same place in the accept queue.  A socket begins to listen, and opens again, only when its
owner calls. -/
structure SameRole (s s' : TcpSocket) : Prop where
  parent : s'.parent = s.parent
  backlog : s'.backlog = s.backlog
  unaccepted : s'.unaccepted = s.unaccepted
  detached : s'.detached = s.detached
  listens : s'.state = .listen → s.state = .listen
  closed : s.state = .closed → s'.state = .closed

theorem SameRole.refl (s : TcpSocket) : SameRole s s := ⟨rfl, rfl, rfl, rfl, id, id⟩

theorem SameRole.trans (first : SameRole s s') (second : SameRole s' s'') : SameRole s s'' :=
  ⟨second.parent.trans first.parent, second.backlog.trans first.backlog,
    second.unaccepted.trans first.unaccepted, second.detached.trans first.detached, fun listens =>
    first.listens (second.listens listens), fun closed => second.closed (first.closed closed)⟩

/-- A step from one state to another that is neither the end of a closed socket nor the start of a
listener. -/
theorem SameRole.goesOn {before after : TcpState} (isBefore : s.state = before)
    (isAfter : s'.state = after) (moves : before ≠ .closed ∧ after ≠ .listen)
    (parent : s'.parent = s.parent) (backlog : s'.backlog = s.backlog)
    (unaccepted : s'.unaccepted = s.unaccepted) (detached : s'.detached = s.detached) :
    SameRole s s' :=
  ⟨parent, backlog, unaccepted, detached,
    fun listens => absurd (isAfter.symm.trans listens) moves.2, fun closed =>
    absurd (isBefore.symm.trans closed) moves.1⟩

theorem output_role (now sends : Nat) (s : TcpSocket) : SameRole s (s.output now sends).1 := by
  obtain ⟨rttSeq, rttStart, txSent, sndMax, finSent, sndNxt, rtxAt, same⟩ :=
    output_frame now sends s
  rw [same]
  exact ⟨rfl, rfl, rfl, rfl, id, id⟩

theorem finAcked_role (now : Nat) (s : TcpSocket) : SameRole s (s.finAcked now) := by
  rw [TcpSocket.finAcked]
  split
  · next isState =>
    exact .goesOn isState rfl (by simp) rfl rfl rfl rfl
  · next isState =>
    exact .goesOn isState rfl (by simp [TcpSocket.enterTimeWait]) rfl rfl rfl rfl
  · exact ⟨rfl, rfl, rfl, rfl, (by rintro ⟨⟩), fun _ => rfl⟩
  · exact ⟨rfl, rfl, rfl, rfl, id, id⟩

theorem sampleRtt_role (now : Nat) (ack : Seq) (s : TcpSocket) :
    SameRole s (s.sampleRtt now ack) := by
  rw [TcpSocket.sampleRtt]
  split
  · exact ⟨rfl, rfl, rfl, rfl, id, id⟩
  · exact .refl s

theorem cutQueue_role (now adv : Nat) (s : TcpSocket) : SameRole s (s.cutQueue now adv) := by
  have dropped : ∀ acked, SameRole s (s.dropAcked acked) := fun acked => by
    rw [TcpSocket.dropAcked]
    split
    · exact .refl s
    · exact ⟨rfl, rfl, rfl, rfl, id, id⟩
  rw [TcpSocket.cutQueue]
  split
  · exact (dropped _).trans (finAcked_role now _)
  · exact dropped _

theorem processAck_role (ack : Seq) (win : Nat) (pure : Bool) :
    SameRole s (s.processAck now sends ack win pure).1 := by
  rw [TcpSocket.processAck]
  split
  · exact .refl s
  · split
    · rw [TcpSocket.processDuplicate]
      dsimp only
      split
      · split
        · refine SameRole.trans ?_ (output_role now sends _)
          exact ⟨rfl, rfl, rfl, rfl, id, id⟩
        · exact ⟨rfl, rfl, rfl, rfl, id, id⟩
      · split
        · refine SameRole.trans ?_ (output_role now sends _)
          exact ⟨rfl, rfl, rfl, rfl, id, id⟩
        · exact ⟨rfl, rfl, rfl, rfl, id, id⟩
    · refine SameRole.trans ?_ (output_role now sends _)
      have timed : SameRole s (TcpSocket.sampleRtt now ack { s with peerWnd := win, dupAcks := 0 }) := by
        refine SameRole.trans ?_ (sampleRtt_role now ack _)
        exact ⟨rfl, rfl, rfl, rfl, id, id⟩
      have cut := cutQueue_role now (Seq.diff ack s.sndUna).toNat { TcpSocket.sampleRtt now ack { s with
        peerWnd := win, dupAcks := 0 } with rtxCount := 0 }
      exact timed.trans ⟨cut.parent, cut.backlog, cut.unaccepted, cut.detached, cut.listens, cut.closed⟩

theorem takeFin_role (now : Nat) (s : TcpSocket) : SameRole s (s.takeFin now) := by
  rw [TcpSocket.takeFin]
  split
  · next isState =>
    exact .goesOn isState rfl (by simp) rfl rfl rfl rfl
  · next isState =>
    exact .goesOn isState rfl (by simp) rfl rfl rfl rfl
  · next isState =>
    exact .goesOn isState rfl (by simp [TcpSocket.enterTimeWait]) rfl rfl rfl rfl
  · exact ⟨rfl, rfl, rfl, rfl, id, id⟩

theorem takeBytes_role (bytes : List UInt8) (s : TcpSocket) :
    SameRole s (s.takeBytes bytes).closeHole := by
  have taken : SameRole s (s.takeBytes bytes) := by
    rw [TcpSocket.takeBytes]
    split
    · exact .refl s
    · exact ⟨rfl, rfl, rfl, rfl, id, id⟩
  rw [TcpSocket.closeHole]
  split
  · exact taken.trans ⟨rfl, rfl, rfl, rfl, id, id⟩
  · exact taken

theorem inputData_role : SameRole s (s.inputData now segment).1 := by
  rw [TcpSocket.inputData]
  dsimp only
  split
  · split
    · rw [TcpSocket.keepHole]
      dsimp only
      split
      · split
        · exact ⟨rfl, rfl, rfl, rfl, id, id⟩
        · split
          · exact ⟨rfl, rfl, rfl, rfl, id, id⟩
          · exact .refl s
      · exact .refl s
    · split
      · exact .refl s
      · rw [TcpSocket.takeData]
        split
        · exact (takeBytes_role _ s).trans (takeFin_role now _)
        · exact takeBytes_role _ s
  · exact .refl s

theorem inputOpen_role : SameRole s (s.inputOpen now sends segment).1 := by
  rw [TcpSocket.inputOpen]
  split
  · exact .refl s
  · split
    · dsimp only
      split
      · exact ⟨rfl, rfl, rfl, rfl, (by rintro ⟨⟩), fun _ => rfl⟩
      · exact .refl s
    · split
      · exact .refl s
      · split
        · exact .refl s
        · dsimp only
          have acked := @processAck_role s now sends segment.ack segment.window (decide (segment.data = [] ∧ segment.isFin = false))
          split
          · exact acked
          · exact acked.trans inputData_role

theorem inputSynSent_role (isState : s.state = .synSent) :
    SameRole s (s.inputSynSent now segment).1 := by
  rw [TcpSocket.inputSynSent]
  dsimp only
  split
  · exact .refl s
  · split
    · split
      · exact ⟨rfl, rfl, rfl, rfl, (by rintro ⟨⟩), fun _ => rfl⟩
      · exact .refl s
    · split
      · split <;> exact .goesOn isState rfl (by simp) rfl rfl rfl rfl
      · exact .refl s

theorem input_role : SameRole s (s.input now sends segment).1 := by
  rw [TcpSocket.input]
  split
  · next isState => exact inputSynSent_role isState
  · split
    · next isState =>
      split
      · dsimp only
        split
        · exact ⟨rfl, rfl, rfl, rfl, (by rintro ⟨⟩), fun _ => rfl⟩
        · exact .refl s
      · split
        · exact .refl s
        · split
          · refine SameRole.trans ?_ inputOpen_role
            exact .goesOn isState rfl (by simp) rfl rfl rfl rfl
          · exact .refl s
    · exact inputOpen_role

theorem expire_role (now : Nat) (s : TcpSocket) : SameRole s (s.expireTimeWait now) := by
  rw [TcpSocket.expireTimeWait]
  split
  · exact ⟨rfl, rfl, rfl, rfl, (by rintro ⟨⟩), fun _ => rfl⟩
  · exact .refl s

theorem poll_role : SameRole s (s.poll now sends).1 := by
  rw [TcpSocket.poll]
  split
  · exact ⟨rfl, rfl, rfl, rfl, (by rintro ⟨⟩), fun _ => rfl⟩
  split
  · exact .refl s
  split
  · exact ⟨rfl, rfl, rfl, rfl, id, id⟩
  dsimp only
  obtain ⟨limit, isLimit⟩ :
    ∃ limit, (if s.state = .synSent ∨ s.state = .synReceived then 5 else 8) = limit := ⟨_, rfl⟩
  rw [isLimit]
  split
  · exact ⟨rfl, rfl, rfl, rfl, (by rintro ⟨⟩), fun _ => rfl⟩
  split
  · exact ⟨rfl, rfl, rfl, rfl, id, id⟩
  split
  · exact ⟨rfl, rfl, rfl, rfl, id, id⟩
  have sent := output_role now sends (TcpSocket.rewind { s with
    rtxCount := (s.rtxCount + 1) % 256, rto := min 16000 (s.rto * 2), rtxAt := 0
    ssthresh := s.lossThreshold (s.sndMax - s.sndUna).toNat, cwnd := s.mss })
  split
  · exact ⟨sent.parent, sent.backlog, sent.unaccepted, sent.detached, sent.listens, sent.closed⟩
  · exact ⟨sent.parent, sent.backlog, sent.unaccepted, sent.detached, sent.listens, sent.closed⟩

theorem send_role {data : List UInt8} : SameRole s (s.send now sends data).2.1 := by
  rw [TcpSocket.send]
  split
  · dsimp only
    split
    · exact .refl s
    · refine SameRole.trans ?_ (output_role now sends _)
      rw [TcpSocket.txAppend]
      split <;> exact ⟨rfl, rfl, rfl, rfl, id, id⟩
  · exact .refl s

theorem recv_role {maxLen : Nat} : SameRole s (s.recv maxLen).2.2.1 := by
  rw [TcpSocket.recv]
  split
  · exact .refl s
  · exact ⟨rfl, rfl, rfl, rfl, id, id⟩

theorem shutdownWr_role : SameRole s (s.shutdownWr now sends).1 := by
  rw [TcpSocket.shutdownWr]
  split
  · next isOpen =>
    refine SameRole.trans ?_ (output_role now sends _)
    refine ⟨rfl, rfl, rfl, rfl, fun listens => ?_, fun closed => ?_⟩
    · split at listens <;> cases listens
    · rw [closed] at isOpen
      exact absurd isOpen (by decide)
  · exact .refl s

namespace TcpSocket

def Quiet (s : TcpSocket) : Prop := s.txLen = 0 ∧ s.finQueued = false ∧ s.finSent = false

end TcpSocket

/-- A connection that has ended, and a socket that rests with its owner, are quiet or have no
timer. -/
structure QuietSound (s : TcpSocket) : Prop where
  ended : s.state = .finWait2 ∨ s.state = .timeWait → s.Quiet
  rests : s.state = .closed ∨ s.state = .listen → s.unaccepted = true ∨ s.detached = true ∨
    s.rtxAt = 0 ∨ s.Quiet

theorem QuietSound.busy (busy : s.state ≠ .finWait2 ∧ s.state ≠ .timeWait ∧ s.state ≠ .closed ∧
    s.state ≠ .listen) : QuietSound s :=
  ⟨fun ended => absurd ended (not_or.mpr ⟨busy.1, busy.2.1⟩),
    fun rests => absurd rests (not_or.mpr busy.2.2)⟩

theorem QuietSound.closed (isState : s.state = .closed)
    (rests : s.unaccepted = true ∨ s.detached = true ∨ s.rtxAt = 0 ∨ s.Quiet) : QuietSound s := by
  refine ⟨fun ended => ?_, fun _ => rests⟩
  rw [isState] at ended
  exact absurd ended (by decide)

theorem QuietSound.output (sound : QuietSound s) : QuietSound (s.output now sends).1 := by
  by_cases sendsIn : TcpSocket.sendsIn s.state = true
  · have same : (s.output now sends).1.state = s.state := by
      obtain ⟨rttSeq, rttStart, txSent, sndMax, finSent, sndNxt, rtxAt, sent⟩ := output_frame now sends s
      rw [sent]
    refine .busy ?_
    rw [same]
    refine ⟨?_, ?_, ?_, ?_⟩ <;>
    · intro isState
      rw [isState] at sendsIn
      cases sendsIn
  · rw [TcpSocket.output, if_neg sendsIn]
    exact sound

theorem QuietSound.same (sound : QuietSound s) (state : s'.state = s.state)
    (rtxAt : s'.rtxAt = s.rtxAt)
    (queue : s'.txLen = s.txLen ∧ s'.finQueued = s.finQueued ∧ s'.finSent = s.finSent)
    (role : s'.unaccepted = s.unaccepted ∧ s'.detached = s.detached) : QuietSound s' := by
  have quiet : s.Quiet → s'.Quiet := fun ⟨isEmpty, notQueued, notSent⟩ =>
    ⟨queue.1.trans isEmpty, queue.2.1.trans notQueued, queue.2.2.trans notSent⟩
  refine ⟨fun ended => quiet (sound.ended (state ▸ ended)), fun rests => ?_⟩
  obtain waits | detached | off | isQuiet := sound.rests (state ▸ rests)
  · exact .inl (role.1.trans waits)
  · exact .inr (.inl (role.2.trans detached))
  · exact .inr (.inr (.inl (rtxAt.trans off)))
  · exact .inr (.inr (.inr (quiet isQuiet)))

theorem dropAcked_quiet (acked : Nat) (s : TcpSocket) : (s.dropAcked acked).state = s.state ∧
    (s.dropAcked acked).txLen = s.txLen - acked ∧ (s.Quiet → (s.dropAcked acked).Quiet) := by
  rw [TcpSocket.dropAcked]
  split
  · next isZero => exact ⟨rfl, by rw [isZero, Nat.sub_zero], id⟩
  · refine ⟨rfl, rfl, fun quiet => ⟨?_, quiet.2⟩⟩
    have isEmpty : s.txLen = 0 := quiet.1
    change s.txLen - acked = 0
    omega

theorem finAcked_quiet (now : Nat) (isEmpty : s.txLen = 0) : (s.finAcked now).Quiet := by
  rw [TcpSocket.finAcked]
  split <;> exact ⟨isEmpty, rfl, rfl⟩

theorem cutQueue_ended {adv : Nat} (ended : s.state = .finWait2 ∨ s.state = .timeWait → s.Quiet)
    (isEnded : (s.cutQueue now adv).state = .finWait2 ∨ (s.cutQueue now adv).state = .timeWait) :
    (s.cutQueue now adv).Quiet := by
  obtain ⟨sameState, isLength, keepsQuiet⟩ := dropAcked_quiet (min adv s.txLen) s
  rw [TcpSocket.cutQueue] at isEnded ⊢
  split at isEnded
  · next acked =>
    rw [if_pos acked]
    refine finAcked_quiet now ?_
    have beyond := of_decide_eq_true (Bool.and_eq_true_iff.mp acked).2
    omega
  · next notAcked =>
    rw [if_neg notAcked]
    rw [sameState] at isEnded
    exact keepsQuiet (ended isEnded)

theorem QuietSound.processAck {ack : Seq} {win : Nat} {pure : Bool} (sound : QuietSound s) :
    QuietSound (s.processAck now sends ack win pure).1 := by
  have windowed : QuietSound { s with peerWnd := win } :=
    sound.same rfl rfl ⟨rfl, rfl, rfl⟩ ⟨rfl, rfl⟩
  rw [TcpSocket.processAck]
  split
  · exact sound
  · split
    · rw [TcpSocket.processDuplicate]
      dsimp only
      split
      · split
        · refine QuietSound.output ⟨fun ended => ?_, fun rests => ?_⟩
          · exact ⟨(sound.ended ended).1, (sound.ended ended).2.1, rfl⟩
          · refine (sound.rests rests).imp_right (.imp_right (.imp_right fun isQuiet => ?_))
            exact ⟨isQuiet.1, isQuiet.2.1, rfl⟩
        · exact windowed.same rfl rfl ⟨rfl, rfl, rfl⟩ ⟨rfl, rfl⟩
      · split
        · exact windowed.output
        · exact windowed
    · refine QuietSound.output ⟨fun isEnded => ?_, fun _ => .inr (.inr (.inl rfl))⟩
      have timed : ∀ t : TcpSocket, (t.state = .finWait2 ∨ t.state = .timeWait → t.Quiet) →
          (TcpSocket.sampleRtt now ack t).state = .finWait2 ∨ (TcpSocket.sampleRtt now ack t).state = .timeWait →
            (TcpSocket.sampleRtt now ack t).Quiet := fun t ended => by
        rw [TcpSocket.sampleRtt]
        split <;> exact ended
      exact cutQueue_ended (timed _ sound.ended) isEnded

theorem takeFin_quiet (sound : QuietSound s) : QuietSound (s.takeFin now) := by
  rw [TcpSocket.takeFin]
  split
  · exact .busy ⟨(by rintro ⟨⟩), (by rintro ⟨⟩), (by rintro ⟨⟩), (by rintro ⟨⟩)⟩
  · exact .busy ⟨(by rintro ⟨⟩), (by rintro ⟨⟩), (by rintro ⟨⟩), (by rintro ⟨⟩)⟩
  · next isState =>
    exact ⟨fun _ => sound.ended (.inl isState), fun rests => absurd rests (by simp [TcpSocket.enterTimeWait])⟩
  · exact sound.same rfl rfl ⟨rfl, rfl, rfl⟩ ⟨rfl, rfl⟩

theorem takeBytes_quiet (bytes : List UInt8) (sound : QuietSound s) :
    QuietSound (s.takeBytes bytes).closeHole := by
  have taken : QuietSound (s.takeBytes bytes) := by
    rw [TcpSocket.takeBytes]
    split
    · exact sound
    · exact sound.same rfl rfl ⟨rfl, rfl, rfl⟩ ⟨rfl, rfl⟩
  rw [TcpSocket.closeHole]
  split
  · exact taken.same rfl rfl ⟨rfl, rfl, rfl⟩ ⟨rfl, rfl⟩
  · exact taken

theorem QuietSound.inputData (sound : QuietSound s) : QuietSound (s.inputData now segment).1 := by
  rw [TcpSocket.inputData]
  dsimp only
  split
  · split
    · rw [TcpSocket.keepHole]
      dsimp only
      split
      · split
        · exact sound.same rfl rfl ⟨rfl, rfl, rfl⟩ ⟨rfl, rfl⟩
        · split
          · exact sound.same rfl rfl ⟨rfl, rfl, rfl⟩ ⟨rfl, rfl⟩
          · exact sound
      · exact sound
    · split
      · exact sound
      · rw [TcpSocket.takeData]
        split
        · exact takeFin_quiet (takeBytes_quiet _ sound)
        · exact takeBytes_quiet _ sound
  · exact sound

theorem QuietSound.inputOpen (sound : QuietSound s) :
    QuietSound (s.inputOpen now sends segment).1 := by
  rw [TcpSocket.inputOpen]
  split
  · exact sound
  · split
    · dsimp only
      split
      · exact .closed rfl (.inr (.inr (.inl rfl)))
      · exact sound
    · split
      · exact sound
      · split
        · exact sound
        · dsimp only
          have acked := @QuietSound.processAck s now sends segment.ack segment.window
            (decide (segment.data = [] ∧ segment.isFin = false)) sound
          split
          · exact acked
          · exact acked.inputData

theorem QuietSound.input (sound : QuietSound s) : QuietSound (s.input now sends segment).1 := by
  rw [TcpSocket.input]
  split
  · rw [TcpSocket.inputSynSent]
    dsimp only
    split
    · exact sound
    · split
      · split
        · exact .closed rfl (.inr (.inr (.inl rfl)))
        · exact sound
      · split
        · split <;> exact .busy ⟨(by rintro ⟨⟩), (by rintro ⟨⟩), (by rintro ⟨⟩), (by rintro ⟨⟩)⟩
        · exact sound
  · split
    · split
      · dsimp only
        split
        · exact .closed rfl (.inr (.inr (.inl rfl)))
        · exact sound
      · split
        · exact sound
        · split
          · exact QuietSound.inputOpen (.busy ⟨(by rintro ⟨⟩), (by rintro ⟨⟩), (by rintro ⟨⟩), (by rintro ⟨⟩)⟩)
          · exact sound
    · exact sound.inputOpen

theorem QuietSound.send {data : List UInt8} (sound : QuietSound s) :
    QuietSound (s.send now sends data).2.1 := by
  rw [TcpSocket.send]
  split
  · next isOpen =>
    dsimp only
    split
    · exact sound
    · refine QuietSound.output (.busy ?_)
      rw [TcpSocket.txAppend]
      obtain isState | isState := isOpen <;> split <;> simp [isState]
  · exact sound

theorem QuietSound.shutdownWr (sound : QuietSound s) : QuietSound (s.shutdownWr now sends).1 := by
  rw [TcpSocket.shutdownWr]
  split
  · refine QuietSound.output (.busy ?_)
    split <;> exact ⟨(by rintro ⟨⟩), (by rintro ⟨⟩), (by rintro ⟨⟩), (by rintro ⟨⟩)⟩
  · exact sound

theorem QuietSound.abandon (sound : QuietSound s) : QuietSound (s.abandon now sends).1 := by
  have shut := @QuietSound.shutdownWr s now sends sound
  rw [TcpSocket.abandon]
  split
  · exact .closed rfl (.inr (.inl rfl))
  · exact ⟨shut.ended, fun _ => .inr (.inl rfl)⟩

theorem QuietSound.pending (quiet : s.Quiet)
    (synchronized : s.state ≠ .synSent ∧ s.state ≠ .synReceived) : s.pending = false := by
  simp [TcpSocket.pending, quiet.1, quiet.2.1, quiet.2.2, synchronized.1, synchronized.2]

theorem QuietSound.due (sound : QuietSound s) (pends : s.pending ≠ false)
    (due : ¬ (s.rtxAt = 0 ∨ now < s.rtxAt ∨ s.state = .closed))
    (synchronized : s.state ≠ .synSent ∧ s.state ≠ .synReceived) (state : s'.state = s.state)
    (role : s'.unaccepted = s.unaccepted ∧ s'.detached = s.detached) : QuietSound s' := by
  have notQuiet : ¬ s.Quiet := fun quiet => pends (QuietSound.pending quiet synchronized)
  refine ⟨fun ended => absurd (sound.ended (state ▸ ended)) notQuiet, fun rests => ?_⟩
  obtain waits | detached | off | quiet := sound.rests (state ▸ rests)
  · exact .inl (role.1.trans waits)
  · exact .inr (.inl (role.2.trans detached))
  · exact absurd (.inl off) due
  · exact absurd quiet notQuiet

theorem QuietSound.poll (sound : QuietSound s) : QuietSound (s.poll now sends).1 := by
  rw [TcpSocket.poll]
  split
  · next waiting => exact .closed rfl (.inr (.inr (.inr (sound.ended (.inr waiting.1)))))
  split
  · exact sound
  next due =>
  split
  · exact ⟨sound.ended, fun _ => .inr (.inr (.inl rfl))⟩
  next pends =>
  dsimp only
  obtain ⟨limit, isLimit⟩ :
    ∃ limit, (if s.state = .synSent ∨ s.state = .synReceived then 5 else 8) = limit := ⟨_, rfl⟩
  rw [isLimit]
  split
  · exact .closed rfl (.inr (.inr (.inl rfl)))
  split
  · next isState =>
    refine .busy ?_
    simp [isState]
  next notReceived =>
  split
  · next isState =>
    refine .busy ?_
    simp [isState]
  next notSent =>
  have kept : (TcpSocket.output now sends (TcpSocket.rewind { s with
      rtxCount := (s.rtxCount + 1) % 256, rto := min 16000 (s.rto * 2), rtxAt := 0
      ssthresh := s.lossThreshold (s.sndMax - s.sndUna).toNat, cwnd := s.mss })).1.state = s.state := by
    obtain ⟨_, _, _, _, _, _, _, sent⟩ := output_frame now sends (TcpSocket.rewind { s with
      rtxCount := (s.rtxCount + 1) % 256, rto := min 16000 (s.rto * 2), rtxAt := 0
      ssthresh := s.lossThreshold (s.sndMax - s.sndUna).toNat, cwnd := s.mss })
    rw [sent]
    rfl
  have role := output_role now sends (TcpSocket.rewind { s with
    rtxCount := (s.rtxCount + 1) % 256, rto := min 16000 (s.rto * 2), rtxAt := 0
    ssthresh := s.lossThreshold (s.sndMax - s.sndUna).toNat, cwnd := s.mss })
  split
  · exact sound.due pends due ⟨notSent, notReceived⟩ kept ⟨role.unaccepted, role.detached⟩
  · exact sound.due pends due ⟨notSent, notReceived⟩ kept ⟨role.unaccepted, role.detached⟩

theorem quiet_rule :
    SocketRule (fun s => s.state ≠ .listen) (fun s => s.unaccepted = true) QuietSound where
  alloc _ _ := .closed rfl (.inr (.inr (.inl rfl)))
  child listener rxCell txCell iss now segment := .busy ⟨nofun, nofun, nofun, nofun⟩
  bind s port sound := sound.same rfl rfl ⟨rfl, rfl, rfl⟩ ⟨rfl, rfl⟩
  aim s peer port localPort sound := sound.same rfl rfl ⟨rfl, rfl, rfl⟩ ⟨rfl, rfl⟩
  connect s peer port localPort iss _ := .busy ⟨nofun, nofun, nofun, nofun⟩
  connectTry s now sends notListen sound := by
    rw [TcpSocket.connectTry]
    split
    · exact sound
    · next goesOn =>
      rw [TcpSocket.firstSyn]
      split
      · next refused => exact absurd (.inr (.inr refused)) goesOn
      · refine ⟨sound.ended, fun rests => ?_⟩
        obtain isClosed | listens := rests
        · exact absurd (.inr (.inl isClosed)) goesOn
        · exact absurd listens notListen
  startSyn s now sends isState sound := by
    rw [TcpSocket.firstSyn]
    split <;>
    · refine .busy ?_
      simp [isState]
  connectEnd s sound := by
    rw [TcpSocket.connectEnd]
    split
    · exact sound
    · exact .closed rfl (.inr (.inr (.inl rfl)))
  listen s backlog sound := by
    rw [TcpSocket.listen]
    split
    · next isClosed => exact ⟨fun ended => absurd ended (by simp), fun _ => sound.rests (.inl isClosed.2)⟩
    · exact sound
  discard s sound := ⟨sound.ended, fun _ => .inr (.inl rfl)⟩
  accept s isOpen notListen sound :=
    ⟨sound.ended, fun rests => absurd rests (not_or.mpr ⟨isOpen, notListen⟩)⟩
  send s now sends data sound := sound.send
  recv s maxLen sound := by
    rw [TcpSocket.recv]
    split
    · exact sound
    · exact sound.same rfl rfl ⟨rfl, rfl, rfl⟩ ⟨rfl, rfl⟩
  shutdownWr s now sends sound := sound.shutdownWr
  closeEnd s _ := .closed rfl (.inr (.inr (.inl rfl)))
  abandon s now sends sound := sound.abandon
  orphan s listener sound := by
    rw [TcpSocket.orphan]
    split
    · exact .closed rfl (.inr (.inl rfl))
    · exact sound
  lose s waits _ := .closed rfl (.inl waits)
  input s now sends segment sound := sound.input
  expire s now sound := by
    rw [TcpSocket.expireTimeWait]
    split
    · next waiting => exact .closed rfl (.inr (.inr (.inr (sound.ended (.inr waiting.1)))))
    · exact sound
  poll s now sends sound := sound.poll

theorem QuietSound.listener_poll (sound : QuietSound s) (isState : s.state = .listen)
    (notWaiting : s.unaccepted = false) (attached : s.detached = false) :
    (s.poll now sends).1.state = .listen := by
  rw [TcpSocket.poll, if_neg (by simp [isState])]
  split
  · exact isState
  · next due =>
    have quiet : s.Quiet := by
      obtain waits | detached | off | quiet := sound.rests (.inr isState)
      · exact absurd (notWaiting.symm.trans waits) (by rintro ⟨⟩)
      · exact absurd (attached.symm.trans detached) (by rintro ⟨⟩)
      · exact absurd (.inl off) due
      · exact quiet
    rw [if_pos (QuietSound.pending quiet (by simp [isState]))]
    exact isState

end Cos.Net
