import Cos.Net.TcpAccept

/-! # The end of a stream

A reader that was told that the stream of a connection ended never reads a byte of that connection
again, unless it was told so while this side had closed and the peer had not.
-/

namespace Cos.Net

open Cos.Lib

variable {s s' s'' : TcpSocket} {now sends id : Nat} {segment : TcpSegment}
  {stack stack' : TcpStack} {call : TcpCall}

def peerEnded : TcpState → Bool
  | .closeWait | .closing | .lastAck | .timeWait => true
  | _ => false

namespace TcpCall

def takesFin (stack : TcpStack) (id : Nat) : TcpCall → Bool
  | .input now sends segment _ _ _ =>
      match stack.socketOf segment with
      | some (other, s) => decide (other = id) && segment.isFin && peerEnded (s.input now sends segment).1.state
      | none => false
  | _ => false

def tellsEnd (stack : TcpStack) (id : Nat) : TcpCall → Bool
  | .recv other maxLen =>
      match stack.get? other with
      | some s => decide (other = id ∧ 0 < maxLen ∧ (s.recv maxLen).1 = -1)
      | none => false
  | _ => false

def begins (after : TcpStack) (id : Nat) : TcpCall → Bool
  | .connect other _ _ _ _ | .connectStart other _ _ _ _ _ _ =>
      match after.get? other with
      | some s => decide (other = id ∧ s.state = .synSent)
      | none => false
  | _ => false

end TcpCall

/-- The stack, the sockets whose connection has taken the FIN of the peer, and those whose reader
was told that the stream of the connection ended. -/
structure TcpStreams where
  stack : TcpStack
  finished : Nat → Bool
  told : Nat → Bool

def TcpStreams.empty : TcpStreams where
  stack := emptyStack
  finished := fun _ => false
  told := fun _ => false

def TcpStreams.step (streams : TcpStreams) (call : TcpCall) : TcpStreams where
  stack := tcpStep streams.stack call
  finished := fun id => !call.begins (tcpStep streams.stack call) id &&
    (streams.finished id || call.takesFin streams.stack id)
  told := fun id => !call.begins (tcpStep streams.stack call) id &&
    (streams.told id || call.tellsEnd streams.stack id)

/-- Nobody reads from an empty buffer while this side has closed and the peer has not. -/
def TcpStreams.Condition (streams : TcpStreams) : TcpCall → Prop
  | .recv id _ =>
      match streams.stack.get? id with
      | some s => s.rxLen = 0 → s.state ≠ .finWait1 ∧ s.state ≠ .finWait2
      | none => True
  | _ => True

instance (streams : TcpStreams) : ∀ call, Decidable (streams.Condition call)
  | .recv id _ =>
      match isHere : streams.stack.get? id with
      | some s => decidable_of_iff (s.rxLen = 0 → s.state ≠ .finWait1 ∧ s.state ≠ .finWait2)
          (by rw [TcpStreams.Condition, isHere])
      | none => isTrue (by rw [TcpStreams.Condition, isHere]; trivial)
  | .create .. | .destroy .. | .bind .. | .listen .. | .connect .. | .connectTry ..
  | .connectEnd .. | .connectStart ..
  | .accept .. | .send .. | .shutdownWr .. | .closeEnd .. | .abandon .. | .input .. | .poll .. =>
    isTrue trivial

/-- Who was told that the stream ended reads nothing more, and the peer has ended it or the
connection is closed. -/
def EndFinal (streams : TcpStreams) : Prop :=
  ∀ id s, (id, s) ∈ streams.stack.sockets → streams.told id = true →
    (∀ maxLen, (s.recv maxLen).1 ≤ 0) ∧
    (streams.finished id = true ∨ s.state = .closed ∨ s.state = .listen)

structure Ended (s : TcpSocket) : Prop where
  empty : s.rxLen = 0
  state : peerEnded s.state = true ∨ s.state = .closed ∨ s.state = .listen

structure EndKept (s s' : TcpSocket) : Prop where
  ended : Ended s → Ended s'
  late : peerEnded s'.state = true → peerEnded s.state = true

theorem EndKept.refl (s : TcpSocket) : EndKept s s := ⟨id, id⟩

theorem EndKept.trans (first : EndKept s s') (second : EndKept s' s'') : EndKept s s'' :=
  ⟨fun ended => second.ended (first.ended ended), fun late => first.late (second.late late)⟩

theorem EndKept.same (rxLen : s'.rxLen = s.rxLen) (state : s'.state = s.state) : EndKept s s' :=
  ⟨fun ended => ⟨rxLen.trans ended.empty, state ▸ ended.state⟩, fun late => state ▸ late⟩

theorem EndKept.closed (rxLen : s'.rxLen = s.rxLen) (state : s'.state = .closed) : EndKept s s' :=
  ⟨fun ended => ⟨rxLen.trans ended.empty, .inr (.inl state)⟩,
    fun late => by rw [state] at late; cases late⟩

/-- What an acknowledgement leaves of a socket: its received data, and its state but for the FIN of
this side. -/
structure AckFrame (s s' : TcpSocket) : Prop where
  rxLen : s'.rxLen = s.rxLen
  rcvNxt : s'.rcvNxt = s.rcvNxt
  state : s'.state = s.state ∨ s.state = .finWait1 ∧ s'.state = .finWait2 ∨ s.state = .closing ∧
    s'.state = .timeWait ∨ s.state = .lastAck ∧ s'.state = .closed

theorem output_kept (now sends : Nat) (s : TcpSocket) : (s.output now sends).1.rxLen = s.rxLen ∧
    (s.output now sends).1.rcvNxt = s.rcvNxt ∧ (s.output now sends).1.state = s.state := by
  obtain ⟨rttSeq, rttStart, txSent, sndMax, finSent, sndNxt, rtxAt, same⟩ :=
    output_frame now sends s
  rw [same]
  exact ⟨rfl, rfl, rfl⟩

theorem AckFrame.output (frame : AckFrame s s') (now sends : Nat) :
    AckFrame s (s'.output now sends).1 := by
  obtain ⟨rxLen, rcvNxt, state⟩ := output_kept now sends s'
  exact ⟨rxLen.trans frame.rxLen, rcvNxt.trans frame.rcvNxt, state ▸ frame.state⟩

theorem AckFrame.after (frame : AckFrame s' s'')
    (same : s'.rxLen = s.rxLen ∧ s'.rcvNxt = s.rcvNxt ∧ s'.state = s.state) : AckFrame s s'' :=
  ⟨frame.rxLen.trans same.1, frame.rcvNxt.trans same.2.1, same.2.2 ▸ frame.state⟩

theorem finAcked_frame (now : Nat) (s : TcpSocket) : AckFrame s (s.finAcked now) := by
  rw [TcpSocket.finAcked]
  split
  · next isState => exact ⟨rfl, rfl, .inr (.inl ⟨isState, rfl⟩)⟩
  · next isState => exact ⟨rfl, rfl, .inr (.inr (.inl ⟨isState, rfl⟩))⟩
  · next isState => exact ⟨rfl, rfl, .inr (.inr (.inr ⟨isState, rfl⟩))⟩
  · exact ⟨rfl, rfl, .inl rfl⟩

theorem dropAcked_kept (acked : Nat) (s : TcpSocket) : (s.dropAcked acked).rxLen = s.rxLen ∧
    (s.dropAcked acked).rcvNxt = s.rcvNxt ∧ (s.dropAcked acked).state = s.state := by
  rw [TcpSocket.dropAcked]
  split <;> exact ⟨rfl, rfl, rfl⟩

theorem sampleRtt_kept (now : Nat) (ack : Seq) (s : TcpSocket) :
    (s.sampleRtt now ack).rxLen = s.rxLen ∧ (s.sampleRtt now ack).rcvNxt = s.rcvNxt ∧
    (s.sampleRtt now ack).state = s.state := by
  rw [TcpSocket.sampleRtt]
  split <;> exact ⟨rfl, rfl, rfl⟩

theorem cutQueue_frame (now adv : Nat) (s : TcpSocket) : AckFrame s (s.cutQueue now adv) := by
  have same := dropAcked_kept (min adv s.txLen) s
  rw [TcpSocket.cutQueue]
  split
  · exact (finAcked_frame now (s.dropAcked (min adv s.txLen))).after same
  · exact ⟨same.1, same.2.1, .inl same.2.2⟩

theorem processAck_frame (ack : Seq) (win : Nat) (pure : Bool) :
    AckFrame s (s.processAck now sends ack win pure).1 := by
  have same : ∀ s' : TcpSocket, s'.rxLen = s.rxLen → s'.rcvNxt = s.rcvNxt → s'.state = s.state →
    AckFrame s s' :=
    fun s' rxLen rcvNxt state => ⟨rxLen, rcvNxt, .inl state⟩
  rw [TcpSocket.processAck]
  split
  · exact same s rfl rfl rfl
  · split
    · rw [TcpSocket.processDuplicate]
      dsimp only
      split
      · split
        · refine AckFrame.output ?_ now sends
          exact same _ rfl rfl rfl
        · exact same _ rfl rfl rfl
      · split
        · refine AckFrame.output ?_ now sends
          exact same _ rfl rfl rfl
        · exact same _ rfl rfl rfl
    · refine AckFrame.output ?_ now sends
      have kept := sampleRtt_kept now ack { s with peerWnd := win, dupAcks := 0 }
      obtain ⟨timed, isTimed⟩ : ∃ timed, TcpSocket.sampleRtt now ack { s with peerWnd := win, dupAcks := 0 } = timed := ⟨_, rfl⟩
      rw [isTimed] at kept ⊢
      have cut : AckFrame s _ := (cutQueue_frame now (Seq.diff ack s.sndUna).toNat { timed with rtxCount := 0 }).after kept
      exact ⟨cut.rxLen, cut.rcvNxt, cut.state⟩

theorem AckFrame.kept (frame : AckFrame s s') : EndKept s s' := by
  obtain same | ⟨before, after⟩ | ⟨before, after⟩ | ⟨before, after⟩ := frame.state
  · exact .same frame.rxLen same
  · refine ⟨fun ended => ?_, fun late => ?_⟩
    · have state := ended.state
      rw [before] at state
      exact absurd state (by decide)
    · rw [after] at late
      cases late
  · refine ⟨fun ended => ⟨frame.rxLen.trans ended.empty, .inl ?_⟩, fun _ => ?_⟩
    · rw [after]
      rfl
    · rw [before]
      rfl
  · exact .closed frame.rxLen after

theorem inputData_idle (idle : TcpSocket.takesData s.state = false) :
    s.inputData now segment = (s, []) := by
  rw [TcpSocket.inputData, if_neg]
  rintro ⟨takes, -⟩
  exact absurd (idle.symm.trans takes) (by rintro ⟨⟩)

theorem keepHole_state (s : TcpSocket) : (s.keepHole segment).state = s.state := by
  rw [TcpSocket.keepHole]
  dsimp only
  split
  · split
    · rfl
    · split <;> rfl
  · rfl

theorem takeBytes_state (bytes : List UInt8) (s : TcpSocket) :
    (s.takeBytes bytes).closeHole.state = s.state := by
  have taken : (s.takeBytes bytes).state = s.state := by
    rw [TcpSocket.takeBytes]
    split <;> rfl
  rw [TcpSocket.closeHole]
  split <;> exact taken

theorem inputData_state (noFin : segment.isFin = false) :
    (s.inputData now segment).1.state = s.state := by
  rw [TcpSocket.inputData]
  dsimp only
  split
  · split
    · exact keepHole_state s
    · split
      · rfl
      · rw [TcpSocket.takeData, if_neg (by simp [noFin])]
        exact takeBytes_state _ s
  · rfl

theorem inputOpen_kept : (Ended s → Ended (s.inputOpen now sends segment).1) ∧
    (segment.isFin = false → peerEnded (s.inputOpen now sends segment).1.state = true →
    peerEnded s.state = true) := by
  rw [TcpSocket.inputOpen]
  split
  · exact ⟨id, fun _ => id⟩
  split
  · dsimp only
    split
    · have kept : EndKept s { s with state := .closed, resetSeen := true, rtxAt := 0 } := .closed rfl rfl
      exact ⟨kept.ended, fun _ => kept.late⟩
    · exact ⟨id, fun _ => id⟩
  split
  · exact ⟨id, fun _ => id⟩
  split
  · exact ⟨id, fun _ => id⟩
  have kept := (@processAck_frame s now sends segment.ack segment.window (decide (segment.data = [] ∧ segment.isFin = false))).kept
  dsimp only
  split
  · exact ⟨kept.ended, fun _ => kept.late⟩
  · refine ⟨fun ended => ?_, fun noFin late => ?_⟩
    · have acked := kept.ended ended
      rw [inputData_idle]
      · exact acked
      · obtain late | closed | listens := acked.state
        · revert late
          cases (s.processAck now sends segment.ack segment.window (decide (segment.data = [] ∧ segment.isFin = false))).1.state <;>
            decide
        · rw [closed]
          rfl
        · rw [listens]
          rfl
    · rw [inputData_state noFin] at late
      exact kept.late late

theorem input_kept : (Ended s → Ended (s.input now sends segment).1) ∧
    (segment.isFin = false → peerEnded (s.input now sends segment).1.state = true →
    peerEnded s.state = true) := by
  have opening : ∀ state, (state = .synSent ∨ state = .synReceived) → s.state = state →
    ¬ Ended s := by
    rintro state isOpening rfl ended
    obtain late | closed | listens := ended.state
    · obtain isState | isState := isOpening <;> simp [isState, peerEnded] at late
    · rw [closed] at isOpening
      exact absurd isOpening (by decide)
    · rw [listens] at isOpening
      exact absurd isOpening (by decide)
  rw [TcpSocket.input]
  split
  · next isState =>
    refine ⟨fun ended => absurd ended (opening _ (.inl rfl) isState), fun _ late => ?_⟩
    rw [TcpSocket.inputSynSent] at late
    dsimp only at late
    split at late
    · exact late
    split at late
    · split at late
      · cases late
      · exact late
    split at late
    · split at late <;> cases late
    · exact late
  split
  · next isState =>
    refine ⟨fun ended => absurd ended (opening _ (.inr rfl) isState), fun noFin late => ?_⟩
    split at late
    · dsimp only at late
      split at late
      · cases late
      · exact late
    split at late
    · exact late
    split at late
    · have kept := inputOpen_kept.2 noFin late
      cases kept
    · exact late
  · exact inputOpen_kept

theorem firstSyn_kept (retryAt : Nat) : EndKept s (s.firstSyn now sends retryAt).1 := by
  rw [TcpSocket.firstSyn]
  split <;> exact .same rfl rfl

theorem connectTry_kept : EndKept s (s.connectTry now sends).1 := by
  rw [TcpSocket.connectTry]
  split
  · exact .refl s
  · exact firstSyn_kept 0

theorem connectEnd_kept (s : TcpSocket) : EndKept s s.connectEnd := by
  rw [TcpSocket.connectEnd]
  split
  · exact .refl s
  · exact .closed rfl rfl

theorem listen_kept (backlog : Int) (s : TcpSocket) : EndKept s (s.listen backlog) := by
  rw [TcpSocket.listen]
  split
  · exact ⟨fun ended => ⟨ended.empty, .inr (.inr rfl)⟩, (by rintro ⟨⟩)⟩
  · exact .refl s

theorem send_kept {data : List UInt8} : EndKept s (s.send now sends data).2.1 := by
  rw [TcpSocket.send]
  split
  · dsimp only
    split
    · exact .refl s
    · obtain ⟨rxLen, -, state⟩ := output_kept now sends (s.txAppend (data.take (min data.length (s.txMax - s.txLen))))
      refine .same (rxLen.trans ?_) (state.trans ?_) <;>
      · rw [TcpSocket.txAppend]
        split <;> rfl
  · exact .refl s

theorem recv_kept (maxLen : Nat) (s : TcpSocket) : EndKept s (s.recv maxLen).2.2.1 := by
  rw [TcpSocket.recv]
  split
  · exact .refl s
  · next some => exact ⟨fun ended => absurd ended.empty some, id⟩

theorem shutdownWr_kept : EndKept s (s.shutdownWr now sends).1 := by
  rw [TcpSocket.shutdownWr]
  split
  · next isOpen =>
    obtain ⟨rxLen, -, state⟩ := output_kept now sends { s with
      state := if s.state = .established then .finWait1 else .lastAck, finQueued := true }
    obtain isOpen | isOpen := isOpen
    · refine ⟨fun ended => ?_, fun late => ?_⟩
      · have notEnded := ended.state
        rw [isOpen] at notEnded
        exact absurd notEnded (by decide)
      · rw [state.trans (if_pos isOpen)] at late
        cases late
    · have notEstablished : s.state ≠ .established := fun same => by cases isOpen.symm.trans same
      refine ⟨fun ended => ⟨rxLen.trans ended.empty, .inl ?_⟩, fun _ => ?_⟩
      · rw [state.trans (if_neg notEstablished)]
        rfl
      · rw [isOpen]
        rfl
  · exact .refl s

theorem abandon_kept : EndKept s (s.abandon now sends).1 := by
  have shut := @shutdownWr_kept s now sends
  rw [TcpSocket.abandon]
  split
  · next opening =>
    refine EndKept.closed ?_ rfl
    rw [TcpSocket.shutdownWr, if_neg]
    rintro (isOpen | isOpen) <;> rw [isOpen] at opening <;> exact absurd opening (by decide)
  · exact ⟨fun ended => ⟨(shut.ended ended).empty, (shut.ended ended).state⟩, shut.late⟩

theorem orphan_kept (listener : Nat) (s : TcpSocket) : EndKept s (s.orphan listener) := by
  rw [TcpSocket.orphan]
  split
  · exact .closed rfl rfl
  · exact .refl s

theorem expire_kept (now : Nat) (s : TcpSocket) : EndKept s (s.expireTimeWait now) := by
  rw [TcpSocket.expireTimeWait]
  split
  · exact .closed rfl rfl
  · exact .refl s

theorem poll_kept : EndKept s (s.poll now sends).1 := by
  rw [TcpSocket.poll]
  split
  · exact .closed rfl rfl
  split
  · exact .refl s
  split
  · exact .same rfl rfl
  dsimp only
  obtain ⟨limit, isLimit⟩ :
    ∃ limit, (if s.state = .synSent ∨ s.state = .synReceived then 5 else 8) = limit := ⟨_, rfl⟩
  rw [isLimit]
  split
  · exact .closed rfl rfl
  split
  · exact .same rfl rfl
  split
  · exact .same rfl rfl
  obtain ⟨rxLen, -, state⟩ := output_kept now sends (TcpSocket.rewind { s with
    rtxCount := (s.rtxCount + 1) % 256, rto := min 16000 (s.rto * 2), rtxAt := 0
    ssthresh := s.lossThreshold (s.sndMax - s.sndUna).toNat, cwnd := s.mss })
  split
  · exact .same rxLen state
  · exact .same rxLen state

/-- Every socket comes from one with its number, and numbers are not given back. -/
structure StackKept (stack stack' : TcpStack) : Prop where
  origin : ∀ id s', (id, s') ∈ stack'.sockets → ∃ s, (id, s) ∈ stack.sockets ∧ EndKept s s'
  nextId : stack.nextId ≤ stack'.nextId

theorem StackKept.refl (stack : TcpStack) : StackKept stack stack :=
  ⟨fun _ s' member => ⟨s', member, .refl s'⟩, Nat.le_refl _⟩

theorem StackKept.mapSockets (kept : StackKept stack stack') {change : Nat → TcpSocket → TcpSocket}
    (keeps : ∀ id s, EndKept s (change id s)) : StackKept stack (stack'.mapSockets change) := by
  refine ⟨fun id s' member => ?_, kept.nextId⟩
  obtain ⟨⟨other, s⟩, isOld, same⟩ := List.mem_map.mp member
  obtain ⟨rfl, rfl⟩ := Prod.mk.inj same
  obtain ⟨old, isHere, before⟩ := kept.origin other s isOld
  exact ⟨old, isHere, before.trans (keeps other s)⟩

theorem StackKept.update (kept : StackKept stack stack') {change : TcpSocket → TcpSocket}
    (keeps : ∀ s, EndKept s (change s)) : StackKept stack (stack'.update id change) := by
  refine kept.mapSockets fun other s => ?_
  split
  · exact keeps s
  · exact .refl s

theorem StackKept.filter (kept : StackKept stack stack') (keep : Nat × TcpSocket → Bool) :
    StackKept stack { stack' with sockets := stack'.sockets.filter keep } :=
  ⟨fun id s' member => kept.origin id s' (List.mem_filter.mp member).1, kept.nextId⟩

theorem accept_kept (stack : TcpStack) (id : Nat) : StackKept stack (stack.accept id) := by
  rw [TcpStack.accept]
  split
  · exact .refl stack
  · split
    · split
      · exact .refl stack
      · split
        · exact (StackKept.refl stack).update fun s => .same rfl rfl
        · exact (StackKept.refl stack).update fun s => .same rfl rfl
    · exact .refl stack

theorem stackAbandon_kept (stack : TcpStack) (now sends id : Nat) :
    StackKept stack (stack.abandon now sends id) := by
  rw [TcpStack.abandon]
  split
  · exact .refl stack
  · refine StackKept.update ?_ fun s => abandon_kept
    split
    · exact (StackKept.refl stack).mapSockets fun _ s => orphan_kept id s
    · exact .refl stack

theorem stackPoll_kept (stack : TcpStack) (takes : Nat → Nat) :
    StackKept stack (stack.poll now takes) := by
  rw [TcpStack.poll]
  have expired : StackKept stack (stack.mapSockets fun _ => TcpSocket.expireTimeWait now) :=
    (StackKept.refl stack).mapSockets fun _ s => expire_kept now s
  exact (expired.filter fun entry => !entry.2.isDead now).mapSockets fun id s => poll_kept

theorem destroy_kept (stack : TcpStack) (id : Nat) : StackKept stack (stack.destroy id) := by
  refine ((StackKept.refl stack).filter fun entry => decide (entry.1 ≠ id)).mapSockets fun _ s => ?_
  split
  · exact .closed rfl rfl
  · exact .refl s

theorem bind_kept (stack : TcpStack) (id port : Nat) (draws : List Nat) :
    StackKept stack (stack.bind id port draws) := by
  rw [TcpStack.bind]
  obtain ⟨chosen, isChosen⟩ : ∃ chosen, (if port = 0 then stack.pickPort draws id else
    if stack.portUsed port id then 0 else port) = chosen := ⟨_, rfl⟩
  rw [isChosen]
  split
  · exact .refl stack
  · exact (StackKept.refl stack).update fun s => .same rfl rfl

structure EndFollows (stack : TcpStack) (call : TcpCall) (id : Nat) (s s' : TcpSocket) : Prop where
  ended : call.begins (tcpStep stack call) id = false → Ended s → Ended s'
  late : peerEnded s'.state = true → call.takesFin stack id = true ∨ peerEnded s.state = true

/-- What a call does to the sockets: they follow those that were there, or are new. -/
structure StackFollows (stack : TcpStack) (call : TcpCall) : Prop where
  origin : ∀ id s', (id, s') ∈ (tcpStep stack call).sockets →
    (∃ s, (id, s) ∈ stack.sockets ∧ EndFollows stack call id s s') ∨ id = stack.nextId ∧
    peerEnded s'.state = false
  nextId : stack.nextId ≤ (tcpStep stack call).nextId

theorem StackKept.follows (kept : StackKept stack (tcpStep stack call)) :
    StackFollows stack call := by
  refine ⟨fun id s' member => .inl ?_, kept.nextId⟩
  obtain ⟨s, isHere, same⟩ := kept.origin id s' member
  exact ⟨s, isHere, fun _ => same.ended, fun late => .inr (same.late late)⟩

theorem add_from (member : (id, s') ∈ (stack.add s).sockets) :
    (id, s') ∈ stack.sockets ∨ id = stack.nextId ∧ s' = s := by
  obtain same | before := List.mem_cons.mp member
  · exact .inr (Prod.mk.inj same)
  · exact .inl before

theorem connect_from {other : Nat} {peer : TcpPeer} {port : Nat} {draws : List Nat} {iss : Seq}
    (member : (id, s') ∈ (stack.connect other peer port draws iss).sockets) :
    ∃ s, (id, s) ∈ stack.sockets ∧ (EndKept s s' ∨ id = other ∧ s'.state = .synSent) := by
  obtain ⟨⟨old, s⟩, isOld, same⟩ := List.mem_map.mp member
  obtain ⟨rfl, rfl⟩ := Prod.mk.inj same
  refine ⟨s, isOld, ?_⟩
  dsimp only
  obtain ⟨localPort, isPort⟩ :
    ∃ localPort, (if s.localPort = 0 ∨ stack.portUsed s.localPort other then
    stack.pickPort draws other else s.localPort) = localPort := ⟨_, rfl⟩
  rw [isPort]
  split
  · next isOther =>
    split
    · exact .inl (.same rfl rfl)
    · exact .inr ⟨isOther, rfl⟩
  · exact .inl (.refl s)

theorem connectStart_from {other : Nat} {peer : TcpPeer} {port : Nat} {draws : List Nat} {iss : Seq}
    (member : (id, s') ∈ (stack.connectStart now sends other peer port draws iss).sockets) :
    ∃ s, (id, s) ∈ stack.sockets ∧ (EndKept s s' ∨ id = other ∧ s'.state = .synSent) := by
  rw [TcpStack.connectStart] at member
  split at member
  · exact ⟨s', member, .inl (.refl s')⟩
  · split at member
    · obtain ⟨⟨old, middle⟩, isMiddle, same⟩ := List.mem_map.mp member
      obtain ⟨rfl, rfl⟩ := Prod.mk.inj same
      obtain ⟨s, isHere, begun⟩ := connect_from isMiddle
      refine ⟨s, isHere, ?_⟩
      dsimp only
      split
      · next isOther =>
        split
        · next isState =>
          refine .inr ⟨isOther, ?_⟩
          rw [TcpSocket.firstSyn]
          split <;> exact isState
        · next notState => exact begun.imp_right fun both => absurd both.2 notState
      · exact begun
    · exact ⟨s', member, .inl (.refl s')⟩

theorem begun_follows (numbered : Numbered (tcpStep stack call)) {other : Nat}
    (begins : ∀ after id, call.begins after id = match after.get? other with
      | some s => decide (other = id ∧ s.state = .synSent)
      | none => false)
    (froms : ∀ id s', (id, s') ∈ (tcpStep stack call).sockets →
      ∃ s, (id, s) ∈ stack.sockets ∧ (EndKept s s' ∨ id = other ∧ s'.state = .synSent))
    (nextId : stack.nextId ≤ (tcpStep stack call).nextId) : StackFollows stack call := by
  refine ⟨fun id s' member => .inl ?_, nextId⟩
  obtain ⟨s, isHere, kept | ⟨rfl, isState⟩⟩ := froms id s' member
  · exact ⟨s, isHere, fun _ => kept.ended, fun late => .inr (kept.late late)⟩
  · refine ⟨s, isHere, fun goesOn => ?_, fun late => ?_⟩
    · rw [begins, numbered.get? member] at goesOn
      exact absurd ⟨rfl, isState⟩ (of_decide_eq_false goesOn)
    · rw [isState] at late
      cases late

theorem input_follows (numbered : Numbered stack) {rxCell txCell : Nat → UInt8} {iss : Seq} :
    StackFollows stack (.input now sends segment rxCell txCell iss) := by
  have same : tcpStep stack (.input now sends segment rxCell txCell iss) = stack →
      StackFollows stack (.input now sends segment rxCell txCell iss) := fun same =>
    StackKept.follows (by rw [same]; exact .refl stack)
  cases found : stack.socketOf segment with
  | some entry =>
      have isStack : tcpStep stack (.input now sends segment rxCell txCell iss) =
          stack.update entry.1 fun s => (s.input now sends segment).1 := by
        rw [tcpStep, TcpStack.input, found]
      refine ⟨fun id s' member => .inl ?_, by rw [isStack]; exact Nat.le_refl _⟩
      rw [isStack] at member
      obtain ⟨⟨other, s⟩, isOld, isNew⟩ := List.mem_map.mp member
      obtain ⟨rfl, rfl⟩ := Prod.mk.inj isNew
      refine ⟨s, isOld, ?_⟩
      dsimp only
      split
      · next isEntry =>
        have isThis : s = entry.2 := numbered.same isOld (isEntry ▸ List.mem_of_find?_eq_some found)
        have kept := @input_kept s now sends segment
        refine ⟨fun _ => kept.1, fun late => ?_⟩
        cases isFin : segment.isFin with
        | false => exact .inr (kept.2 isFin late)
        | true =>
            rw [isThis] at late
            simp [TcpCall.takesFin, found, isEntry, isFin, late]
      · exact ⟨fun _ => id, .inr⟩
  | none =>
      by_cases opens : segment.isSyn = true ∧ segment.isAck = false ∧ segment.isRst = false
      · cases listens : stack.sockets.find? fun entry => decide (entry.2.state = .listen ∧ entry.2.localPort = segment.dstPort) with
        | none =>
            refine same ?_
            rw [tcpStep, TcpStack.input, found]
            simp only [if_pos opens, listens]
        | some entry =>
            have isStack : tcpStep stack (.input now sends segment rxCell txCell iss) =
                stack.inputListen now segment rxCell txCell iss entry.1 entry.2 := by
              rw [tcpStep, TcpStack.input, found]
              simp only [if_pos opens, listens]
            rw [TcpStack.inputListen] at isStack
            split at isStack
            · refine ⟨fun id s' member => ?_, by rw [isStack]; exact Nat.le_succ _⟩
              rw [isStack] at member
              obtain before | ⟨isNew, isChild⟩ := add_from member
              · exact .inl ⟨s', before, fun _ ended => ended, .inr⟩
              · refine .inr ⟨isNew, ?_⟩
                rw [isChild]
                rfl
            · exact same isStack
      · refine same ?_
        rw [tcpStep, TcpStack.input, found]
        exact if_neg opens

theorem step_follows (numbered : Numbered stack) (call : TcpCall) : StackFollows stack call := by
  have after := numbered.step call
  cases call with
  | create rxCell txCell =>
      refine ⟨fun id s' member => ?_, Nat.le_succ _⟩
      obtain before | ⟨isNew, isSocket⟩ := add_from member
      · exact .inl ⟨s', before, fun _ ended => ended, .inr⟩
      · refine .inr ⟨isNew, ?_⟩
        rw [isSocket]
        rfl
  | destroy id => exact (destroy_kept stack id).follows
  | bind id port draws => exact (bind_kept stack id port draws).follows
  | listen id backlog =>
    exact StackKept.follows ((StackKept.refl stack).update fun s => listen_kept backlog s)
  | connect id peer port draws iss =>
      exact begun_follows after (fun _ _ => rfl) (fun _ _ member => connect_from member) (Nat.le_refl _)
  | connectTry id now sends =>
    exact StackKept.follows ((StackKept.refl stack).update fun s => connectTry_kept)
  | connectEnd id => exact StackKept.follows ((StackKept.refl stack).update fun s =>
    connectEnd_kept s)
  | connectStart id now sends peer port draws iss =>
      refine begun_follows after (fun _ _ => rfl) (fun _ _ member => connectStart_from member) ?_
      change _ ≤ (stack.connectStart now sends id peer port draws iss).nextId
      rw [connectStart_nextId]
  | accept id => exact (accept_kept stack id).follows
  | send id now sends data =>
    exact StackKept.follows ((StackKept.refl stack).update fun s => send_kept)
  | recv id maxLen => exact StackKept.follows ((StackKept.refl stack).update fun s =>
    recv_kept maxLen s)
  | shutdownWr id now sends =>
    exact StackKept.follows ((StackKept.refl stack).update fun s => shutdownWr_kept)
  | closeEnd id => exact StackKept.follows ((StackKept.refl stack).update fun s => .closed rfl rfl)
  | abandon id now sends => exact (stackAbandon_kept stack now sends id).follows
  | input now sends segment rxCell txCell iss => exact input_follows numbered
  | poll now sends => exact (stackPoll_kept stack sends).follows

structure StreamsSound (streams : TcpStreams) : Prop where
  numbered : Numbered streams.stack
  ended : ∀ id s, (id, s) ∈ streams.stack.sockets → streams.told id = true → Ended s
  late : ∀ id s, (id, s) ∈ streams.stack.sockets → peerEnded s.state = true →
    streams.finished id = true
  old : ∀ id, streams.told id = true → id < streams.stack.nextId

theorem recv_ended {maxLen : Nat} (tells : (s.recv maxLen).1 = -1)
    (condition : s.rxLen = 0 → s.state ≠ .finWait1 ∧ s.state ≠ .finWait2) : Ended s := by
  rw [TcpSocket.recv] at tells
  split at tells
  · next empty =>
    refine ⟨empty, ?_⟩
    split at tells
    · cases tells
    · next notOpen => cases isState : s.state <;> simp_all [peerEnded]
  · exact absurd tells (by dsimp only; omega)

theorem tellsEnd_cases (tells : call.tellsEnd stack id = true) :
    ∃ s maxLen, call = .recv id maxLen ∧ stack.get? id = some s ∧ (s.recv maxLen).1 = -1 := by
  cases call with
  | recv other maxLen =>
      rw [TcpCall.tellsEnd] at tells
      cases isHere : stack.get? other with
      | none =>
          rw [isHere] at tells
          cases tells
      | some s =>
          rw [isHere] at tells
          obtain ⟨rfl, -, ends⟩ := of_decide_eq_true tells
          exact ⟨s, maxLen, rfl, isHere, ends⟩
  | _ => cases tells

theorem begins_cases {after : TcpStack} (begins : call.begins after id = true) :
    ∃ s, after.get? id = some s ∧ s.state = .synSent := by
  have opened : ∀ other, (match after.get? other with
      | some s => decide (other = id ∧ s.state = .synSent)
      | none => false) = true → ∃ s, after.get? id = some s ∧ s.state = .synSent := by
    intro other opens
    split at opens
    · next s isHere =>
      obtain ⟨rfl, isState⟩ := of_decide_eq_true opens
      exact ⟨s, isHere, isState⟩
    · cases opens
  cases call with
  | connect other peer port draws iss => exact opened other begins
  | connectStart other now sends peer port draws iss => exact opened other begins
  | _ => cases begins

theorem StreamsSound.step {streams : TcpStreams} (sound : StreamsSound streams)
    (condition : streams.Condition call) : StreamsSound (streams.step call) := by
  have follows := step_follows sound.numbered call
  have fresh : ∀ id, streams.told id = true ∨ call.tellsEnd streams.stack id = true →
    id < streams.stack.nextId := by
    rintro id (before | tells)
    · exact sound.old id before
    · obtain ⟨s, -, -, isHere, -⟩ := tellsEnd_cases tells
      exact sound.numbered.numbered (id, s) (get?_mem isHere)
  refine ⟨sound.numbered.step call, fun id s' member told => ?_, fun id s' member late => ?_,
    fun id told => ?_⟩
  · simp only [TcpStreams.step, Bool.and_eq_true, Bool.not_eq_true', Bool.or_eq_true] at told
    obtain ⟨goesOn, told⟩ := told
    have older := fresh id told
    obtain ⟨s, isHere, kept⟩ | ⟨isNew, -⟩ := follows.origin id s' member
    · refine kept.ended goesOn ?_
      obtain before | tells := told
      · exact sound.ended id s isHere before
      · obtain ⟨found, maxLen, rfl, isFound, ends⟩ := tellsEnd_cases tells
        have isSame : found = s := sound.numbered.same (get?_mem isFound) isHere
        rw [TcpStreams.Condition, isFound] at condition
        exact isSame ▸ recv_ended ends condition
    · omega
  · simp only [TcpStreams.step, Bool.and_eq_true, Bool.not_eq_true', Bool.or_eq_true]
    refine ⟨?_, ?_⟩
    · cases begins : call.begins (tcpStep streams.stack call) id with
      | false => rfl
      | true =>
          obtain ⟨found, isFound, isState⟩ := begins_cases begins
          have isSame : found = s' := (sound.numbered.step call).same (get?_mem isFound) member
          rw [← isSame, isState] at late
          cases late
    · obtain ⟨s, isHere, kept⟩ | ⟨-, notLate⟩ := follows.origin id s' member
      · exact (kept.late late).symm.imp_left (sound.late id s isHere)
      · exact absurd (notLate.symm.trans late) nofun
  · simp only [TcpStreams.step, Bool.and_eq_true, Bool.or_eq_true] at told
    exact Nat.lt_of_lt_of_le (fresh id told.2) follows.nextId

theorem StreamsSound.final {streams : TcpStreams} (sound : StreamsSound streams) :
    EndFinal streams := by
  intro id s member told
  have ended := sound.ended id s member told
  refine ⟨fun maxLen => ?_, ended.state.imp_left (sound.late id s member)⟩
  rw [TcpSocket.recv, if_pos ended.empty]
  dsimp only
  split <;> decide

theorem StreamsSound.empty : StreamsSound .empty :=
  ⟨emptyStack_numbered, fun _ _ member => (nomatch member), fun _ _ member => (nomatch member),
    nofun⟩

/-- In every run in which nobody reads from an empty buffer while this side has closed and the peer
has not, a reader that was told that the stream of a connection ended reads nothing of it again, and
the FIN of the peer was taken or the connection is closed. -/
theorem end_of_stream_final {streams : TcpStreams}
    (reached : Reaches TcpStreams.step TcpStreams.Condition .empty streams) : EndFinal streams :=
  StreamsSound.final (reached.invariant .empty fun _ _ sound condition => sound.step condition)

def lastSegment : TcpCall :=
  .input 7 9 ⟨⟨false, 9⟩, 80, 49152, 100, 1, false, true, true, false, 65535, [], [7]⟩ (fun _ => 0)
    (fun _ => 0) 0

theorem end_of_stream_final_closed : EndFinal (runSteps TcpStreams.step .empty
    (openedCalls ++ [lastSegment, .recv 0 10, .recv 0 10])) ∧
    (runSteps TcpStreams.step .empty (openedCalls ++ [lastSegment, .recv 0 10, .recv 0 10])).told
    0 = true := by
  exact ⟨end_of_stream_final (Reaches.refl.runSteps (by decide)), by decide⟩

/-- This side closes, its reader is told that the stream ended, and then reads a byte that the peer
still had to send. -/
theorem end_of_stream_early : ¬ EndFinal (runSteps TcpStreams.step .empty
    (openedCalls ++ [.shutdownWr 0 7 9, .recv 0 10, lastSegment])) := by
  have reads : (runSteps TcpStreams.step .empty (openedCalls ++ [.shutdownWr 0 7 9, .recv 0 10, lastSegment])).stack.sockets.any
      (fun entry => decide (entry.1 = 0) && decide (0 < (entry.2.recv 10).1)) = true ∧
      (runSteps TcpStreams.step .empty (openedCalls ++ [.shutdownWr 0 7 9, .recv 0 10, lastSegment])).told 0 = true := by
    decide
  intro final
  obtain ⟨⟨id, s⟩, member, both⟩ := List.any_eq_true.mp reads.1
  obtain ⟨isId, positive⟩ := Bool.and_eq_true_iff.mp both
  obtain rfl : id = 0 := of_decide_eq_true isId
  have none := (final 0 s member reads.2).1 10
  exact absurd (of_decide_eq_true positive) (Int.not_lt.mpr none)

end Cos.Net
