import Cos.Net.TcpRuns
import Cos.Net.TcpStream

/-! # Two ends of a connection

The two ends and the network between them.  The network keeps every segment that was ever sent and
delivers any of them at any time, again and again or never.  What one end returns is always a prefix
of what the other end was given.
-/

namespace Cos.Net

open Cos.Lib

inductive Side where
  | client
  | server
deriving DecidableEq

def Side.other : Side → Side
  | .client => .server
  | .server => .client

/-- A socket with its first number, the bytes that `send` took and the bytes that `recv` gave.  The
server is the listener until a SYN comes, and then the connection that the listener makes of it. -/
structure Endpoint where
  socket : TcpSocket
  iss : Seq
  accepted : List UInt8
  returned : List UInt8

/-- A segment on its way: where in the stream of its sender it starts, and how much of the other
stream it acknowledges. -/
structure Flight where
  segment : TcpSegment
  seqAt : Nat
  ackAt : Nat

structure Connection where
  ends : Side → Endpoint
  carried : Side → List Flight

namespace Endpoint

def base (e : Endpoint) : Seq := e.iss + 1

def acked (e : Endpoint) : Nat := e.accepted.length - e.socket.txLen

def taken (e : Endpoint) : Nat := e.returned.length + e.socket.rxLen

def flight (e : Endpoint) (segment : TcpSegment) : Flight where
  segment := segment
  seqAt := e.acked + (segment.seq - e.socket.sndUna).toNat
  ackAt := e.taken - (e.socket.rcvNxt - segment.ack).toNat

def send (now sends : Nat) (data : List UInt8) (e : Endpoint) : Endpoint × List TcpSegment :=
  let sent := e.socket.send now sends data
  ({ e with socket := sent.2.1, accepted := e.accepted ++ data.take sent.1.toNat }, sent.2.2)

def recv (maxLen : Nat) (e : Endpoint) : Endpoint × List TcpSegment :=
  let got := e.socket.recv maxLen
  ({ e with socket := got.2.2.1, returned := e.returned ++ got.2.1 }, got.2.2.2)

def poll (now sends : Nat) (e : Endpoint) : Endpoint × List TcpSegment :=
  let polled := e.socket.poll now sends
  ({ e with socket := polled.1 }, polled.2)

/-- `tcp_input` for the listener. -/
def listen (now : Nat) (rxCell txCell : Nat → UInt8) (segment : TcpSegment) (e : Endpoint) :
    TcpSocket × List TcpSegment :=
  if segment.isSyn ∧ segment.isAck = false ∧ segment.isRst = false then
    let s := TcpSocket.child 0 rxCell txCell e.iss now segment
    (s, [s.xmit true true false s.sndUna []])
  else
    (e.socket,
      if segment.isRst then []
      else if segment.isAck
      then [TcpSocket.reset segment.peer segment.dstPort segment.srcPort segment.ack 0 false]
      else [TcpSocket.reset segment.peer segment.dstPort segment.srcPort 0
        (segment.seq + BitVec.ofNat 32 segment.data.length + if segment.isSyn ∨ segment.isFin then 1 else 0) true])

def arrive (now sends : Nat) (rxCell txCell : Nat → UInt8) (segment : TcpSegment) (e : Endpoint) :
    Endpoint × List TcpSegment :=
  let taken := if e.socket.state = .listen then e.listen now rxCell txCell segment else e.socket.input now sends segment
  ({ e with socket := taken.1 }, taken.2)

end Endpoint

def Connection.put (c : Connection) (side : Side) (done : Endpoint × List TcpSegment) :
    Connection where
  ends other := if other = side then done.1 else c.ends other
  carried other := if other = side then c.carried other ++ done.2.map done.1.flight
    else c.carried other

inductive StreamCall where
  | send (side : Side) (now sends : Nat) (data : List UInt8)
  | recv (side : Side) (maxLen : Nat)
  | poll (side : Side) (now sends : Nat)
  | deliver (side : Side) (index now sends : Nat) (rxCell txCell : Nat → UInt8)

/-- `deliver` gives one end a segment that the other end has sent at any time before. -/
def streamStep (c : Connection) : StreamCall → Connection
  | .send side now sends data => c.put side ((c.ends side).send now sends data)
  | .recv side maxLen => c.put side ((c.ends side).recv maxLen)
  | .poll side now sends => c.put side ((c.ends side).poll now sends)
  | .deliver side index now sends rxCell txCell =>
      match (c.carried side.other)[index]? with
      | none => c
      | some flight => c.put side ((c.ends side).arrive now sends rxCell txCell flight.segment)

/-- A segment is delivered while less than `2 ^ 31` bytes of either stream have come behind the
places that it has. -/
def streamAllowed (c : Connection) : StreamCall → Prop
  | .deliver side index _ _ _ _ => ∀ flight ∈ (c.carried side.other)[index]?,
      (c.ends side.other).accepted.length - flight.seqAt < 2 ^ 31 ∧
      (c.ends side).accepted.length - flight.ackAt < 2 ^ 31
  | _ => True

/-- A socket that listens on a port, and another that has just called `connect`. -/
def Connection.start (clientRx clientTx serverRx serverTx : Nat → UInt8) (peer : TcpPeer)
    (port localPort : Nat) (clientIss serverIss : Seq) (now sends retryAt : Nat) : Connection :=
  let opened := ((TcpSocket.alloc clientRx clientTx).connect peer port localPort clientIss).firstSyn now sends retryAt
  let client : Endpoint := ⟨opened.1, clientIss, [], []⟩
  let listener := TcpSocket.listen 1 { TcpSocket.alloc serverRx serverTx with localPort := port, bound := true }
  { ends := fun side => if side = .client then client else ⟨listener, serverIss, [], []⟩
    carried := fun side => if side = .client then opened.2.map client.flight else [] }

/-- A segment on its way is a part of the stream of its sender, and acknowledges what the sender
has. -/
structure Genuine (me other : Endpoint) (flight : Flight) : Prop where
  fin : flight.segment.isRst = false → flight.segment.isFin = false
  syn : flight.segment.isRst = false → flight.segment.isSyn = true →
    flight.segment.seq + 1 = me.base
  plain : flight.segment.isRst = false → flight.segment.isSyn = false →
    flight.segment.seq = me.base + BitVec.ofNat 32 flight.seqAt ∧
      flight.segment.ack = other.base + BitVec.ofNat 32 flight.ackAt ∧ flight.ackAt ≤ me.taken ∧
      flight.segment.data <+: me.accepted.drop flight.seqAt

inductive Connecting : TcpState → Prop
  | listen : Connecting .listen
  | synSent : Connecting .synSent
  | synReceived : Connecting .synReceived

structure EndSound (me other : Endpoint) : Prop where
  sound : SocketSound me.socket
  unfinished : me.socket.finQueued = false ∧ me.socket.finSent = false
  returned : me.returned <+: other.accepted
  received : Received other.accepted me.returned.length me.socket
  queued : me.socket.txLen ≤ me.accepted.length
  acked : me.acked ≤ other.taken
  phase : Connecting me.socket.state ∨ me.socket.state = .established ∨ me.socket.state = .closed
  fresh : Connecting me.socket.state → me.accepted = [] ∧ me.returned = [] ∧ me.socket.rxLen = 0
  first : me.socket.state = .synSent ∨ me.socket.state = .synReceived → me.socket.sndUna = me.iss
  heard : me.socket.state = .synReceived → me.socket.rcvNxt = other.base
  streams : me.socket.state = .established ∨ me.socket.rxLen ≠ 0 →
    Sending me.base me.accepted me.socket ∧
    Receiving other.base other.accepted me.returned.length me.socket

structure ConnectionSound (c : Connection) : Prop where
  each : ∀ side, EndSound (c.ends side) (c.ends side.other)
  genuine : ∀ side, ∀ flight ∈ c.carried side, Genuine (c.ends side) (c.ends side.other) flight

structure Grows (e e' : Endpoint) : Prop where
  iss : e'.iss = e.iss
  accepted : e.accepted <+: e'.accepted
  taken : e.taken ≤ e'.taken

variable {me me' other other' : Endpoint} {flight : Flight} {segment : TcpSegment} {now sends : Nat}

theorem EndSound.grows (sound : EndSound me other) (grows : Grows other other') :
    EndSound me other' := by
  obtain ⟨more, isMore⟩ := grows.accepted
  have sameBase : other'.base = other.base := congrArg (· + 1) grows.iss
  refine ⟨sound.sound, sound.unfinished, sound.returned.trans grows.accepted, ?_, sound.queued,
    Nat.le_trans sound.acked grows.taken, sound.phase, sound.fresh, sound.first, fun isState => ?_,
    fun isState => ?_⟩
  · rw [← isMore]
    exact sound.received.append
  · rw [sameBase]
    exact sound.heard isState
  · obtain ⟨sending, receiving⟩ := sound.streams isState
    rw [sameBase, ← isMore]
    exact ⟨sending, receiving.append⟩

theorem Genuine.toOther (genuine : Genuine me other flight) (grows : Grows other other') :
    Genuine me other' flight := by
  have sameBase : other'.base = other.base := congrArg (· + 1) grows.iss
  refine ⟨genuine.fin, genuine.syn, ?_⟩
  rw [sameBase]
  exact genuine.plain

theorem Genuine.grows (genuine : Genuine me other flight) (grows : Grows me me') :
    Genuine me' other flight := by
  obtain ⟨more, isMore⟩ := grows.accepted
  have sameBase : me'.base = me.base := congrArg (· + 1) grows.iss
  refine ⟨genuine.fin, ?_, fun notRst notSyn => ?_⟩
  · rw [sameBase]
    exact genuine.syn
  · obtain ⟨isSeq, isAck, inTaken, part⟩ := genuine.plain notRst notSyn
    rw [sameBase]
    refine ⟨isSeq, isAck, Nat.le_trans inTaken grows.taken, ?_⟩
    rw [← isMore, List.drop_append]
    exact part.trans (List.prefix_append _ _)

variable {c : Connection} {side : Side}

theorem Side.other_ne (side : Side) : side.other ≠ side := by
  cases side <;> exact fun same => (nomatch same)

theorem Side.eq_other {other : Side} (different : other ≠ side) : other = side.other := by
  cases side <;> cases other <;> first | rfl | exact absurd rfl different

theorem Side.other_other (side : Side) : side.other.other = side := by
  cases side <;> rfl

theorem ConnectionSound.put (sound : ConnectionSound c) {done : Endpoint × List TcpSegment}
    (keeps : EndSound done.1 (c.ends side.other)) (grows : Grows (c.ends side) done.1)
    (genuine : ∀ segment ∈ done.2, Genuine done.1 (c.ends side.other) (done.1.flight segment)) :
    ConnectionSound (c.put side done) := by
  have mine : (c.put side done).ends side = done.1 := if_pos rfl
  have theirs : (c.put side done).ends side.other = c.ends side.other := if_neg side.other_ne
  refine ⟨fun one => ?_, fun one flight member => ?_⟩
  · by_cases isSide : one = side
    · rw [isSide, mine, theirs]
      exact keeps
    · rw [Side.eq_other isSide, theirs, Side.other_other, mine]
      have before := sound.each side.other
      rw [Side.other_other] at before
      exact before.grows grows
  · by_cases isSide : one = side
    · rw [isSide] at member
      rw [isSide, mine, theirs]
      change flight ∈ (if side = side then c.carried side ++ done.2.map done.1.flight else c.carried side) at member
      rw [if_pos rfl] at member
      obtain before | sent := List.mem_append.mp member
      · exact (sound.genuine side flight before).grows grows
      · obtain ⟨segment, isSent, rfl⟩ := List.mem_map.mp sent
        exact genuine segment isSent
    · rw [Side.eq_other isSide] at member
      rw [Side.eq_other isSide, theirs, Side.other_other, mine]
      change flight ∈ (if side.other = side then _ else c.carried side.other) at member
      rw [if_neg side.other_ne] at member
      have before := sound.genuine side.other flight member
      rw [Side.other_other] at before
      exact before.toOther grows

theorem EndSound.sizes (sound : EndSound me other) :
    me.socket.txLen ≤ 65535 ∧ me.socket.rxLen ≤ 65535 := by
  have queue := sound.sound.send.queue
  have received := sound.sound.recv.received
  have isSend : me.socket.txMax = 65535 := sound.sound.send.size
  have isRecv : me.socket.rxMax = 65535 := sound.sound.recv.size
  omega

theorem EndSound.emits (sound : EndSound me other)
      (streams : Sending me.base me.accepted me.socket ∧
      Receiving other.base other.accepted me.returned.length me.socket) {at' : Nat}
    (emits : Emits me.socket (other.base + BitVec.ofNat 32 at') segment) (before : at' ≤ me.taken)
    (near : me.taken ≤ at' + 65535) : Genuine me other (me.flight segment) := by
  obtain ⟨sending, receiving⟩ := streams
  obtain ⟨inQueue, -⟩ := sound.sizes
  obtain ⟨k, n, inside, isSeq, isData⟩ := emits.part
  have isPlace : (segment.seq - me.socket.sndUna).toNat = k := by
    have apart := @Seq.sub_toNat me.socket.sndUna k 0 (Nat.zero_le _) (by omega)
    rw [isSeq]
    simpa using apart
  have isNext : me.socket.rcvNxt = other.base + BitVec.ofNat 32 me.taken := receiving.next
  have isBehind : (me.socket.rcvNxt - segment.ack).toNat = me.taken - at' := by
    rw [isNext, emits.ack]
    exact Seq.sub_toNat before (by omega)
  have isAckAt : (me.flight segment).ackAt = at' := by
    change me.taken - (me.socket.rcvNxt - segment.ack).toNat = at'
    omega
  have isSeqAt : (me.flight segment).seqAt = me.acked + k := congrArg (me.acked + ·) isPlace
  refine ⟨fun _ => emits.fin, fun _ isSyn => ?_, fun _ _ => ?_⟩
  · exact absurd (emits.syn.symm.trans isSyn) Bool.false_ne_true
  · rw [isAckAt, isSeqAt]
    refine ⟨?_, emits.ack, before, ?_⟩
    · change segment.seq = me.base + BitVec.ofNat 32 (me.accepted.length - me.socket.txLen + k)
      rw [isSeq, sending.una, Seq.add_ofNat]
    · change segment.data <+: me.accepted.drop (me.accepted.length - me.socket.txLen + k)
      rw [isData]
      exact Buffer.Holds.read (sending.holds.part inside)

theorem EndSound.ackNow (sound : EndSound me other)
      (streams : Sending me.base me.accepted me.socket ∧
      Receiving other.base other.accepted me.returned.length me.socket) :
    Genuine me other (me.flight me.socket.ackNow) := by
  have emits := ackNow_emits sound.unfinished.2 sound.sound.send.sent
  have isNext : me.socket.rcvNxt = other.base + BitVec.ofNat 32 me.taken := streams.2.next
  exact sound.emits streams (emits.acks isNext) (Nat.le_refl _) (Nat.le_add_right _ _)

theorem EndSound.syn (sound : EndSound me other)
    (isFirst : me.socket.state = .synSent ∨ me.socket.state = .synReceived)
    (isSyn : segment.isSyn = true) (noFin : segment.isFin = false)
    (isSeq : segment.seq = me.socket.sndUna) : Genuine me other (me.flight segment) := by
  refine ⟨fun _ => noFin, fun _ _ => ?_, fun _ notSyn => ?_⟩
  · change segment.seq + 1 = me.base
    rw [isSeq, sound.first isFirst]
    rfl
  · exact absurd (isSyn.symm.trans notSyn) (by decide)

theorem EndSound.same (sound : EndSound me other) {socket : TcpSocket} (after : SocketSound socket)
    (same : SameQueue me.socket socket) : EndSound { me with socket := socket } other := by
  have sameAcked : ({ me with socket := socket } : Endpoint).acked = me.acked :=
    congrArg (me.accepted.length - ·) same.txLen
  refine ⟨after, ?_, sound.returned, sound.received.same same.receiver, ?_, ?_, ?_,
    fun connecting => ?_, fun isFirst => ?_, fun isState => ?_, fun isState => ?_⟩
  · rw [same.finQueued, same.finSent]
    exact sound.unfinished
  · rw [same.txLen]
    exact sound.queued
  · rw [sameAcked]
    exact sound.acked
  · rw [same.state]
    exact sound.phase
  · obtain ⟨noSent, noReturned, noData⟩ := sound.fresh (same.state ▸ connecting)
    exact ⟨noSent, noReturned, same.receiver.rxLen.trans noData⟩
  · rw [same.state] at isFirst
    exact same.sndUna.trans (sound.first isFirst)
  · rw [same.state] at isState
    exact same.receiver.rcvNxt.trans (sound.heard isState)
  · rw [same.state, same.receiver.rxLen] at isState
    obtain ⟨sending, receiving⟩ := sound.streams isState
    exact ⟨sending.same same, receiving.same same.receiver⟩

theorem EndSound.close (sound : EndSound me other) {socket : TcpSocket} (after : SocketSound socket)
    (sender : SameSender me.socket socket) (receiver : SameReceiver me.socket socket)
    (isClosed : socket.state = .closed) : EndSound { me with socket := socket } other := by
  have sameAcked : ({ me with socket := socket } : Endpoint).acked = me.acked :=
    congrArg (me.accepted.length - ·) sender.txLen
  have different : ∀ state, state ≠ .closed → socket.state ≠ state := fun _ notClosed same =>
    notClosed (same.symm.trans isClosed)
  refine ⟨after, ?_, sound.returned, sound.received.same receiver, ?_, ?_, .inr (.inr isClosed),
    fun connecting => ?_, fun isFirst => ?_, fun isState => ?_, fun isState => ?_⟩
  · rw [sender.finQueued, sender.finSent]
    exact sound.unfinished
  · rw [sender.txLen]
    exact sound.queued
  · rw [sameAcked]
    exact sound.acked
  · rw [isClosed] at connecting
    cases connecting
  · exact absurd isFirst (not_or.mpr ⟨different _ (by decide), different _ (by decide)⟩)
  · exact absurd isState (different _ (by decide))
  · obtain isOpen | some := isState
    · exact absurd isOpen (different _ (by decide))
    · obtain ⟨sending, receiving⟩ := sound.streams (.inr (fun isNone => some (receiver.rxLen.trans isNone)))
      exact ⟨sending.sender sender, receiving.same receiver⟩

theorem Grows.trans {me'' : Endpoint} (first : Grows me me') (second : Grows me' me'') :
    Grows me me'' :=
  ⟨second.iss.trans first.iss, first.accepted.trans second.accepted,
    Nat.le_trans first.taken second.taken⟩

theorem Grows.same {socket : TcpSocket} (sameLen : socket.rxLen = me.socket.rxLen) :
    Grows me { me with socket := socket } :=
  ⟨rfl, List.prefix_refl _, Nat.le_of_eq (congrArg (me.returned.length + ·) sameLen.symm)⟩

structure Keeps (me other : Endpoint) (done : Endpoint × List TcpSegment) : Prop where
  sound : EndSound done.1 other
  grows : Grows me done.1
  genuine : ∀ segment ∈ done.2, Genuine done.1 other (done.1.flight segment)

theorem EndSound.idle (sound : EndSound me other) : Keeps me other (me, []) :=
  ⟨sound, Grows.same rfl, fun _ member => (nomatch member)⟩

theorem EndSound.send {data : List UInt8} (sound : EndSound me other) :
    Keeps me other (me.send now sends data) := by
  rw [Endpoint.send, TcpSocket.send]
  split
  case isFalse =>
    have same : me.accepted ++ data.take (-1 : Int).toNat = me.accepted := List.append_nil _
    rw [same]
    exact sound.idle
  case isTrue active =>
    have isOpen : me.socket.state = .established := by
      obtain isOpen | isWait := active
      · exact isOpen
      · obtain connecting | isOpen | isClosed := sound.phase
        · rw [isWait] at connecting
          cases connecting
        · exact isOpen
        · exact absurd (isWait.symm.trans isClosed) (by decide)
    dsimp only
    obtain ⟨n, isCount⟩ : ∃ n, min data.length (me.socket.txMax - me.socket.txLen) = n := ⟨_, rfl⟩
    rw [isCount]
    split
    case isTrue isNone =>
      have same : me.accepted ++ data.take (0 : Int).toNat = me.accepted := List.append_nil _
      rw [same]
      exact sound.idle
    case isFalse some =>
      rw [Int.toNat_natCast]
      obtain ⟨bytes, isBytes⟩ : ∃ bytes, data.take n = bytes := ⟨_, rfl⟩
      have fits : bytes.length ≤ me.socket.txMax - me.socket.txLen := by
        rw [← isBytes, List.length_take]
        omega
      rw [isBytes]
      obtain ⟨sending, receiving⟩ := sound.streams (.inl isOpen)
      obtain ⟨queued, receiver, sameState, isLen⟩ := @Sending.txAppend _ _ _ bytes sending
      have after := sound.sound.txAppend active fits
      obtain ⟨s₁, isNext⟩ : ∃ s₁, me.socket.txAppend bytes = s₁ := ⟨_, rfl⟩
      rw [isNext] at queued receiver sameState isLen after ⊢
      have sameAcked : ({ me with socket := s₁, accepted := me.accepted ++ bytes } : Endpoint).acked = me.acked := by
        change (me.accepted ++ bytes).length - s₁.txLen = me.accepted.length - me.socket.txLen
        rw [isLen, List.length_append]
        omega
      have appended : EndSound { me with socket := s₁, accepted := me.accepted ++ bytes } other := by
        refine ⟨after, queued.unfinished, sound.returned, sound.received.same receiver, queued.queued, ?_,
          .inr (.inl (sameState.trans isOpen)), fun connecting => ?_, fun isFirst => ?_,
          fun isState => ?_, fun _ => ⟨queued, receiving.same receiver⟩⟩
        · rw [sameAcked]
          exact sound.acked
        all_goals dsimp only at *
        · rw [sameState, isOpen] at connecting
          cases connecting
        · rw [sameState, isOpen] at isFirst
          exact absurd isFirst (by decide)
        · rw [sameState, isOpen] at isState
          cases isState
      obtain ⟨same, emitted⟩ := @output_emits s₁ now sends queued.unfinished.1
      have sent := appended.same after.output same
      have isNextOpen : (s₁.output now sends).1.state = .established := same.state.trans (sameState.trans isOpen)
      have isNumber : s₁.rcvNxt = other.base + BitVec.ofNat 32 me.taken := receiver.rcvNxt.trans receiving.next
      have sameTaken : me.returned.length + (s₁.output now sends).1.rxLen = me.taken :=
        congrArg (me.returned.length + ·) ((receiver.trans same.receiver).rxLen)
      refine ⟨sent, ⟨rfl, List.prefix_append _ _, Nat.le_of_eq sameTaken.symm⟩, fun segment member => ?_⟩
      refine sent.emits (sent.streams (.inl isNextOpen)) (((emitted segment member).back same).acks isNumber) ?_ ?_
      · exact Nat.le_of_eq sameTaken.symm
      · exact Nat.le_trans (Nat.le_of_eq sameTaken) (Nat.le_add_right _ _)

theorem recv_same (maxLen : Nat) (s : TcpSocket) :
    SameSender s (s.recv maxLen).2.2.1 ∧ (s.recv maxLen).2.2.1.state = s.state ∧
    (s.recv maxLen).2.2.1.rcvNxt = s.rcvNxt ∧
    ∀ answer ∈ (s.recv maxLen).2.2.2, answer = (s.recv maxLen).2.2.1.ackNow ∧ s.rxLen ≠ 0 := by
  rw [TcpSocket.recv]
  split
  · exact ⟨⟨rfl, rfl, rfl, rfl, rfl, rfl, rfl, rfl⟩, rfl, rfl, fun _ member => (by cases member)⟩
  · rename_i some
    dsimp only
    refine ⟨⟨rfl, rfl, rfl, rfl, rfl, rfl, rfl, rfl⟩, rfl, rfl, fun answer member => ?_⟩
    obtain ⟨s₁, isNext⟩ : ∃ s₁ : TcpSocket, { s with
      rx := if (s.rxLen - min s.rxLen maxLen + if s.oooLen = 0 then 0 else (s.oooSeq - s.rcvNxt).toNat + s.oooLen) = 0
        then s.rx else s.rx.slide (min s.rxLen maxLen)
          (s.rxLen - min s.rxLen maxLen + if s.oooLen = 0 then 0 else (s.oooSeq - s.rcvNxt).toNat + s.oooLen)
      rxLen := s.rxLen - min s.rxLen maxLen } = s₁ := ⟨_, rfl⟩
    rw [isNext] at member ⊢
    split at member
    · exact ⟨List.mem_singleton.mp member, some⟩
    · cases member

theorem EndSound.recv {maxLen : Nat} (sound : EndSound me other) :
    Keeps me other (me.recv maxLen) := by
  obtain ⟨part, received, isLength⟩ := @Received.recv _ _ _ maxLen sound.received
  obtain ⟨sender, sameState, sameNext, answers⟩ := recv_same maxLen me.socket
  have after := @SocketSound.recvData _ maxLen sound.sound
  have streams : me.socket.state = .established ∨ me.socket.rxLen ≠ 0 →
      Sending me.base me.accepted (me.socket.recv maxLen).2.2.1 ∧ Receiving other.base other.accepted
        (me.returned.length + (me.socket.recv maxLen).2.1.length) (me.socket.recv maxLen).2.2.1 := by
    intro isState
    obtain ⟨sending, receiving⟩ := sound.streams isState
    exact ⟨sending.sender sender, receiving.recv sound.sound.recv⟩
  rw [Endpoint.recv]
  obtain ⟨got, isGot⟩ : ∃ got, me.socket.recv maxLen = got := ⟨_, rfl⟩
  rw [isGot] at part received isLength sender sameState sameNext answers after streams ⊢
  have isCount : (me.returned ++ got.2.1).length = me.returned.length + got.2.1.length :=
    List.length_append
  have isTaken : ({ me with socket := got.2.2.1, returned := me.returned ++ got.2.1 } :
    Endpoint).taken = me.taken := by
    change (me.returned ++ got.2.1).length + got.2.2.1.rxLen = me.returned.length + me.socket.rxLen
    omega
  have isAcked : ({ me with socket := got.2.2.1, returned := me.returned ++ got.2.1 } :
    Endpoint).acked = me.acked :=
    congrArg (me.accepted.length - ·) sender.txLen
  rw [← isCount] at received streams
  have kept : EndSound { me with socket := got.2.2.1, returned := me.returned ++ got.2.1 }
    other := by
    refine ⟨after, ?_, ?_, received, ?_, ?_, ?_, fun connecting => ?_, fun isFirst => ?_,
      fun isState => ?_, fun isState => ?_⟩
    · rw [sender.finQueued, sender.finSent]
      exact sound.unfinished
    · obtain ⟨rest, isRest⟩ := sound.returned
      rw [← isRest, List.drop_left] at part
      rw [← isRest]
      exact (List.prefix_append_right_inj me.returned).mpr part
    · rw [sender.txLen]
      exact sound.queued
    · rw [isAcked]
      exact sound.acked
    · rw [sameState]
      exact sound.phase
    · obtain ⟨noSent, noReturned, noData⟩ := sound.fresh (sameState ▸ connecting)
      have isNone : got.2.1 = [] := List.length_eq_zero_iff.mp (by omega)
      refine ⟨noSent, ?_, by dsimp only; omega⟩
      rw [noReturned, isNone]
      rfl
    · exact sender.sndUna.trans (sound.first (sameState ▸ isFirst))
    · exact sameNext.trans (sound.heard (sameState ▸ isState))
    · refine streams ?_
      obtain isOpen | some := isState
      · exact .inl (sameState ▸ isOpen)
      · exact .inr (by dsimp only at some; omega)
  refine ⟨kept, ⟨rfl, List.prefix_refl _, Nat.le_of_eq isTaken.symm⟩, fun segment member => ?_⟩
  obtain ⟨isAck, some⟩ := answers segment member
  rw [isAck]
  exact kept.ackNow (streams (.inr some))

variable {s : TcpSocket}

theorem poll_emits (unfinished : s.finQueued = false ∧ s.finSent = false) :
    (s.poll now sends).1.state = .closed ∧ SameSender s (s.poll now sends).1 ∧
        SameReceiver s (s.poll now sends).1 ∧ (s.poll now sends).2 = [] ∨
      SameQueue s (s.poll now sends).1 ∧ ∀ segment ∈ (s.poll now sends).2,
        (s.state = .synSent ∨ s.state = .synReceived) ∧ segment.isSyn = true ∧
            segment.isFin = false ∧ segment.seq = s.sndUna ∨
          TcpSocket.sendsIn s.state = true ∧ Emits s s.rcvNxt segment := by
  rw [TcpSocket.poll]
  split
  · exact .inl ⟨rfl, ⟨rfl, rfl, rfl, rfl, rfl, rfl, rfl, rfl⟩, ⟨rfl, rfl, rfl, rfl, rfl⟩, rfl⟩
  split
  · exact .inr ⟨SameQueue.refl s, fun _ member => (by cases member)⟩
  split
  · exact .inr ⟨⟨⟨rfl, rfl, rfl, rfl, rfl⟩, rfl, rfl, rfl, rfl, rfl, rfl, rfl⟩,
      fun _ member => (by cases member)⟩
  dsimp only
  obtain ⟨limit, isLimit⟩ :
    ∃ limit, (if s.state = .synSent ∨ s.state = .synReceived then 5 else 8) = limit := ⟨_, rfl⟩
  rw [isLimit]
  split
  · exact .inl ⟨rfl, ⟨rfl, rfl, rfl, rfl, rfl, rfl, rfl, rfl⟩, ⟨rfl, rfl, rfl, rfl, rfl⟩, rfl⟩
  split
  · rename_i isReceived
    refine .inr ⟨⟨⟨rfl, rfl, rfl, rfl, rfl⟩, rfl, rfl, rfl, rfl, rfl, rfl, rfl⟩,
      fun segment member => .inl ?_⟩
    rw [List.mem_singleton.mp member]
    exact ⟨.inr isReceived, rfl, rfl, rfl⟩
  split
  · rename_i isSent
    refine .inr ⟨⟨⟨rfl, rfl, rfl, rfl, rfl⟩, rfl, rfl, rfl, rfl, rfl, rfl, rfl⟩,
      fun segment member => .inl ?_⟩
    rw [List.mem_singleton.mp member]
    exact ⟨.inl isSent, rfl, rfl, rfl⟩
  obtain ⟨slow, isSlow⟩ : ∃ slow : TcpSocket, { s with
    rtxCount := (s.rtxCount + 1) % 256, rto := min 16000 (s.rto * 2), rtxAt := 0
    ssthresh := s.lossThreshold (s.sndMax - s.sndUna).toNat, cwnd := s.mss } = slow := ⟨_, rfl⟩
  have slowed : SameQueue s slow := by
    rw [← isSlow]
    exact ⟨⟨rfl, rfl, rfl, rfl, rfl⟩, rfl, rfl, rfl, rfl, rfl, rfl, rfl⟩
  have rewound := slowed.trans (rewind_same (slowed.finSent.trans unfinished.2))
  obtain ⟨same, emitted⟩ :=
    @output_emits slow.rewind now sends (rewound.finQueued.trans unfinished.1)
  have active : ∀ segment ∈ (slow.rewind.output now sends).2, TcpSocket.sendsIn s.state = true := by
    intro segment member
    by_contra silent
    rw [← rewound.state] at silent
    rw [TcpSocket.output, if_neg silent] at member
    cases member
  refine .inr ⟨?_, fun segment member => .inr ?_⟩
  · have sent := rewound.trans same
    rw [← isSlow] at sent
    split
    · exact ⟨⟨sent.receiver.rx, sent.receiver.rxLen, sent.receiver.rcvNxt, sent.receiver.oooSeq, sent.receiver.oooLen⟩,
        sent.state, sent.tx, sent.txOff, sent.txLen, sent.sndUna, sent.finQueued, sent.finSent⟩
    · exact sent
  · subst isSlow
    exact ⟨active segment member,
      ((emitted segment member).same rewound).acks rewound.receiver.rcvNxt⟩

theorem EndSound.poll (sound : EndSound me other) : Keeps me other (me.poll now sends) := by
  have after := @SocketSound.poll _ now sends sound.sound
  rw [Endpoint.poll]
  obtain ⟨isClosed, sender, receiver, silent⟩ | ⟨same, emitted⟩ :=
    @poll_emits now sends me.socket sound.unfinished
  · refine ⟨sound.close after sender receiver isClosed, Grows.same receiver.rxLen,
      fun segment member => ?_⟩
    rw [silent] at member
    cases member
  · have kept := sound.same after same
    refine ⟨kept, Grows.same same.receiver.rxLen, fun segment member => ?_⟩
    obtain ⟨isFirst, isSyn, noFin, isSeq⟩ | ⟨active, emits⟩ := emitted segment member
    · exact kept.syn (same.state ▸ isFirst) isSyn noFin (isSeq.trans same.sndUna.symm)
    · have isOpen : me.socket.state = .established := by
        obtain connecting | isOpen | isClosed := sound.phase
        · cases isState : me.socket.state <;> rw [isState] at connecting active <;> cases connecting <;> cases active
        · exact isOpen
        · rw [isClosed] at active
          cases active
      have isNext : me.socket.rcvNxt = other.base + BitVec.ofNat 32 me.taken := (sound.streams (.inl isOpen)).2.next
      have sameTaken : me.returned.length + (me.socket.poll now sends).1.rxLen = me.taken :=
        congrArg (me.returned.length + ·) same.receiver.rxLen
      refine kept.emits (kept.streams (.inl (same.state.trans isOpen))) ((emits.back same).acks isNext) ?_ ?_
      · exact Nat.le_of_eq sameTaken.symm
      · exact Nat.le_trans (Nat.le_of_eq sameTaken) (Nat.le_add_right _ _)

theorem Genuine.missesHole (genuine : Genuine me other flight) :
    s.finMeetsHole flight.segment = false := by
  cases isRst : flight.segment.isRst with
  | true => simp [TcpSocket.finMeetsHole, isRst]
  | false => simp [TcpSocket.finMeetsHole, genuine.fin isRst]

/-- Less than `2 ^ 31` bytes have come behind the places of the segment. -/
def Near (me other : Endpoint) (flight : Flight) : Prop :=
  other.accepted.length - flight.seqAt < 2 ^ 31 ∧ me.accepted.length - flight.ackAt < 2 ^ 31

theorem EndSound.exchange (sound : EndSound me other) (back : EndSound other me)
    (genuine : Genuine other me flight) (near : Near me other flight)
    (isOpen : me.socket.state = .established) (notRst : flight.segment.isRst = false)
    (notSyn : flight.segment.isSyn = false) {acked taken : TcpSocket × List TcpSegment} {win : Nat}
    {pure : Bool} (isAcked : me.socket.processAck now sends flight.segment.ack win pure = acked)
    (isTaken : acked.1.inputData now flight.segment = taken) (after : SocketSound taken.1) :
    Keeps me other ({ me with socket := taken.1 }, acked.2 ++ taken.2) := by
  obtain ⟨sending, receiving⟩ := sound.streams (.inl isOpen)
  obtain ⟨isSeq, isAck, inTaken, part⟩ := genuine.plain notRst notSyn
  obtain ⟨theirQueue, -⟩ := back.sizes
  have theirBound := back.received.bound
  have theirAcked := back.acked
  have theirTaken : other.taken = other.returned.length + other.socket.rxLen := rfl
  have theirStart : other.acked = other.accepted.length - other.socket.txLen := rfl
  have myTaken : me.taken = me.returned.length + me.socket.rxLen := rfl
  obtain ⟨cut, receiver, sameState, moved, emitted⟩ :=
    @Sending.processAck _ _ _ now sends _ flight.ackAt win pure sending
    sound.sound.send isAck (by omega) near.2
  have ackSound := @SocketSound.processAck _ now sends flight.segment.ack win pure sound.sound
    (by simp [Synchronized, isOpen])
  rw [isAcked] at cut receiver sameState moved emitted ackSound
  obtain ⟨got, sender, stillOpen, grown, answers⟩ :=
    @Receiving.inputData _ _ _ now _ _ flight.seqAt (receiving.same receiver)
    ackSound.1.recv (genuine.fin notRst) isSeq part near.1 (by rw [receiver.rxLen]; omega)
  rw [isTaken] at got sender stillOpen grown answers
  have isEstablished : taken.1.state = .established := stillOpen.trans (sameState.trans isOpen)
  rw [receiver.rxLen] at grown
  have kept : EndSound { me with socket := taken.1 } other := by
    refine ⟨after, (cut.sender sender).unfinished, sound.returned, got.toReceived,
      (cut.sender sender).queued, ?_, .inr (.inl isEstablished), fun connecting => ?_,
      fun isFirst => ?_, fun isState => ?_, fun _ => ⟨cut.sender sender, got⟩⟩
    · change me.accepted.length - taken.1.txLen ≤ other.taken
      have mine : me.accepted.length - me.socket.txLen ≤ other.taken := sound.acked
      rw [sender.txLen]
      omega
    all_goals dsimp only at *
    · rw [isEstablished] at connecting
      cases connecting
    · rw [isEstablished] at isFirst
      exact absurd isFirst (by decide)
    · rw [isEstablished] at isState
      cases isState
  have streams := kept.streams (.inl isEstablished)
  refine ⟨kept, ⟨rfl, List.prefix_refl _, Nat.add_le_add_left grown _⟩, fun segment member => ?_⟩
  obtain early | late := List.mem_append.mp member
  · have emits := ((emitted segment early).sender sender).acks receiving.next
    refine kept.emits streams emits (Nat.add_le_add_left grown _) ?_
    change me.returned.length + taken.1.rxLen ≤ me.returned.length + me.socket.rxLen + 65535
    have := kept.sizes.2
    dsimp only at this
    omega
  · rw [answers segment late]
    exact kept.ackNow streams

theorem EndSound.inputOpen (sound : EndSound me other) (back : EndSound other me)
    (genuine : Genuine other me flight) (near : Near me other flight)
    (isOpen : me.socket.state = .established) :
      Keeps me other ({ me with socket := (me.socket.inputOpen now sends flight.segment).1 },
      (me.socket.inputOpen now sends flight.segment).2) := by
  have past : Synchronized me.socket := by simp [Synchronized, isOpen]
  have after := @SocketSound.inputOpen _ now sends _ sound.sound past genuine.missesHole
  rw [TcpSocket.inputOpen] at after ⊢
  rw [if_neg (by simp [isOpen])] at after ⊢
  split
  case isTrue isRst =>
    rw [if_pos isRst] at after
    dsimp only at after ⊢
    split
    · rename_i inside
      rw [if_pos inside] at after
      exact ⟨sound.close after ⟨rfl, rfl, rfl, rfl, rfl, rfl, rfl, rfl⟩ ⟨rfl, rfl, rfl, rfl,
        rfl⟩ rfl, Grows.same rfl, fun _ member => (by cases member)⟩
    · exact sound.idle
  case isFalse notRst =>
    rw [if_neg notRst] at after
    split
    case isTrue =>
      refine ⟨sound, Grows.same rfl, fun segment member => ?_⟩
      split at member
      · rw [List.mem_singleton.mp member]
        exact sound.ackNow (sound.streams (.inl isOpen))
      · cases member
    case isFalse notSyn =>
      rw [if_neg notSyn] at after
      split
      case isTrue => exact sound.idle
      case isFalse isAck =>
        rw [if_neg isAck] at after
        obtain ⟨acked, isAcked⟩ : ∃ acked, me.socket.processAck now sends flight.segment.ack flight.segment.window
          (decide (flight.segment.data = [] ∧ flight.segment.isFin = false)) = acked := ⟨_, rfl⟩
        have ackState : acked.1.state = .established := by
          obtain ⟨isSeq, isAt, inTaken, part⟩ := genuine.plain (Bool.not_eq_true _ ▸ notRst) (Bool.not_eq_true _ ▸ notSyn)
          have theirBound := back.received.bound
          have theirTaken : other.taken = other.returned.length + other.socket.rxLen := rfl
          have acks := @Sending.processAck _ _ _ now sends _ flight.ackAt flight.segment.window
            (decide (flight.segment.data = [] ∧ flight.segment.isFin = false))
            (sound.streams (.inl isOpen)).1 sound.sound.send isAt (by omega) near.2
          rw [isAcked] at acks
          exact acks.2.2.1.trans isOpen
        rw [isAcked, if_neg (by rw [ackState]; decide)] at after ⊢
        exact sound.exchange back genuine near isOpen (Bool.not_eq_true _ ▸ notRst)
          (Bool.not_eq_true _ ▸ notSyn) isAcked rfl after

theorem EndSound.opened (sound : EndSound me other) (connecting : Connecting me.socket.state)
    {socket : TcpSocket} (after : SocketSound socket) (isOpen : socket.state = .established)
    (unfinished : socket.finQueued = false ∧ socket.finSent = false) (isEmpty : socket.txLen = 0)
    (nothing : socket.rxLen = 0 ∧ socket.oooLen = 0) (isUna : socket.sndUna = me.base)
    (isNext : socket.rcvNxt = other.base) : EndSound { me with socket := socket } other := by
  obtain ⟨noSent, noReturned, -⟩ := sound.fresh connecting
  have received : Received other.accepted me.returned.length socket := by
    rw [noReturned]
    refine ⟨?_, ?_⟩
    · rw [nothing.1]
      exact Nat.zero_le _
    · rw [nothing.1]
      exact fun _ before => absurd before (Nat.not_lt_zero _)
  have streams : Sending me.base me.accepted socket ∧
    Receiving other.base other.accepted me.returned.length socket := by
    refine ⟨⟨unfinished, ?_, ?_, ?_⟩, received, ?_, fun some => absurd nothing.2 some⟩
    · rw [isEmpty]
      exact Nat.zero_le _
    · rw [noSent, isEmpty, isUna]
      exact (BitVec.add_zero _).symm
    · rw [isEmpty]
      exact fun _ before => absurd before (Nat.not_lt_zero _)
    · rw [noReturned, nothing.1, isNext]
      exact (BitVec.add_zero _).symm
  refine ⟨after, unfinished, sound.returned, received, ?_, ?_, .inr (.inl isOpen), fun still => ?_,
    fun isFirst => ?_, fun isState => ?_, fun _ => streams⟩
  · exact Nat.le_trans (Nat.le_of_eq isEmpty) (Nat.zero_le _)
  · rw [noSent]
    exact Nat.le_trans (Nat.sub_le _ _) (Nat.zero_le _)
  all_goals dsimp only at *
  · rw [isOpen] at still
    cases still
  · rw [isOpen] at isFirst
    exact absurd isFirst (by decide)
  · rw [isOpen] at isState
    cases isState

theorem EndSound.synReceived (sound : EndSound me other) (back : EndSound other me)
    (genuine : Genuine other me flight) (near : Near me other flight)
    (isState : me.socket.state = .synReceived) :
      Keeps me other ({ me with socket := (me.socket.input now sends flight.segment).1 },
      (me.socket.input now sends flight.segment).2) := by
  have connecting : Connecting me.socket.state := isState ▸ Connecting.synReceived
  obtain ⟨-, -, noData⟩ := sound.fresh connecting
  obtain ⟨isEmpty, noHole, -⟩ := sound.sound.phase.opening (.inr isState)
  rw [TcpSocket.input, if_neg (by simp [isState]), if_pos isState]
  split
  · dsimp only
    split
    · have closed := @SocketSound.closed me.socket { me.socket with state := .closed, resetSeen := true, rtxAt := 0 }
        sound.sound ⟨rfl, rfl, rfl, rfl, rfl, rfl, rfl, rfl⟩ ⟨rfl, rfl, rfl, rfl, rfl⟩ rfl
      exact ⟨sound.close closed ⟨rfl, rfl, rfl, rfl, rfl, rfl, rfl, rfl⟩ ⟨rfl, rfl, rfl, rfl,
        rfl⟩ rfl, Grows.same rfl, fun _ member => (by cases member)⟩
    · exact sound.idle
  · split
    · refine ⟨sound, Grows.same rfl, fun segment member => ?_⟩
      split at member
      · rw [List.mem_singleton.mp member]
        exact sound.syn (.inr isState) rfl rfl rfl
      · cases member
    · split
      · rename_i acks
        have isUna : flight.segment.ack = me.base := by
          rw [acks.2, sound.first (.inr isState)]
          rfl
        obtain ⟨socket, isSocket⟩ : ∃ socket : TcpSocket, { me.socket with
          sndUna := flight.segment.ack, sndNxt := flight.segment.ack, peerWnd := flight.segment.window, rtxCount := 0, rtxAt := 0
          state := .established } = socket := ⟨_, rfl⟩
        have after : SocketSound socket := by
          rw [← isSocket]
          exact sound.sound.open (.inr isState) ⟨rfl, rfl, rfl, rfl, rfl, rfl, rfl⟩ acks.2 ⟨rfl, rfl, rfl⟩ rfl
        have isOpen : EndSound { me with socket := socket } other := by
          refine sound.opened connecting after ?_ ?_ ?_ ?_ ?_ ?_ <;> subst isSocket
          · rfl
          · exact sound.unfinished
          · exact isEmpty
          · exact ⟨noData, noHole⟩
          · exact isUna
          · exact sound.heard isState
        have begun : Grows me { me with socket := socket } := Grows.same (by rw [← isSocket])
        rw [isSocket]
        have kept := @EndSound.inputOpen _ _ flight now sends isOpen (back.grows begun)
          (genuine.toOther begun) near (by subst isSocket; rfl)
        exact ⟨kept.sound, begun.trans kept.grows, kept.genuine⟩
      · exact sound.idle

theorem EndSound.synSent (sound : EndSound me other) (genuine : Genuine other me flight)
    (isState : me.socket.state = .synSent) :
    Keeps me other ({ me with socket := (me.socket.inputSynSent now flight.segment).1 },
      (me.socket.inputSynSent now flight.segment).2) := by
  have connecting : Connecting me.socket.state := isState ▸ Connecting.synSent
  obtain ⟨-, -, noData⟩ := sound.fresh connecting
  obtain ⟨isEmpty, noHole, -⟩ := sound.sound.phase.opening (.inl isState)
  have after := @SocketSound.inputSynSent _ now flight.segment sound.sound isState
  rw [TcpSocket.inputSynSent] at after ⊢
  dsimp only at after ⊢
  split
  · refine ⟨sound, Grows.same rfl, fun segment member => ?_⟩
    split at member
    · cases member
    · rw [List.mem_singleton.mp member]
      exact ⟨fun notRst => (by cases notRst), fun notRst => (by cases notRst), fun notRst => (by cases notRst)⟩
  · rename_i acks
    rw [if_neg acks] at after
    split
    · rename_i isRst
      rw [if_pos isRst] at after
      split
      · rename_i inside
        rw [if_pos inside] at after
        exact ⟨sound.close after ⟨rfl, rfl, rfl, rfl, rfl, rfl, rfl, rfl⟩ ⟨rfl, rfl, rfl, rfl,
          rfl⟩ rfl, Grows.same rfl, fun _ member => (by cases member)⟩
      · exact sound.idle
    · rename_i notRst
      rw [if_neg notRst] at after
      split
      · rename_i isSyn
        rw [if_pos isSyn] at after
        obtain ⟨socket, isSocket⟩ : ∃ socket, (me.socket.inputSynSent now flight.segment).1 = socket := ⟨_, rfl⟩
        rw [TcpSocket.inputSynSent] at isSocket
        rw [if_neg acks, if_neg notRst, if_pos isSyn] at isSocket
        dsimp only at isSocket after
        have isUna : flight.segment.ack = me.base := by
          rw [of_decide_eq_true (Bool.and_eq_true_iff.mp isSyn.2).2, sound.first (.inl isState)]
          rfl
        have isNext := genuine.syn (Bool.not_eq_true _ ▸ notRst) isSyn.1
        rw [isSocket] at after ⊢
        have isEstablished : socket.state = .established := by
          rw [← isSocket]
        have isOpen : EndSound { me with socket := socket } other := by
          refine sound.opened connecting after isEstablished ?_ ?_ ?_ ?_ ?_
          all_goals
            rw [← isSocket]
            split
          · exact sound.unfinished
          · exact sound.unfinished
          · exact isEmpty
          · exact isEmpty
          · exact ⟨noData, noHole⟩
          · exact ⟨noData, noHole⟩
          · exact isUna
          · exact isUna
          · exact isNext
          · exact isNext
        have sameLen : socket.rxLen = me.socket.rxLen := by
          rw [← isSocket]
          split <;> rfl
        refine ⟨isOpen, Grows.same sameLen, fun segment member => ?_⟩
        rw [List.mem_singleton.mp member]
        exact isOpen.ackNow (isOpen.streams (.inl isEstablished))
      · exact sound.idle

theorem EndSound.listen (sound : EndSound me other) (genuine : Genuine other me flight)
    {rxCell txCell : Nat → UInt8} (isState : me.socket.state = .listen) :
    Keeps me other ({ me with socket := (me.listen now rxCell txCell flight.segment).1 },
      (me.listen now rxCell txCell flight.segment).2) := by
  obtain ⟨noSent, noReturned, -⟩ := sound.fresh (isState ▸ Connecting.listen)
  rw [Endpoint.listen]
  split
  · rename_i isSyn
    have after := @child_sound now flight.segment rxCell txCell 0 me.iss
    have kept : EndSound
      { me with socket := TcpSocket.child 0 rxCell txCell me.iss now flight.segment } other := by
      refine ⟨after, ⟨rfl, rfl⟩, sound.returned, ⟨?_, fun _ before => absurd before (Nat.not_lt_zero _)⟩, Nat.zero_le _, ?_,
        .inl .synReceived, fun _ => ⟨noSent, noReturned, rfl⟩, fun _ => rfl, fun _ => ?_, fun isOpen => ?_⟩
      · exact sound.returned.length_le
      · rw [noSent]
        exact Nat.zero_le _
      · exact genuine.syn isSyn.2.2 isSyn.1
      · obtain same | some := isOpen
        · cases same
        · exact absurd rfl some
    refine ⟨kept, ⟨rfl, List.prefix_refl _, ?_⟩, fun segment member => ?_⟩
    · change me.returned.length + me.socket.rxLen ≤ me.returned.length + 0
      have := (sound.fresh (isState ▸ Connecting.listen)).2.2
      omega
    · rw [List.mem_singleton.mp member]
      exact kept.syn (.inr rfl) rfl rfl rfl
  · refine ⟨sound, Grows.same rfl, fun segment member => ?_⟩
    have isRst : segment.isRst = true := by
      split at member
      · cases member
      · split at member <;>
        · rw [List.mem_singleton.mp member]
          rfl
    exact ⟨fun notRst => absurd (isRst.symm.trans notRst) (by decide),
      fun notRst => absurd (isRst.symm.trans notRst) (by decide), fun notRst =>
      absurd (isRst.symm.trans notRst) (by decide)⟩

theorem EndSound.arrive (sound : EndSound me other) (back : EndSound other me)
    (genuine : Genuine other me flight) (near : Near me other flight)
    {rxCell txCell : Nat → UInt8} :
    Keeps me other (me.arrive now sends rxCell txCell flight.segment) := by
  rw [Endpoint.arrive]
  obtain connecting | isOpen | isClosed := sound.phase
  · cases isState : me.socket.state <;> rw [isState] at connecting <;> cases connecting
    · exact sound.listen genuine isState
    · rw [if_neg (by decide), TcpSocket.input, if_pos isState]
      exact sound.synSent genuine isState
    · exact sound.synReceived back genuine near isState
  · rw [if_neg (by simp [isOpen]), TcpSocket.input, if_neg (by simp [isOpen]),
      if_neg (by simp [isOpen])]
    exact sound.inputOpen back genuine near isOpen
  · rw [if_neg (by simp [isClosed]), TcpSocket.input, if_neg (by simp [isClosed]),
      if_neg (by simp [isClosed]), TcpSocket.inputOpen, if_pos isClosed]
    exact sound.idle

theorem ConnectionSound.keeps (sound : ConnectionSound c) {done : Endpoint × List TcpSegment}
    (keeps : Keeps (c.ends side) (c.ends side.other) done) : ConnectionSound (c.put side done) :=
  sound.put keeps.sound keeps.grows keeps.genuine

theorem ConnectionSound.step (sound : ConnectionSound c) {call : StreamCall}
    (allowed : streamAllowed c call) : ConnectionSound (streamStep c call) := by
  cases call with
  | send side now sends data => exact sound.keeps (sound.each side).send
  | recv side maxLen => exact sound.keeps (sound.each side).recv
  | poll side now sends => exact sound.keeps (sound.each side).poll
  | deliver side index now sends rxCell txCell =>
      rw [streamStep]
      cases found : (c.carried side.other)[index]? with
      | none => exact sound
      | some flight =>
          have back := sound.each side.other
          have genuine := sound.genuine side.other flight (List.mem_of_getElem? found)
          rw [Side.other_other] at back genuine
          exact sound.keeps ((sound.each side).arrive back genuine (allowed flight found))

theorem blank_sound {iss : Seq} (sound : SocketSound s)
    (unfinished : s.finQueued = false ∧ s.finSent = false) (noData : s.rxLen = 0)
    (isEmpty : s.txLen = 0)
    (phase : s.state = .listen ∨ s.state = .closed ∨ s.state = .synSent ∧ s.sndUna = iss) :
    EndSound ⟨s, iss, [], []⟩ other := by
  refine ⟨sound, unfinished, List.nil_prefix, ⟨?_, ?_⟩, Nat.le_of_eq isEmpty,
    Nat.le_trans (Nat.sub_le _ _) (Nat.zero_le _), ?_, fun _ => ⟨rfl, rfl, noData⟩, fun isFirst =>
    ?_, fun isState => ?_, fun isOpen => ?_⟩
  all_goals dsimp only at *
  · rw [noData]
    exact Nat.zero_le _
  · rw [noData]
    exact fun _ before => absurd before (Nat.not_lt_zero _)
  · obtain isState | isState | ⟨isState, -⟩ := phase <;> rw [isState]
    · exact .inl .listen
    · exact .inr (.inr rfl)
    · exact .inl .synSent
  · obtain isState | isState | ⟨-, isFirst⟩ := phase
    · exact absurd isFirst (by simp [isState])
    · exact absurd isFirst (by simp [isState])
    · exact isFirst
  · exact absurd phase (by simp [isState])
  · obtain isOpen | some := isOpen
    · exact absurd phase (by simp [isOpen])
    · exact absurd noData some

theorem firstSyn_blank {retryAt : Nat} : (s.firstSyn now sends retryAt).1.finQueued = s.finQueued ∧
    (s.firstSyn now sends retryAt).1.finSent = s.finSent ∧
    (s.firstSyn now sends retryAt).1.rxLen = s.rxLen ∧
    (s.firstSyn now sends retryAt).1.txLen = s.txLen ∧
    (s.firstSyn now sends retryAt).1.state = s.state ∧
      (s.firstSyn now sends retryAt).1.sndUna = s.sndUna ∧
      ∀ segment ∈ (s.firstSyn now sends retryAt).2, segment.isSyn = true ∧ segment.isFin = false ∧
      segment.seq = s.sndUna := by
  rw [TcpSocket.firstSyn]
  split
  · exact ⟨rfl, rfl, rfl, rfl, rfl, rfl, fun _ member => (by cases member)⟩
  · refine ⟨rfl, rfl, rfl, rfl, rfl, rfl, fun segment member => ?_⟩
    rw [List.mem_singleton.mp member]
    exact ⟨rfl, rfl, rfl⟩

theorem start_sound (clientRx clientTx serverRx serverTx : Nat → UInt8) (peer : TcpPeer)
    (port localPort : Nat) (clientIss serverIss : Seq) (now sends retryAt : Nat) :
    ConnectionSound (.start clientRx clientTx serverRx serverTx peer port localPort clientIss serverIss now sends retryAt) := by
  have connected := (alloc_sound clientRx clientTx).connect peer port localPort clientIss
  have opened := @SocketSound.firstSyn _ now sends retryAt connected
  obtain ⟨sameQueued, sameFin, sameRx, sameTx, sameState, sameUna, syns⟩ :=
    @firstSyn_blank now sends
    ((TcpSocket.alloc clientRx clientTx).connect peer port localPort clientIss) retryAt
  have bound := @SocketSound.same
    _ { TcpSocket.alloc serverRx serverTx with localPort := port, bound := true }
    (alloc_sound serverRx serverTx) ⟨rfl, rfl, rfl, rfl, rfl, rfl, rfl, rfl⟩
      ⟨rfl, rfl, rfl, rfl, rfl⟩ rfl
  rw [Connection.start]
  obtain ⟨first, isFirst⟩ :
    ∃ first, ((TcpSocket.alloc clientRx clientTx).connect peer port localPort clientIss).firstSyn
    now sends retryAt = first := ⟨_, rfl⟩
  rw [isFirst] at opened sameQueued sameFin sameRx sameTx sameState sameUna syns ⊢
  have client : ∀ other, EndSound ⟨first.1, clientIss, [], []⟩ other := fun _ =>
    blank_sound opened ⟨sameQueued, sameFin⟩ sameRx sameTx (.inr (.inr ⟨sameState, sameUna⟩))
  have server : ∀ other, EndSound ⟨TcpSocket.listen 1 { TcpSocket.alloc serverRx serverTx with
      localPort := port, bound := true }, serverIss, [], []⟩ other := by
    intro other
    refine blank_sound (bound.listen 1) ?_ ?_ ?_ ?_ <;> rw [TcpSocket.listen] <;> split
    · exact ⟨rfl, rfl⟩
    · exact ⟨rfl, rfl⟩
    · rfl
    · rfl
    · rfl
    · rfl
    · exact .inl rfl
    · exact .inr (.inl rfl)
  refine ⟨fun side => ?_, fun side flight member => ?_⟩
  · cases side
    · exact client _
    · exact server _
  · cases side
    · obtain ⟨segment, isSent, rfl⟩ := List.mem_map.mp member
      obtain ⟨isSyn, noFin, isSeq⟩ := syns segment isSent
      exact (client _).syn (.inl sameState) isSyn noFin (isSeq.trans sameUna.symm)
    · cases member

/-- Whatever the network loses, repeats, delays and reorders, an end returns a prefix of what the
other end was given. -/
theorem stream_is_prefix {clientRx clientTx serverRx serverTx : Nat → UInt8} {peer : TcpPeer}
    {port localPort : Nat} {clientIss serverIss : Seq} {now sends retryAt : Nat} {c : Connection}
    (reached : Reaches streamStep streamAllowed
      (.start clientRx clientTx serverRx serverTx peer port localPort clientIss serverIss now sends retryAt) c) (side : Side) :
    (c.ends side).returned <+: (c.ends side.other).accepted := by
  have sound := reached.invariant (start_sound _ _ _ _ _ _ _ _ _ _ _ _) fun _ _ sound allowed =>
    sound.step allowed
  exact (sound.each side).returned

instance (c : Connection) : ∀ call, Decidable (streamAllowed c call)
  | .deliver side index _ _ _ _ =>
      match found : (c.carried side.other)[index]? with
      | none => isTrue fun _ member => absurd (found.symm.trans member) (by simp)
      | some flight =>
          decidable_of_iff ((c.ends side.other).accepted.length - flight.seqAt < 2 ^ 31 ∧
              (c.ends side).accepted.length - flight.ackAt < 2 ^ 31) <| by
            rw [streamAllowed, found]
            simp
  | .send .. | .recv .. | .poll .. => isTrue trivial

/-- A connection over numbers that wrap: the second of two segments comes first. -/
def wrappingStart : Connection :=
  .start (fun _ => 0) (fun _ => 0) (fun _ => 0) (fun _ => 0) ⟨false, 9⟩ 80 49152 0xfffffffe 7 5 1 0

def reorderedCalls : List StreamCall :=
  [.deliver .server 0 6 1 (fun _ => 0) (fun _ => 0),
    .deliver .client 0 7 1 (fun _ => 0) (fun _ => 0),
    .deliver .server 1 8 1 (fun _ => 0) (fun _ => 0), .send .client 9 1 [1, 2],
    .send .client 9 1 [3], .deliver .server 3 10 1 (fun _ => 0) (fun _ => 0),
    .deliver .server 2 11 1 (fun _ => 0) (fun _ => 0),
    .deliver .server 3 12 1 (fun _ => 0) (fun _ => 0), .recv .server 8]

theorem stream_is_prefix_reordered :
    ((runSteps streamStep wrappingStart reorderedCalls).ends .server).returned = [1, 2, 3] ∧
      ((runSteps streamStep wrappingStart reorderedCalls).ends .server).returned <+:
        ((runSteps streamStep wrappingStart reorderedCalls).ends .client).accepted :=
  ⟨by decide, stream_is_prefix (Reaches.refl.runSteps (by decide)) .server⟩

end Cos.Net
