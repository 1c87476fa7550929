import Cos.Net.Tcp

/-! # The TCP stack

The sockets of the registry, the calls on them, and the segments and timer ticks that come to them. 
A call that waits is several steps: `connect` is its start and its end, `send` and `close` look
again and again.
-/

namespace Cos.Net

open Cos.Lib

namespace TcpSocket

def alloc (rxCell txCell : Nat → UInt8) : TcpSocket where
  localPort := 0
  remotePort := 0
  peer := ⟨false, 0⟩
  state := .closed
  sndUna := 0
  sndNxt := 0
  sndMax := 0
  rcvNxt := 0
  txSent := 0
  peerWnd := 0
  peerMss := 0
  cwnd := 0
  ssthresh := 0
  rto := 0
  srtt := 0
  rttvar := 0
  rtxAt := 0
  rtxCount := 0
  dupAcks := 0
  finQueued := false
  finSent := false
  resetSeen := false
  rttSeq := 0
  rttStart := 0
  timeWaitUntil := 0
  oooSeq := 0
  oooLen := 0
  parent := none
  backlog := 0
  unaccepted := false
  bound := false
  detached := false
  detachDeadline := 0
  rx := ⟨rxCell, tcpWindowSize, false⟩
  rxLen := 0
  tx := ⟨txCell, tcpWindowSize, false⟩
  txOff := 0
  txLen := 0

/-- The state that `tcp_connect_common` and `tcp_connect_start_common` set up. -/
def connect (peer : TcpPeer) (port localPort : Nat) (iss : Seq) (s : TcpSocket) : TcpSocket :=
  { s with
    peer := peer, remotePort := port, localPort := localPort
    sndUna := iss, sndMax := iss + 1, sndNxt := iss + 1, rcvNxt := 0
    txLen := 0, txSent := 0, rxLen := 0, txOff := 0, oooLen := 0
    finQueued := false, finSent := false, resetSeen := false
    rto := 1000, srtt := 0, rttvar := 0, peerMss := 536, peerWnd := 65535
    cwnd := 4 * tcpMssMax, ssthresh := 65535, rtxCount := 0, dupAcks := 0, rtxAt := 0, rttStart := 0
    state := .synSent }

/-- The first SYN; the network refuses it while it does not know where it goes, and `retryAt` is
when it is tried again. -/
def firstSyn (now sends retryAt : Nat) (s : TcpSocket) : TcpSocket × List TcpSegment :=
  if sends = 0 then ({ s with rtxAt := retryAt }, [])
  else ({ s with rttStart := now, rttSeq := s.sndUna + 1, rtxAt := now + s.rto },
    [s.xmit true false false s.sndUna []])

/-- A try of the loop of `tcp_connect_common`. -/
def connectTry (now sends : Nat) (s : TcpSocket) : TcpSocket × List TcpSegment :=
  if s.state = .established ∨ s.state = .closed ∨ sends = 0 then (s, []) else s.firstSyn now sends 0

/-- The end of `tcp_connect_common`. -/
def connectEnd (s : TcpSocket) : TcpSocket :=
  if s.state = .established then s else { s with state := .closed, rtxAt := 0 }

def child (listener : Nat) (rxCell txCell : Nat → UInt8) (iss : Seq) (now : Nat)
    (segment : TcpSegment) : TcpSocket :=
  let s := parseMss segment.options { alloc rxCell txCell with
    peer := segment.peer, localPort := segment.dstPort, remotePort := segment.srcPort
    parent := some listener, unaccepted := true
    rcvNxt := segment.seq + 1, sndUna := iss, sndNxt := iss + 1, sndMax := iss + 1
    peerWnd := segment.window, peerMss := 536 }
  { s with rto := 1000, cwnd := 4 * tcpMssMax, ssthresh := 65535, state := .synReceived, rtxAt := now + 1000 }

def listen (backlog : Int) (s : TcpSocket) : TcpSocket :=
  if s.localPort ≠ 0 ∧ s.state = .closed then
    { s with backlog := (max 1 (min 8 backlog)).toNat, state := .listen }
  else s

/-- `tcp_socket_send_nb`, and a try of `tcp_socket_send`. -/
def send (now sends : Nat) (data : List UInt8) (s : TcpSocket) :
    Int × TcpSocket × List TcpSegment :=
  if s.state = .established ∨ s.state = .closeWait then
    let n := min data.length (s.txMax - s.txLen)
    if n = 0 then (0, s, [])
    else
      let sent := (s.txAppend (data.take n)).output now sends
      (n, sent.1, sent.2)
  else (-1, s, [])

def recv (maxLen : Nat) (s : TcpSocket) : Int × List UInt8 × TcpSocket × List TcpSegment :=
  if s.rxLen = 0 then
    (if s.state = .established ∨ s.state = .synSent ∨ s.state = .synReceived then 0 else -1, [], s,
      [])
  else
    let before := s.rxLen
    let count := min s.rxLen maxLen
    let data := s.rx.read 0 count
    let tail := s.rxLen - count + if s.oooLen = 0 then 0 else (s.oooSeq - s.rcvNxt).toNat + s.oooLen
    let s := { s with rx := if tail = 0 then s.rx else s.rx.slide count tail, rxLen := s.rxLen - count }
    (count, data, s, if s.rxMax - before < 2 * tcpMssMax then [s.ackNow] else [])

/-- The FIN is queued behind the data: `tcp_socket_shutdown_wr`, the first part of
`tcp_socket_close` and an open connection in `tcp_socket_abandon`. -/
def shutdownWr (now sends : Nat) (s : TcpSocket) : TcpSocket × List TcpSegment :=
  if s.state = .established ∨ s.state = .closeWait then
    output now sends { s with state := if s.state = .established then .finWait1 else .lastAck, finQueued := true }
  else (s, [])

/-- The end of `tcp_socket_close`. -/
def closeEnd (s : TcpSocket) : TcpSocket := { s with state := .closed, rtxAt := 0 }

/-- `tcp_socket_abandon` of the socket itself. -/
def abandon (now sends : Nat) (s : TcpSocket) : TcpSocket × List TcpSegment :=
  let shut := s.shutdownWr now sends
  let state := if s.state = .listen ∨ s.state = .synSent ∨ s.state = .synReceived then .closed else shut.1.state
  ({ shut.1 with state := state, detached := true, detachDeadline := now + 30000 }, shut.2)

def orphan (listener : Nat) (s : TcpSocket) : TcpSocket :=
  if s.parent = some listener then
    { s with parent := none, unaccepted := false, state := .closed, detached := true, detachDeadline := 1 }
  else s

/-- The timer of one socket in `tcp_poll`. -/
def poll (now sends : Nat) (s : TcpSocket) : TcpSocket × List TcpSegment :=
  if s.state = .timeWait ∧ s.timeWaitUntil ≤ now then ({ s with state := .closed }, [])
  else if s.rtxAt = 0 ∨ now < s.rtxAt ∨ s.state = .closed then (s, [])
  else if s.pending = false then ({ s with rtxAt := 0 }, [])
  else
    let s := { s with rtxCount := (s.rtxCount + 1) % 256 }
    if (if s.state = .synSent ∨ s.state = .synReceived then 5 else 8) < s.rtxCount then
      ({ s with state := .closed, resetSeen := true, rtxAt := 0 }, [])
    else
      let s := { s with rto := min 16000 (s.rto * 2), rtxAt := 0 }
      if s.state = .synReceived then
        ({ s with rtxAt := now + s.rto }, [s.xmit true true false s.sndUna []])
      else if s.state = .synSent then
        ({ s with rttStart := 0, rtxAt := now + s.rto }, [s.xmit true false false s.sndUna []])
      else
        let flight := (s.sndMax - s.sndUna).toNat
        let sent := (rewind { s with ssthresh := s.lossThreshold flight, cwnd := s.mss }).output now sends
        (if sent.1.rtxAt = 0 then { sent.1 with rtxAt := now + sent.1.rto } else sent.1, sent.2)

/-- What `tcp_poll` frees. -/
def isDead (now : Nat) (s : TcpSocket) : Bool :=
  s.unaccepted && decide (s.state = .closed) || s.detached &&
    decide (s.state = .closed ∨ s.detachDeadline ≤ now)

/-- A `TIME_WAIT` that is over. -/
def expireTimeWait (now : Nat) (s : TcpSocket) : TcpSocket :=
  if s.state = .timeWait ∧ s.timeWaitUntil ≤ now then { s with state := .closed } else s

end TcpSocket

/-- The sockets, newest first, under the numbers that their users know them by; `nextId` is the next
number. -/
structure TcpStack where
  sockets : List (Nat × TcpSocket)
  nextId : Nat

namespace TcpStack

def get? (stack : TcpStack) (id : Nat) : Option TcpSocket :=
  (stack.sockets.find? fun entry => entry.1 = id).map Prod.snd

def mapSockets (stack : TcpStack) (change : Nat → TcpSocket → TcpSocket) : TcpStack :=
  { stack with sockets := stack.sockets.map fun entry => (entry.1, change entry.1 entry.2) }

def update (stack : TcpStack) (id : Nat) (change : TcpSocket → TcpSocket) : TcpStack :=
  stack.mapSockets fun other s => if other = id then change s else s

def add (stack : TcpStack) (s : TcpSocket) : TcpStack where
  sockets := (stack.nextId, s) :: stack.sockets
  nextId := stack.nextId + 1

def portUsed (stack : TcpStack) (port except : Nat) : Bool :=
  stack.sockets.any fun entry => decide (entry.1 ≠ except ∧ entry.2.localPort = port ∧
    (entry.2.state ≠ .closed ∨ entry.2.bound = true) ∧ entry.2.unaccepted = false ∧
    entry.2.detached = false)

/-- `tcp_pick_port_locked`; `draws` are the random numbers. -/
def pickPort (stack : TcpStack) (draws : List Nat) (id : Nat) : Nat :=
  (((draws.take 128).map fun draw => 49152 + draw % 16384).find? fun port =>
    !stack.portUsed port id).getD 0

def create (rxCell txCell : Nat → UInt8) (stack : TcpStack) : TcpStack :=
  stack.add (TcpSocket.alloc rxCell txCell)

def destroy (id : Nat) (stack : TcpStack) : TcpStack :=
  mapSockets { stack with sockets := stack.sockets.filter fun entry => decide (entry.1 ≠ id) }
    fun _ s =>
    if s.parent = some id then { s with parent := none, state := .closed } else s

def bind (id port : Nat) (draws : List Nat) (stack : TcpStack) : TcpStack :=
  let chosen := if port = 0 then stack.pickPort draws id else if stack.portUsed port id then 0 else port
  if chosen = 0 then stack else stack.update id fun s =>
    { s with localPort := chosen, bound := true }

/-- The start of `tcp_socket_connect` and of `tcp_socket_connect_start`. -/
def connect (id : Nat) (peer : TcpPeer) (port : Nat) (draws : List Nat) (iss : Seq)
    (stack : TcpStack) : TcpStack :=
  stack.update id fun s =>
    let localPort := if s.localPort = 0 ∨ stack.portUsed s.localPort id then stack.pickPort draws id else s.localPort
    if localPort = 0 then { s with peer := peer, remotePort := port, localPort := localPort }
    else s.connect peer port localPort iss

/-- `tcp_socket_connect_start`, which wants a closed socket. -/
def connectStart (now sends id : Nat) (peer : TcpPeer) (port : Nat) (draws : List Nat) (iss : Seq)
    (stack : TcpStack) : TcpStack :=
  match stack.get? id with
  | none => stack
  | some s =>
      if s.state = .closed then
        (stack.connect id peer port draws iss).update id fun s =>
          if s.state = .synSent then (s.firstSyn now sends (now + 100)).1 else s
      else stack

def accept (id : Nat) (stack : TcpStack) : TcpStack :=
  match stack.get? id with
  | none => stack
  | some listener =>
      if listener.state = .listen then
        match stack.sockets.find? fun entry => decide (entry.2.parent = some id ∧
            entry.2.unaccepted = true ∧ entry.2.state ≠ .synReceived ∧ entry.2.state ≠ .listen) with
        | none => stack
        | some (child, s) =>
            if s.state = .closed then
              stack.update child fun s =>
                { s with parent := none, unaccepted := false, detached := true, detachDeadline := 1 }
            else stack.update child fun s => { s with parent := none, unaccepted := false }
      else stack

/-- `tcp_socket_abandon`; a listener takes the connections that nobody accepted with it. -/
def abandon (now sends id : Nat) (stack : TcpStack) : TcpStack :=
  match stack.get? id with
  | none => stack
  | some s =>
      let orphaned := if s.state = .listen then stack.mapSockets fun _ => TcpSocket.orphan id else stack
      orphaned.update id fun s => (s.abandon now sends).1

def inputListen (now : Nat) (segment : TcpSegment) (rxCell txCell : Nat → UInt8) (iss : Seq)
    (id : Nat) (listener : TcpSocket) (stack : TcpStack) : TcpStack :=
  let waiting := (stack.sockets.filter fun entry => decide (entry.2.parent = some id)).length
  let children := (stack.sockets.filter fun entry => entry.2.unaccepted).length
  if waiting < listener.backlog ∧
    children < 64 then stack.add (TcpSocket.child id rxCell txCell iss now segment) else stack

def socketOf (stack : TcpStack) (segment : TcpSegment) : Option (Nat × TcpSocket) :=
  stack.sockets.find? fun entry =>
    decide (entry.2.localPort = segment.dstPort ∧ entry.2.remotePort = segment.srcPort ∧
    entry.2.state ≠ .listen ∧ entry.2.peer = segment.peer)

/-- `tcp_input`: the first socket of the connection gets the segment, else a listener does. -/
def input (now sends : Nat) (segment : TcpSegment) (rxCell txCell : Nat → UInt8) (iss : Seq)
    (stack : TcpStack) : TcpStack :=
  match stack.socketOf segment with
  | some (id, _) => stack.update id fun s => (s.input now sends segment).1
  | none =>
      if segment.isSyn ∧ segment.isAck = false ∧ segment.isRst = false then
        match stack.sockets.find? fun entry => decide (entry.2.state = .listen ∧ entry.2.localPort = segment.dstPort) with
        | some (id, listener) => stack.inputListen now segment rxCell txCell iss id listener
        | none => stack
      else stack

/-- `tcp_poll`; `sends` says what the network takes of each socket. -/
def poll (now : Nat) (sends : Nat → Nat) (stack : TcpStack) : TcpStack :=
  let expired := stack.mapSockets fun _ => TcpSocket.expireTimeWait now
  mapSockets { expired with sockets := expired.sockets.filter fun entry => !entry.2.isDead now }
    fun id s =>
    (s.poll now (sends id)).1

end TcpStack

end Cos.Net
