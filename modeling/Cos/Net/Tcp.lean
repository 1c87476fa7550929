import Cos.Lib.Buffer
import Cos.Lib.Serial

/-! # TCP sockets

One socket at a time: sending, acknowledgements, incoming segments and the timer.  The functions run
under the registry lock and give the segments that they transmit.  `sends` is how many segments the
network takes before it refuses one, `now` is the tick.
-/

namespace Cos.Net

open Cos.Lib

def tcpWindowSize : Nat := 65535

def tcpMssMax : Nat := 1460

def tcp6Mss : Nat := 1440

inductive TcpState where
  | closed
  | listen
  | synSent
  | synReceived
  | established
  | finWait1
  | finWait2
  | closeWait
  | closing
  | lastAck
  | timeWait
deriving DecidableEq, Repr

/-- `tcp_peer_t`: an address of one of the two families. -/
structure TcpPeer where
  v6 : Bool
  addr : Nat
deriving DecidableEq, Repr

structure TcpSegment where
  peer : TcpPeer
  srcPort : Nat
  dstPort : Nat
  seq : Seq
  ack : Seq
  isSyn : Bool
  isAck : Bool
  isFin : Bool
  isRst : Bool
  window : Nat
  options : List UInt8
  data : List UInt8
deriving DecidableEq, Repr

structure TcpSocket where
  localPort : Nat
  remotePort : Nat
  peer : TcpPeer
  state : TcpState
  sndUna : Seq
  sndNxt : Seq
  sndMax : Seq
  rcvNxt : Seq
  txSent : Nat
  peerWnd : Nat
  peerMss : Nat
  cwnd : Nat
  ssthresh : Nat
  rto : Nat
  srtt : Nat
  rttvar : Nat
  rtxAt : Nat
  rtxCount : Nat
  dupAcks : Nat
  finQueued : Bool
  finSent : Bool
  resetSeen : Bool
  rttSeq : Seq
  rttStart : Nat
  timeWaitUntil : Nat
  oooSeq : Seq
  oooLen : Nat
  parent : Option Nat
  backlog : Nat
  unaccepted : Bool
  bound : Bool
  detached : Bool
  detachDeadline : Nat
  rx : Buffer UInt8
  rxLen : Nat
  tx : Buffer UInt8
  txOff : Nat
  txLen : Nat

namespace TcpSocket

def rxMax (s : TcpSocket) : Nat := s.rx.size

def txMax (s : TcpSocket) : Nat := s.tx.size

def rxWindow (s : TcpSocket) : Nat := min 65535 (s.rxMax - s.rxLen)

def mss (s : TcpSocket) : Nat := if s.peerMss = 0 then 536 else s.peerMss

def sentEnd (s : TcpSocket) : Seq :=
  s.sndUna + BitVec.ofNat 32 s.txSent + BitVec.ofNat 32 s.finSent.toNat

def xmit (s : TcpSocket) (isSyn isAck isFin : Bool) (seq : Seq) (data : List UInt8) :
    TcpSegment where
  peer := s.peer
  srcPort := s.localPort
  dstPort := s.remotePort
  seq := seq
  ack := s.rcvNxt
  isSyn := isSyn
  isAck := isAck
  isFin := isFin
  isRst := false
  window := s.rxWindow
  options := if isSyn then
      let mss := if s.peer.v6 then tcp6Mss else tcpMssMax
      [2, 4, UInt8.ofNat (mss / 256), UInt8.ofNat mss]
    else []
  data := data

/-- `tcp_xmit_raw` of a reset. -/
def reset (peer : TcpPeer) (srcPort dstPort : Nat) (seq ack : Seq) (isAck : Bool) : TcpSegment where
  peer := peer
  srcPort := srcPort
  dstPort := dstPort
  seq := seq
  ack := ack
  isSyn := false
  isAck := isAck
  isFin := false
  isRst := true
  window := 0
  options := []
  data := []

def ackNow (s : TcpSocket) : TcpSegment := s.xmit false true false s.sentEnd []

def pending (s : TcpSocket) : Bool :=
  decide (0 < s.txLen) || s.finQueued && !s.resetSeen || decide (s.state = .synSent) ||
    decide (s.state = .synReceived) || s.finSent

def arm (now : Nat) (s : TcpSocket) : TcpSocket :=
  if s.rtxAt = 0 ∧ s.pending then { s with rtxAt := now + s.rto } else s

def txAppend (data : List UInt8) (s : TcpSocket) : TcpSocket :=
  let s := if s.txMax < s.txOff + s.txLen + data.length then { s with tx := s.tx.slide s.txOff s.txLen, txOff := 0 } else s
  { s with tx := s.tx.write (s.txOff + s.txLen) data, txLen := s.txLen + data.length }

/-- `tcp_xmit_raw` refuses what is longer than a segment. -/
def segmentFits (s : TcpSocket) (n : Nat) : Bool :=
  decide (n ≤ tcpMssMax ∧ (s.peer.v6 = true → n ≤ tcp6Mss))

def raiseMax (s : TcpSocket) (last : Seq) : Seq :=
  if 0 < Seq.diff last s.sndMax then last else s.sndMax

/-- The loop of `tcp_output`; every segment has a byte at least. -/
def outputLoop (now wnd : Nat) : Nat → Nat → TcpSocket → TcpSocket × List TcpSegment × Nat
  | 0, sends, s => (s, [], sends)
  | fuel + 1, sends, s =>
      if s.txSent < s.txLen ∧ s.txSent < wnd then
        let n := min (min (s.txLen - s.txSent) s.mss) (wnd - s.txSent)
        if n = 0 ∨ s.segmentFits n = false ∨ sends = 0 then (s, [], sends)
        else
          let seq := s.sndUna + BitVec.ofNat 32 s.txSent
          let segment := s.xmit false true false seq (s.tx.read (s.txOff + s.txSent) n)
          let sampled := s.rtxCount = 0 ∧ s.rttStart = 0
          let rest := outputLoop now wnd fuel (sends - 1) { s with
            rttSeq := if sampled then seq + BitVec.ofNat 32 n else s.rttSeq
            rttStart := if sampled then now else s.rttStart
            txSent := s.txSent + n
            sndMax := s.raiseMax (s.sndUna + BitVec.ofNat 32 (s.txSent + n)) }
          (rest.1, segment :: rest.2.1, rest.2.2)
      else (s, [], sends)

def sendsIn : TcpState → Bool
  | .established | .closeWait | .finWait1 | .closing | .lastAck => true
  | _ => false

/-- The part of `tcp_output` that sends the FIN. -/
def outputFin (sends : Nat) (s : TcpSocket) : TcpSocket × List TcpSegment :=
  if s.finQueued ∧ s.finSent = false ∧ s.txSent = s.txLen ∧ sends ≠ 0 then
    let seq := s.sndUna + BitVec.ofNat 32 s.txLen
    ({ s with finSent := true, sndMax := s.raiseMax (seq + 1) }, [s.xmit false true true seq []])
  else (s, [])

def output (now sends : Nat) (s : TcpSocket) : TcpSocket × List TcpSegment :=
  if sendsIn s.state then
    let wnd := max 1 (min s.cwnd s.peerWnd)
    let sent := outputLoop now wnd (s.txLen - s.txSent) sends s
    let ended := outputFin sent.2.2 sent.1
    (arm now { ended.1 with sndNxt := ended.1.sentEnd }, sent.2.1 ++ ended.2)
  else (s, [])

def rewind (s : TcpSocket) : TcpSocket := { s with txSent := 0, finSent := false, rttStart := 0 }

def enterTimeWait (now : Nat) (s : TcpSocket) : TcpSocket :=
  { s with state := .timeWait, rtxAt := 0, timeWaitUntil := now + 2000 }

def updateRtt (sample : Nat) (s : TcpSocket) : TcpSocket :=
  let srtt := if s.srtt = 0 then sample else (7 * s.srtt + sample) % 2 ^ 32 / 8
  let deviation := if s.srtt < sample then sample - s.srtt else s.srtt - sample
  let rttvar := if s.srtt = 0 then sample / 2 else (3 * s.rttvar + deviation) % 2 ^ 32 / 4
  { s with srtt := srtt, rttvar := rttvar, rto := min 16000 (max 200 ((srtt + 4 * rttvar) % 2 ^ 32)) }

def openWindow (s : TcpSocket) (acked : Nat) : Nat :=
  min 65535 (if s.cwnd < s.ssthresh then s.cwnd + min acked s.mss
    else s.cwnd + (s.mss * s.mss / (if s.cwnd = 0 then 1 else s.cwnd) + 1))

def dropAcked (acked : Nat) (s : TcpSocket) : TcpSocket :=
  if acked = 0 then s
  else { s with
    txLen := s.txLen - acked
    txOff := if s.txLen - acked = 0 then 0 else s.txOff + acked
    txSent := s.txSent - acked
    sndUna := s.sndUna + BitVec.ofNat 32 acked
    cwnd := s.openWindow acked }

def finAcked (now : Nat) (s : TcpSocket) : TcpSocket :=
  let s := { s with sndUna := s.sndUna + 1, finQueued := false, finSent := false }
  match s.state with
  | .finWait1 => { s with state := .finWait2 }
  | .closing => s.enterTimeWait now
  | .lastAck => { s with state := .closed }
  | _ => s

def lossThreshold (s : TcpSocket) (flight : Nat) : Nat :=
  if 2 * s.mss < flight / 2 then flight / 2 else 2 * s.mss

def processDuplicate (now sends : Nat) (win : Nat) (pure : Bool) (outstanding : Int)
    (s : TcpSocket) : TcpSocket × List TcpSegment :=
  let before := s.peerWnd
  let s := { s with peerWnd := win }
  if pure ∧ 0 < outstanding ∧ win = before then
    let s := { s with dupAcks := (s.dupAcks + 1) % 256 }
    if s.dupAcks = 3 then
      let ssthresh := s.lossThreshold outstanding.toNat
      (rewind { s with ssthresh := ssthresh, cwnd := ssthresh }).output now sends
    else (s, [])
  else if before < win then s.output now sends
  else (s, [])

def sampleRtt (now : Nat) (ack : Seq) (s : TcpSocket) : TcpSocket :=
  if s.rttStart ≠ 0 ∧ 0 ≤ Seq.diff ack s.rttSeq then
    { s.updateRtt ((now - s.rttStart) % 2 ^ 32) with rttStart := 0 }
  else s

/-- `adv` numbers are acknowledged: bytes of the queue, and the FIN behind them. -/
def cutQueue (now adv : Nat) (s : TcpSocket) : TcpSocket :=
  let acked := min adv s.txLen
  let cut := s.dropAcked acked
  if s.finSent && decide (acked < adv) then cut.finAcked now else cut

def processAck (now sends : Nat) (ack : Seq) (win : Nat) (pure : Bool) (s : TcpSocket) :
    TcpSocket × List TcpSegment :=
  let adv := Seq.diff ack s.sndUna
  let outstanding := Seq.diff s.sndMax s.sndUna
  if adv < 0 ∨ outstanding < adv then (s, [])
  else if adv = 0 then s.processDuplicate now sends win pure outstanding
  else
    let timed := ({ s with peerWnd := win, dupAcks := 0 } : TcpSocket).sampleRtt now ack
    let cut := ({ timed with rtxCount := 0 } : TcpSocket).cutQueue now adv.toNat
    output now sends { cut with rtxAt := 0 }

/-- The loop of `tcp_parse_mss` from option byte `i` on. -/
def parseMssFrom (v6 : Bool) (options : List UInt8) : Nat → Nat → Nat → Nat
  | 0, _, mss => mss
  | fuel + 1, i, mss =>
      if options.length ≤ i then mss
      else
        let kind := (options.getD i 0).toNat
        let length := (options.getD (i + 1) 0).toNat
        if kind = 0 then mss
        else if kind = 1 then parseMssFrom v6 options fuel (i + 1) mss
        else if options.length ≤ i + 1 ∨ length < 2 ∨ options.length < i + length then mss
        else
          let announced := 256 * (options.getD (i + 2) 0).toNat + (options.getD (i + 3) 0).toNat
          let limited := if v6 then min tcp6Mss (min announced tcpMssMax) else min announced tcpMssMax
          let mss := if kind = 2 ∧ length = 4 then (if limited < 128 then 536 else limited) else mss
          parseMssFrom v6 options fuel (i + length) mss

def parseMss (options : List UInt8) (s : TcpSocket) : TcpSocket :=
  { s with peerMss := parseMssFrom s.peer.v6 options options.length 0 s.peerMss }

/-- `TCP_STATE_SYN_SENT` of `tcp_input`. -/
def inputSynSent (now : Nat) (segment : TcpSegment) (s : TcpSocket) : TcpSocket × List TcpSegment :=
  let acks := segment.isAck && decide (segment.ack = s.sndUna + 1)
  if segment.isAck ∧ acks = false then
    (s, if segment.isRst then []
      else [reset segment.peer segment.dstPort segment.srcPort segment.ack 0 false])
  else if segment.isRst then
    (if acks then { s with state := .closed, resetSeen := true, rtxAt := 0 } else s, [])
  else if segment.isSyn ∧ acks then
    let s := parseMss segment.options { s with
      rcvNxt := segment.seq + 1, sndUna := segment.ack, sndNxt := segment.ack, peerWnd := segment.window }
    let s := if s.rttStart ≠ 0 ∧ s.rtxCount = 0 then s.updateRtt ((now - s.rttStart) % 2 ^ 32) else s
    let s := { s with rttStart := 0, rtxCount := 0, rtxAt := 0, state := .established }
    (s, [s.ackNow])
  else (s, [])

/-- A segment after a gap: its data is kept as the one block that waits for the gap to close. -/
def keepHole (segment : TcpSegment) (s : TcpSocket) : TcpSocket :=
  let gap := (segment.seq - s.rcvNxt).toNat
  let pos := s.rxLen + gap
  let length := segment.data.length
  if 0 < length ∧ pos + length ≤ s.rxMax then
    if s.oooLen = 0 then
      { s with oooSeq := segment.seq, oooLen := length, rx := s.rx.write pos segment.data }
    else
      let blockEnd := s.oooSeq + BitVec.ofNat 32 s.oooLen
      let newEnd := segment.seq + BitVec.ofNat 32 length
      if Seq.diff segment.seq blockEnd ≤ 0 ∧ 0 ≤ Seq.diff newEnd s.oooSeq then
        let first := if Seq.diff segment.seq s.oooSeq < 0 then segment.seq else s.oooSeq
        let last := if 0 < Seq.diff newEnd blockEnd then newEnd else blockEnd
        { s with rx := s.rx.write pos segment.data, oooSeq := first, oooLen := (last - first).toNat }
      else s
  else s

/-- The block behind a gap that is closed joins the received data. -/
def closeHole (s : TcpSocket) : TcpSocket :=
  if s.oooLen ≠ 0 ∧ Seq.diff s.oooSeq s.rcvNxt ≤ 0 then
    let overlap := (s.rcvNxt - s.oooSeq).toNat
    let fresh := s.oooLen - overlap
    { s with rxLen := s.rxLen + fresh, rcvNxt := s.rcvNxt + BitVec.ofNat 32 fresh, oooLen := 0 }
  else s

def takeFin (now : Nat) (s : TcpSocket) : TcpSocket :=
  let s := { s with rcvNxt := s.rcvNxt + 1 }
  match s.state with
  | .established => { s with state := .closeWait }
  | .finWait1 => { s with state := .closing }
  | .finWait2 => s.enterTimeWait now
  | _ => s

def takeBytes (bytes : List UInt8) (s : TcpSocket) : TcpSocket :=
  if bytes = [] then s
  else { s with
    rx := s.rx.write s.rxLen bytes
    rxLen := s.rxLen + bytes.length
    rcvNxt := s.rcvNxt + BitVec.ofNat 32 bytes.length }

/-- The bytes of a segment that are in order, `skip` of which are here already. -/
def takeData (now : Nat) (segment : TcpSegment) (skip : Nat) (s : TcpSocket) : TcpSocket :=
  let n := segment.data.length - skip
  let take := min n (s.rxMax - s.rxLen)
  let s := (s.takeBytes ((segment.data.drop skip).take take)).closeHole
  if segment.isFin ∧ take = n then s.takeFin now else s

def takesData : TcpState → Bool
  | .established | .finWait1 | .finWait2 => true
  | _ => false

/-- Data and FIN of `tcp_input`. -/
def inputData (now : Nat) (segment : TcpSegment) (s : TcpSocket) : TcpSocket × List TcpSegment :=
  if takesData s.state ∧ (0 < segment.data.length ∨ segment.isFin) then
    let off := Seq.diff s.rcvNxt segment.seq
    if off < 0 then
      let s := s.keepHole segment
      (s, [s.ackNow])
    else
      let skip := off.toNat
      if segment.data.length < skip ∨ skip = segment.data.length ∧ segment.isFin = false then (s, [s.ackNow])
      else
        let s := s.takeData now segment skip
        (s, [s.ackNow])
  else (s, [])

/-- The rest of `tcp_input` in a synchronized state. -/
def inputOpen (now sends : Nat) (segment : TcpSegment) (s : TcpSocket) :
    TcpSocket × List TcpSegment :=
  if s.state = .closed then (s, [])
  else if segment.isRst then
    let off := Seq.diff segment.seq s.rcvNxt
    (if 0 ≤ off ∧ off < max 1 s.rxWindow then { s with state := .closed, resetSeen := true, rtxAt := 0 } else s, [])
  else if segment.isSyn then (s, if segment.seq + 1 = s.rcvNxt then [s.ackNow] else [])
  else if segment.isAck = false then (s, [])
  else
    let acked := s.processAck now sends segment.ack segment.window (decide (segment.data = [] ∧ segment.isFin = false))
    if acked.1.state = .timeWait then (acked.1, acked.2 ++ if segment.isFin then [acked.1.ackNow] else [])
    else
      let taken := acked.1.inputData now segment
      (taken.1, acked.2 ++ taken.2)

/-- `tcp_input` for the socket of the segment. -/
def input (now sends : Nat) (segment : TcpSegment) (s : TcpSocket) : TcpSocket × List TcpSegment :=
  if s.state = .synSent then s.inputSynSent now segment
  else if s.state = .synReceived then
    if segment.isRst then
      let off := Seq.diff segment.seq s.rcvNxt
      (if 0 ≤ off ∧ off < 65535 then { s with state := .closed, resetSeen := true, rtxAt := 0 } else s, [])
    else if segment.isSyn then
      (s, if segment.seq + 1 = s.rcvNxt then [s.xmit true true false s.sndUna []] else [])
    else if segment.isAck ∧ segment.ack = s.sndUna + 1 then
      inputOpen now sends segment { s with
        sndUna := segment.ack, sndNxt := segment.ack, peerWnd := segment.window, rtxCount := 0, rtxAt := 0
        state := .established }
    else (s, [])
  else s.inputOpen now sends segment

end TcpSocket

end Cos.Net
