import Cos.Lib.Run
import Cos.Net.TcpReceive
import Cos.Net.TcpStack
import Mathlib.Data.List.Nodup

/-! # Runs of the TCP stack

Every call, tick and segment, also a hostile one, keeps the queues and buffers of every socket,
unless a FIN is taken right before the block that waits behind a gap.
-/

namespace Cos.Net

open Cos.Lib

variable {s s' : TcpSocket} {now sends : Nat} {segment : TcpSegment} {rxCell txCell : Nat → UInt8}

theorem alloc_sound (rxCell txCell : Nat → UInt8) : SocketSound (TcpSocket.alloc rxCell txCell) :=
  ⟨⟨Nat.le_refl _, Nat.zero_le _, rfl, ⟨0, rfl, Nat.le_refl _, Nat.zero_le _⟩,
    fun isFin => (nomatch isFin), rfl⟩, ⟨Nat.zero_le _, rfl, fun some => absurd rfl some, rfl⟩,
    ⟨fun isFin => isFin.elim (fun same => (nomatch same)) (fun same => (nomatch same)),
      fun opening => opening.elim (fun same => (nomatch same)) (fun same => (nomatch same))⟩⟩

theorem opening_sound (sizes : s.tx.size = tcpWindowSize ∧ s.rx.size = tcpWindowSize)
    (within : s.tx.overrun = false ∧ s.rx.overrun = false)
    (empty : s.txLen = 0 ∧ s.txSent = 0 ∧ s.txOff = 0 ∧ s.rxLen = 0 ∧ s.oooLen = 0)
    (unfinished : s.finQueued = false ∧ s.finSent = false) (isMax : s.sndMax = s.sndUna + 1) :
    SocketSound s := by
  obtain ⟨noQueue, noSent, noOffset, noData, noHole⟩ := empty
  refine ⟨⟨?_, ?_, sizes.1, ⟨1, isMax, ?_, ?_⟩, ?_, within.1⟩,
    ⟨?_, sizes.2, fun some => absurd noHole some, within.2⟩, fun isFin => ?_, fun _ =>
    ⟨noQueue, noHole, isMax⟩⟩
  · omega
  · omega
  · rw [noSent, unfinished.2, Bool.toNat_false]
    omega
  · omega
  · intro isFin
    rw [unfinished.2] at isFin
    cases isFin
  · omega
  · rw [unfinished.1, unfinished.2] at isFin
    exact absurd isFin (by simp)

theorem SocketSound.connect (sound : SocketSound s) (peer : TcpPeer) (port localPort : Nat)
    (iss : Seq) : SocketSound (s.connect peer port localPort iss) :=
  opening_sound ⟨sound.send.size, sound.recv.size⟩ ⟨sound.send.within, sound.recv.within⟩
    ⟨rfl, rfl, rfl, rfl, rfl⟩ ⟨rfl, rfl⟩ rfl

theorem child_sound (listener : Nat) (iss : Seq) :
    SocketSound (TcpSocket.child listener rxCell txCell iss now segment) :=
  opening_sound ⟨rfl, rfl⟩ ⟨rfl, rfl⟩ ⟨rfl, rfl, rfl, rfl, rfl⟩ ⟨rfl, rfl⟩ rfl

theorem SocketSound.firstSyn {retryAt : Nat} (sound : SocketSound s) :
    SocketSound (s.firstSyn now sends retryAt).1 := by
  rw [TcpSocket.firstSyn]
  split <;> exact sound.same ⟨rfl, rfl, rfl, rfl, rfl, rfl, rfl, rfl⟩ ⟨rfl, rfl, rfl, rfl, rfl⟩ rfl

theorem SocketSound.connectTry (sound : SocketSound s) :
    SocketSound (s.connectTry now sends).1 := by
  rw [TcpSocket.connectTry]
  split
  · exact sound
  · exact sound.firstSyn

theorem SocketSound.closed (sound : SocketSound s) (sender : SameSender s s')
    (receiver : SameReceiver s s') (isClosed : s'.state = .closed) : SocketSound s' :=
  sound.rest sender receiver (isClosed ▸ closed_resting)

theorem SocketSound.connectEnd (sound : SocketSound s) : SocketSound s.connectEnd := by
  rw [TcpSocket.connectEnd]
  split
  · exact sound
  · exact sound.closed ⟨rfl, rfl, rfl, rfl, rfl, rfl, rfl, rfl⟩ ⟨rfl, rfl, rfl, rfl, rfl⟩ rfl

theorem SocketSound.listen (sound : SocketSound s) (backlog : Int) :
    SocketSound (s.listen backlog) := by
  rw [TcpSocket.listen]
  split
  · refine sound.rest ⟨rfl, rfl, rfl, rfl, rfl, rfl, rfl, rfl⟩ ⟨rfl, rfl, rfl, rfl, rfl⟩
      ⟨?_, ?_, ?_, ?_⟩ <;> exact fun same => (nomatch same)
  · exact sound

theorem SocketSound.txAppend {data : List UInt8} (sound : SocketSound s)
    (open' : s.state = .established ∨ s.state = .closeWait)
    (fits : data.length ≤ s.txMax - s.txLen) : SocketSound (s.txAppend data) := by
  have unfinished : s.finQueued = false ∧ s.finSent = false := by
    by_contra finished
    have isFin : s.finQueued = true ∨ s.finSent = true := by
      rw [not_and_or, Bool.not_eq_false, Bool.not_eq_false] at finished
      exact finished
    obtain ⟨notOpen, notWait, -, -⟩ := sound.phase.fin isFin
    exact open'.elim notOpen notWait
  obtain ⟨d, isMax, isSent, isQueued⟩ := sound.send.flight
  have sent := sound.send.sent
  have queue := sound.send.queue
  have notOpening : ¬ (s.state = .synSent ∨ s.state = .synReceived) := by
    obtain isState | isState := open' <;> simp [isState]
  have added : ∀ (off : Nat) (tx : Buffer UInt8), tx.size = s.tx.size → tx.overrun = false → off + s.txLen + data.length ≤ s.txMax →
      SocketSound { s with txOff := off, tx := tx.write (off + s.txLen) data, txLen := s.txLen + data.length } := by
    intro off tx sameSize within room
    refine ⟨⟨?_, ?_, ?_, ⟨d, isMax, isSent, ?_⟩, fun isFin => ?_, ?_⟩, sound.recv.same ⟨rfl, rfl,
      rfl, rfl, rfl⟩, sound.phase.fin, fun opening => absurd opening notOpening⟩
    · exact Nat.le_add_right_of_le sent
    · change off + (s.txLen + data.length) ≤ tx.size
      rw [sameSize, ← Nat.add_assoc]
      exact room
    · exact sameSize.trans sound.send.size
    · exact Nat.le_trans isQueued (by dsimp only; omega)
    · exact absurd (unfinished.2.symm.trans isFin) (by decide)
    · refine Buffer.write_within within ?_
      rw [sameSize]
      exact room
  rw [TcpSocket.txAppend]
  split
  · refine added 0 (s.tx.slide s.txOff s.txLen) rfl (Buffer.slide_within sound.send.within queue) ?_
    omega
  · refine added s.txOff s.tx rfl sound.send.within ?_
    omega

theorem SocketSound.sendData {data : List UInt8} (sound : SocketSound s) :
    SocketSound (s.send now sends data).2.1 := by
  rw [TcpSocket.send]
  split
  · rename_i isOpen
    dsimp only
    split
    · exact sound
    · refine (sound.txAppend isOpen ?_).output
      rw [List.length_take]
      omega
  · exact sound

theorem SocketSound.recvData {maxLen : Nat} (sound : SocketSound s) :
    SocketSound (s.recv maxLen).2.2.1 := by
  have received := sound.recv.received
  rw [TcpSocket.recv]
  split
  · exact sound
  · dsimp only
    obtain ⟨count, isCount⟩ : ∃ count, min s.rxLen maxLen = count := ⟨_, rfl⟩
    rw [isCount]
    have slid : ∀ rx : Buffer UInt8, rx.size = s.rx.size → rx.overrun = false →
        SocketSound { s with rx := rx, rxLen := s.rxLen - count } := by
      intro rx sameSize within
      refine ⟨sound.send.same ⟨rfl, rfl, rfl, rfl, rfl, rfl, rfl, rfl⟩, ⟨?_, sameSize.trans sound.recv.size, fun some => ?_,
        within⟩, sound.phase.fin, sound.phase.opening⟩
      · change s.rxLen - count ≤ rx.size
        rw [sameSize]
        exact Nat.le_trans (Nat.sub_le _ _) received
      · obtain ⟨gap, isGap, isSeq, fits⟩ := sound.recv.hole some
        refine ⟨gap, isGap, isSeq, ?_⟩
        change s.rxLen - count + gap + s.oooLen ≤ rx.size
        have isMax : s.rxMax = s.rx.size := rfl
        omega
    have isTail : count + (s.rxLen - count + if s.oooLen = 0 then 0
        else (s.oooSeq - s.rcvNxt).toNat + s.oooLen) ≤ s.rx.size := by
      have isMax : s.rxMax = s.rx.size := rfl
      split
      · omega
      · rename_i some
        obtain ⟨gap, isGap, isSeq, fits⟩ := sound.recv.hole some
        have isSize : s.rxMax = 65535 := sound.recv.size
        have sameGap : (s.oooSeq - s.rcvNxt).toNat = gap := by
          have apart := @Seq.sub_toNat s.rcvNxt gap 0 (Nat.zero_le _) (by omega)
          rw [isSeq]
          simpa using apart
        omega
    obtain ⟨tail, isTailOf⟩ :
        ∃ tail, (s.rxLen - count + if s.oooLen = 0 then 0 else (s.oooSeq - s.rcvNxt).toNat + s.oooLen) = tail := ⟨_, rfl⟩
    rw [isTailOf] at isTail ⊢
    refine slid _ ?_ ?_
    · split <;> rfl
    · split
      · exact sound.recv.within
      · exact Buffer.slide_within sound.recv.within isTail

theorem SocketSound.queueFin {state : TcpState} (sound : SocketSound s) (resting : Resting state) :
    SocketSound { s with state := state, finQueued := true } := by
  refine ⟨⟨sound.send.sent, sound.send.queue, sound.send.size, sound.send.flight, sound.send.fin,
    sound.send.within⟩,
    sound.recv.same ⟨rfl, rfl, rfl, rfl, rfl⟩, fun _ => resting, fun opening => ?_⟩
  exact absurd opening (not_or.mpr ⟨resting.2.2.1, resting.2.2.2⟩)

theorem SocketSound.shutdownWr (sound : SocketSound s) :
    SocketSound (s.shutdownWr now sends).1 := by
  rw [TcpSocket.shutdownWr]
  split
  · refine (sound.queueFin ?_).output
    split
    all_goals exact ⟨fun same => (nomatch same), fun same => (nomatch same),
      fun same => (nomatch same), fun same => (nomatch same)⟩
  · exact sound

theorem SocketSound.abandon (sound : SocketSound s) : SocketSound (s.abandon now sends).1 := by
  have shut := @SocketSound.shutdownWr s now sends sound
  rw [TcpSocket.abandon]
  split
  · exact shut.closed ⟨rfl, rfl, rfl, rfl, rfl, rfl, rfl, rfl⟩ ⟨rfl, rfl, rfl, rfl, rfl⟩ rfl
  · exact shut.same ⟨rfl, rfl, rfl, rfl, rfl, rfl, rfl, rfl⟩ ⟨rfl, rfl, rfl, rfl, rfl⟩ rfl

theorem SocketSound.orphan (sound : SocketSound s) (listener : Nat) :
    SocketSound (s.orphan listener) := by
  rw [TcpSocket.orphan]
  split
  · exact sound.closed ⟨rfl, rfl, rfl, rfl, rfl, rfl, rfl, rfl⟩ ⟨rfl, rfl, rfl, rfl, rfl⟩ rfl
  · exact sound

theorem SocketSound.expireTimeWait (sound : SocketSound s) (now : Nat) :
    SocketSound (s.expireTimeWait now) := by
  rw [TcpSocket.expireTimeWait]
  split
  · exact sound.closed ⟨rfl, rfl, rfl, rfl, rfl, rfl, rfl, rfl⟩ ⟨rfl, rfl, rfl, rfl, rfl⟩ rfl
  · exact sound

theorem SocketSound.resend (sound : SocketSound s) (past : Synchronized s) :
    SocketSound (s.rewind.output now sends).1 := by
  obtain ⟨rewound, quiet⟩ := rewind_sound sound.send
  exact (sound.quiet rewound quiet past).output

theorem SocketSound.poll (sound : SocketSound s) : SocketSound (s.poll now sends).1 := by
  have kept : ∀ s' : TcpSocket, SameSender s s' → SameReceiver s s' → s'.state = s.state →
    SocketSound s' := fun _ =>
    sound.same
  rw [TcpSocket.poll]
  split
  · exact sound.closed ⟨rfl, rfl, rfl, rfl, rfl, rfl, rfl, rfl⟩ ⟨rfl, rfl, rfl, rfl, rfl⟩ rfl
  split
  · exact sound
  split
  · exact kept _ ⟨rfl, rfl, rfl, rfl, rfl, rfl, rfl, rfl⟩ ⟨rfl, rfl, rfl, rfl, rfl⟩ rfl
  dsimp only
  obtain ⟨limit, isLimit⟩ :
    ∃ limit, (if s.state = .synSent ∨ s.state = .synReceived then 5 else 8) = limit := ⟨_, rfl⟩
  rw [isLimit]
  split
  · exact sound.closed ⟨rfl, rfl, rfl, rfl, rfl, rfl, rfl, rfl⟩ ⟨rfl, rfl, rfl, rfl, rfl⟩ rfl
  split
  · exact kept _ ⟨rfl, rfl, rfl, rfl, rfl, rfl, rfl, rfl⟩ ⟨rfl, rfl, rfl, rfl, rfl⟩ rfl
  rename_i notReceived
  split
  · exact kept _ ⟨rfl, rfl, rfl, rfl, rfl, rfl, rfl, rfl⟩ ⟨rfl, rfl, rfl, rfl, rfl⟩ rfl
  rename_i notSent
  have slowed : SocketSound { s with
      rtxCount := (s.rtxCount + 1) % 256, rto := min 16000 (s.rto * 2), rtxAt := 0
      ssthresh := s.lossThreshold (s.sndMax - s.sndUna).toNat, cwnd := s.mss } :=
    kept _ ⟨rfl, rfl, rfl, rfl, rfl, rfl, rfl, rfl⟩ ⟨rfl, rfl, rfl, rfl, rfl⟩ rfl
  have resent := @SocketSound.resend _ now sends slowed ⟨notSent, notReceived⟩
  split
  · exact resent.same ⟨rfl, rfl, rfl, rfl, rfl, rfl, rfl, rfl⟩ ⟨rfl, rfl, rfl, rfl, rfl⟩ rfl
  · exact resent

/-- Sockets under different numbers, each with its queues and buffers in order. -/
structure StackSound (stack : TcpStack) : Prop where
  each : ∀ entry ∈ stack.sockets, SocketSound entry.2
  unique : (stack.sockets.map Prod.fst).Nodup
  numbered : ∀ entry ∈ stack.sockets, entry.1 < stack.nextId

variable {stack : TcpStack} {id : Nat}

theorem StackSound.mapSockets (sound : StackSound stack) {change : Nat → TcpSocket → TcpSocket}
    (keeps : ∀ entry ∈ stack.sockets, SocketSound (change entry.1 entry.2)) :
    StackSound (stack.mapSockets change) := by
  have sameKeys : (stack.mapSockets change).sockets.map Prod.fst = stack.sockets.map Prod.fst := by
    simp [TcpStack.mapSockets, Function.comp_def]
  refine ⟨fun entry member => ?_, sameKeys ▸ sound.unique, fun entry member => ?_⟩
  all_goals
    obtain ⟨old, isOld, rfl⟩ := List.mem_map.mp member
  · exact keeps old isOld
  · exact sound.numbered old isOld

theorem StackSound.update (sound : StackSound stack) {change : TcpSocket → TcpSocket}
    (keeps : ∀ s, (id, s) ∈ stack.sockets → SocketSound (change s)) :
    StackSound (stack.update id change) := by
  refine sound.mapSockets fun entry member => ?_
  by_cases isId : entry.1 = id
  · rw [if_pos isId]
    exact keeps entry.2 (isId ▸ member)
  · rw [if_neg isId]
    exact sound.each entry member

theorem StackSound.updateAll (sound : StackSound stack) {change : TcpSocket → TcpSocket}
    (keeps : ∀ s, SocketSound s → SocketSound (change s)) : StackSound (stack.update id change) :=
  sound.update fun s member => keeps s (sound.each (id, s) member)

theorem StackSound.add (sound : StackSound stack) (fresh : SocketSound s) :
    StackSound (stack.add s) := by
  refine ⟨fun entry member => ?_, ?_, fun entry member => ?_⟩
  · obtain rfl | old := List.mem_cons.mp member
    · exact fresh
    · exact sound.each entry old
  · refine List.nodup_cons.mpr ⟨fun member => ?_, sound.unique⟩
    obtain ⟨entry, isEntry, sameKey⟩ := List.mem_map.mp member
    have below := sound.numbered entry isEntry
    omega
  · obtain rfl | old := List.mem_cons.mp member
    · exact Nat.lt_succ_self _
    · exact Nat.lt_succ_of_lt (sound.numbered entry old)

theorem StackSound.filter (sound : StackSound stack) (keep : Nat × TcpSocket → Bool) :
    StackSound { stack with sockets := stack.sockets.filter keep } :=
  ⟨fun entry member => sound.each entry (List.mem_filter.mp member).1,
    sound.unique.sublist (List.filter_sublist.map Prod.fst),
    fun entry member => sound.numbered entry (List.mem_filter.mp member).1⟩

theorem StackSound.same (sound : StackSound stack) {s s' : TcpSocket}
    (one : (id, s) ∈ stack.sockets) (other : (id, s') ∈ stack.sockets) : s = s' :=
  congrArg Prod.snd (List.inj_on_of_nodup_map sound.unique one other rfl)

theorem StackSound.destroy (sound : StackSound stack) : StackSound (stack.destroy id) := by
  have kept := sound.filter fun entry => decide (entry.1 ≠ id)
  refine kept.mapSockets fun entry member => ?_
  have old := kept.each entry member
  split
  · exact old.closed ⟨rfl, rfl, rfl, rfl, rfl, rfl, rfl, rfl⟩ ⟨rfl, rfl, rfl, rfl, rfl⟩ rfl
  · exact old

theorem StackSound.bind (sound : StackSound stack) {port : Nat} {draws : List Nat} :
    StackSound (stack.bind id port draws) := by
  rw [TcpStack.bind]
  obtain ⟨chosen, isChosen⟩ : ∃ chosen, (if port = 0 then stack.pickPort draws id else
    if stack.portUsed port id then 0 else port) = chosen := ⟨_, rfl⟩
  rw [isChosen]
  split
  · exact sound
  · exact sound.updateAll fun _ old => old.same ⟨rfl, rfl, rfl, rfl, rfl, rfl, rfl, rfl⟩ ⟨rfl, rfl, rfl, rfl, rfl⟩ rfl

theorem StackSound.connect (sound : StackSound stack) {peer : TcpPeer} {port : Nat}
    {draws : List Nat} {iss : Seq} : StackSound (stack.connect id peer port draws iss) := by
  refine sound.updateAll fun s old => ?_
  dsimp only
  obtain ⟨localPort, isPort⟩ : ∃ localPort, (if s.localPort = 0 ∨ stack.portUsed s.localPort id then
    stack.pickPort draws id else s.localPort) = localPort := ⟨_, rfl⟩
  rw [isPort]
  split
  · exact old.same ⟨rfl, rfl, rfl, rfl, rfl, rfl, rfl, rfl⟩ ⟨rfl, rfl, rfl, rfl, rfl⟩ rfl
  · exact old.connect peer port localPort iss

theorem StackSound.connectStart (sound : StackSound stack) {peer : TcpPeer} {port : Nat}
    {draws : List Nat} {iss : Seq} :
    StackSound (stack.connectStart now sends id peer port draws iss) := by
  rw [TcpStack.connectStart]
  split
  · exact sound
  · split
    · refine sound.connect.updateAll fun s old => ?_
      split
      · exact old.firstSyn
      · exact old
    · exact sound

theorem StackSound.accept (sound : StackSound stack) : StackSound (stack.accept id) := by
  rw [TcpStack.accept]
  split
  · exact sound
  · split
    · split
      · exact sound
      · split
        · refine sound.updateAll fun _ old => ?_
          exact old.same ⟨rfl, rfl, rfl, rfl, rfl, rfl, rfl, rfl⟩ ⟨rfl, rfl, rfl, rfl, rfl⟩ rfl
        · refine sound.updateAll fun _ old => ?_
          exact old.same ⟨rfl, rfl, rfl, rfl, rfl, rfl, rfl, rfl⟩ ⟨rfl, rfl, rfl, rfl, rfl⟩ rfl
    · exact sound

theorem StackSound.abandon (sound : StackSound stack) :
    StackSound (stack.abandon now sends id) := by
  rw [TcpStack.abandon]
  split
  · exact sound
  · refine StackSound.updateAll ?_ fun s old => old.abandon
    split
    · exact sound.mapSockets fun entry member => (sound.each entry member).orphan id
    · exact sound

theorem StackSound.inputListen (sound : StackSound stack) {iss : Seq} {listener : TcpSocket} :
    StackSound (stack.inputListen now segment rxCell txCell iss id listener) := by
  rw [TcpStack.inputListen]
  split
  · exact sound.add (child_sound id iss)
  · exact sound

/-- The socket that gets the segment does not take a FIN right before its block. -/
def finMissesHole (segment : TcpSegment) (stack : TcpStack) : Bool :=
  (stack.socketOf segment).all fun entry => !entry.2.finMeetsHole segment

theorem StackSound.input (sound : StackSound stack) {iss : Seq}
    (misses : finMissesHole segment stack = true) :
    StackSound (stack.input now sends segment rxCell txCell iss) := by
  rw [TcpStack.input]
  cases found : stack.socketOf segment with
  | some entry =>
      have member : entry ∈ stack.sockets := List.mem_of_find?_eq_some found
      have apart : entry.2.finMeetsHole segment = false := by
        rw [finMissesHole, found] at misses
        simpa using misses
      refine sound.update fun s isSocket => ?_
      rw [sound.same isSocket member]
      exact (sound.each entry member).input apart
  | none =>
      dsimp only
      split
      · split
        · exact sound.inputListen
        · exact sound
      · exact sound

theorem StackSound.poll (sound : StackSound stack) {takes : Nat → Nat} :
    StackSound (stack.poll now takes) := by
  have expired : StackSound (stack.mapSockets fun _ => TcpSocket.expireTimeWait now) :=
    sound.mapSockets fun entry member => (sound.each entry member).expireTimeWait now
  have kept := expired.filter fun entry => !entry.2.isDead now
  exact @StackSound.mapSockets _ kept (fun id s => (s.poll now (takes id)).1) fun entry member =>
    (kept.each entry member).poll

/-- What happens to the stack: a call, a segment that comes in, a tick of the timer.  The random
numbers, the clock, what the network takes and what was in the memory of new buffers are any. -/
inductive TcpCall where
  | create (rxCell txCell : Nat → UInt8)
  | destroy (id : Nat)
  | bind (id port : Nat) (draws : List Nat)
  | listen (id : Nat) (backlog : Int)
  | connect (id : Nat) (peer : TcpPeer) (port : Nat) (draws : List Nat) (iss : Seq)
  | connectTry (id now sends : Nat)
  | connectEnd (id : Nat)
  | connectStart (id now sends : Nat) (peer : TcpPeer) (port : Nat) (draws : List Nat) (iss : Seq)
  | accept (id : Nat)
  | send (id now sends : Nat) (data : List UInt8)
  | recv (id maxLen : Nat)
  | shutdownWr (id now sends : Nat)
  | closeEnd (id : Nat)
  | abandon (id now sends : Nat)
  | input (now sends : Nat) (segment : TcpSegment) (rxCell txCell : Nat → UInt8) (iss : Seq)
  | poll (now : Nat) (sends : Nat → Nat)

def tcpStep (stack : TcpStack) : TcpCall → TcpStack
  | .create rxCell txCell => stack.create rxCell txCell
  | .destroy id => stack.destroy id
  | .bind id port draws => stack.bind id port draws
  | .listen id backlog => stack.update id (TcpSocket.listen backlog)
  | .connect id peer port draws iss => stack.connect id peer port draws iss
  | .connectTry id now sends => stack.update id fun s => (s.connectTry now sends).1
  | .connectEnd id => stack.update id TcpSocket.connectEnd
  | .connectStart id now sends peer port draws iss =>
    stack.connectStart now sends id peer port draws iss
  | .accept id => stack.accept id
  | .send id now sends data => stack.update id fun s => (s.send now sends data).2.1
  | .recv id maxLen => stack.update id fun s => (s.recv maxLen).2.2.1
  | .shutdownWr id now sends => stack.update id fun s => (s.shutdownWr now sends).1
  | .closeEnd id => stack.update id TcpSocket.closeEnd
  | .abandon id now sends => stack.abandon now sends id
  | .input now sends segment rxCell txCell iss => stack.input now sends segment rxCell txCell iss
  | .poll now sends => stack.poll now sends

def tcpCondition (stack : TcpStack) : TcpCall → Prop
  | .input _ _ segment _ _ _ => finMissesHole segment stack = true
  | _ => True

instance (stack : TcpStack) : ∀ call, Decidable (tcpCondition stack call)
  | .input _ _ segment _ _ _ => inferInstanceAs (Decidable (finMissesHole segment stack = true))
  | .create .. | .destroy .. | .bind .. | .listen .. | .connect .. | .connectTry ..
  | .connectEnd .. | .connectStart ..
  | .accept .. | .send .. | .recv .. | .shutdownWr .. | .closeEnd .. | .abandon .. | .poll .. =>
    isTrue trivial

def emptyStack : TcpStack where
  sockets := []
  nextId := 0

theorem StackSound.step (sound : StackSound stack) {call : TcpCall}
    (condition : tcpCondition stack call) : StackSound (tcpStep stack call) := by
  cases call with
  | create rxCell txCell => exact sound.add (alloc_sound rxCell txCell)
  | destroy id => exact sound.destroy
  | bind id port draws => exact sound.bind
  | listen id backlog => exact sound.updateAll fun _ old => old.listen backlog
  | connect id peer port draws iss => exact sound.connect
  | connectTry id now sends => exact sound.updateAll fun _ old => old.connectTry
  | connectEnd id => exact sound.updateAll fun _ old => old.connectEnd
  | connectStart id now sends peer port draws iss => exact sound.connectStart
  | accept id => exact sound.accept
  | send id now sends data => exact sound.updateAll fun _ old => old.sendData
  | recv id maxLen => exact sound.updateAll fun _ old => old.recvData
  | shutdownWr id now sends => exact sound.updateAll fun _ old => old.shutdownWr
  | closeEnd id =>
      refine sound.updateAll fun _ old => ?_
      exact old.closed ⟨rfl, rfl, rfl, rfl, rfl, rfl, rfl, rfl⟩ ⟨rfl, rfl, rfl, rfl, rfl⟩ rfl
  | abandon id now sends => exact sound.abandon
  | input now sends segment rxCell txCell iss => exact sound.input condition
  | poll now sends => exact sound.poll

/-- The offsets of a socket stay inside its buffers, and no copy ran past the end of one. -/
structure SocketInvariant (s : TcpSocket) : Prop where
  sent : s.txSent ≤ s.txLen
  queue : s.txOff + s.txLen ≤ s.txMax
  highest : 0 ≤ Seq.diff s.sndMax (s.sndUna + BitVec.ofNat 32 s.txSent + if s.finSent then 1 else 0)
  received : s.rxLen ≤ s.rxMax
  hole : 0 < s.oooLen →
    0 < Seq.diff s.oooSeq s.rcvNxt ∧ s.rxLen + (s.oooSeq - s.rcvNxt).toNat + s.oooLen ≤ s.rxMax
  within : s.tx.overrun = false ∧ s.rx.overrun = false

theorem SocketSound.highest (sound : SocketSound s) :
    0 ≤ Seq.diff s.sndMax (s.sndUna + BitVec.ofNat 32 s.txSent + if s.finSent then 1 else 0) := by
  obtain ⟨d, isMax, isSent, isQueued⟩ := sound.send.flight
  have queue := sound.send.queue
  have isSize : s.txMax = 65535 := sound.send.size
  have isFin : (if s.finSent then 1 else 0 : Seq) = BitVec.ofNat 32 s.finSent.toNat := by
    cases s.finSent <;> rfl
  rw [isFin, Seq.add_ofNat, isMax, Seq.diff_near]
  all_goals omega

theorem SocketSound.invariant (sound : SocketSound s) : SocketInvariant s := by
  refine ⟨sound.send.sent, sound.send.queue, sound.highest, sound.recv.received, fun some => ?_,
    sound.send.within, sound.recv.within⟩
  obtain ⟨gap, isGap, isSeq, fits⟩ := sound.recv.hole (Nat.ne_of_gt some)
  have isSize : s.rxMax = 65535 := sound.recv.size
  have sameGap : (s.oooSeq - s.rcvNxt).toNat = gap := by
    have apart := @Seq.sub_toNat s.rcvNxt gap 0 (Nat.zero_le _) (by omega)
    rw [isSeq]
    simpa using apart
  rw [sameGap, isSeq, Seq.diff_base (by omega)]
  exact ⟨by omega, fits⟩

theorem runs_keep_socket_invariant (reached : Reaches tcpStep tcpCondition emptyStack stack) :
    ∀ entry ∈ stack.sockets, SocketInvariant entry.2 := by
  have initially : StackSound emptyStack :=
    ⟨fun _ member => (nomatch member), List.nodup_nil, fun _ member => (nomatch member)⟩
  have sound := reached.invariant initially fun _ _ sound condition => sound.step condition
  exact fun entry member => (sound.each entry member).invariant

/-- A client of port 80 whose handshake is over, at number 100 of the peer. -/
def openedCalls : List TcpCall :=
  [.create (fun _ => 0) (fun _ => 0), .connectStart 0 5 1 ⟨false, 9⟩ 80 [0] 0,
    .input 6 1 ⟨⟨false, 9⟩, 80, 49152, 99, 1, true, true, false, false, 65535, [], []⟩ (fun _ => 0)
    (fun _ => 0) 0]

theorem runs_keep_socket_invariant_hole : ∃ entry ∈ (runSteps tcpStep emptyStack (openedCalls ++
    [.send 0 7 9 [1, 2, 3],
      .input 8 1 ⟨⟨false, 9⟩, 80, 49152, 101, 3, false, true, false, false, 65535, [], [7]⟩ (fun _ => 0) (fun _ => 0) 0,
      .recv 0 10, .poll 2000 fun _ => 9])).sockets, SocketInvariant entry.2 := by
  obtain ⟨entry, member⟩ := List.exists_mem_of_ne_nil (runSteps tcpStep emptyStack (openedCalls ++
    [.send 0 7 9 [1, 2, 3],
      .input 8 1 ⟨⟨false, 9⟩, 80, 49152, 101, 3, false, true, false, false, 65535, [], [7]⟩
      (fun _ => 0) (fun _ => 0) 0, .recv 0 10, .poll 2000 fun _ => 9])).sockets
    (List.isEmpty_eq_false_iff.mp (by decide))
  exact ⟨entry, member, runs_keep_socket_invariant (Reaches.refl.runSteps (by decide)) entry member⟩

/-- The FIN at number 100 is taken while a byte with number 101 waits: the next number is then that
of the byte. -/
theorem fin_meets_hole : ¬ ∀ entry ∈ (runSteps tcpStep emptyStack (openedCalls ++
    [.input 7 1 ⟨⟨false, 9⟩, 80, 49152, 101, 1, false, true, false, false, 65535, [], [7]⟩ (fun _ => 0) (fun _ => 0) 0,
      .input 8 1 ⟨⟨false, 9⟩, 80, 49152, 100, 1, false, true, true, false, 65535, [], []⟩ (fun _ => 0) (fun _ => 0) 0])).sockets,
    SocketInvariant entry.2 := by
  intro every
  have shape : (runSteps tcpStep emptyStack (openedCalls ++
      [.input 7 1 ⟨⟨false, 9⟩, 80, 49152, 101, 1, false, true, false, false, 65535, [], [7]⟩ (fun _ => 0) (fun _ => 0) 0,
        .input 8 1 ⟨⟨false, 9⟩, 80, 49152, 100, 1, false, true, true, false, 65535, [], []⟩ (fun _ => 0) (fun _ => 0)
          0])).sockets.map (fun entry => (entry.2.oooLen, Seq.diff entry.2.oooSeq entry.2.rcvNxt)) = [(1, 0)] := by
    decide
  obtain ⟨entry, member, isShape⟩ := List.mem_map.mp (shape ▸ List.mem_singleton.mpr rfl)
  have hole := (every entry member).hole
  rw [Prod.mk.injEq] at isShape
  rw [isShape.1, isShape.2] at hole
  exact absurd (hole (by decide)).1 (by decide)

end Cos.Net
