import Cos.Net.TcpSound

/-! # What a TCP socket keeps when it receives -/

namespace Cos.Net

open Cos.Lib

variable {s s' s'' : TcpSocket} {now sends : Nat} {segment : TcpSegment}

theorem Seq.add_toNat_sub (a b : Seq) : b + BitVec.ofNat 32 (a - b).toNat = a := by
  bv_omega

theorem Seq.gap_pos {a b : Seq} (behind : Seq.diff b a < 0) : 0 < (a - b).toNat := by
  rw [Seq.diff, BitVec.toInt_eq_toNat_cond] at behind
  split at behind
  · omega
  · bv_omega

theorem keepHole_sound (sound : RecvSound s) (behind : Seq.diff s.rcvNxt segment.seq < 0) :
    RecvSound (s.keepHole segment) ∧ SameSender s (s.keepHole segment) ∧
    (s.keepHole segment).state = s.state := by
  have isSize : s.rxMax = 65535 := sound.size
  have isSeq := Seq.add_toNat_sub segment.seq s.rcvNxt
  have isGap := Seq.gap_pos behind
  obtain ⟨gap, sameGap⟩ : ∃ gap, (segment.seq - s.rcvNxt).toNat = gap := ⟨_, rfl⟩
  rw [sameGap] at isSeq isGap
  rw [TcpSocket.keepHole]
  simp only [sameGap]
  split
  case isFalse => exact ⟨sound, ⟨rfl, rfl, rfl, rfl, rfl, rfl, rfl, rfl⟩, rfl⟩
  case isTrue fits =>
    have within := Buffer.write_within sound.within fits.2
    split
    · refine ⟨⟨sound.received, sound.size, fun _ => ⟨gap, isGap, isSeq.symm, fits.2⟩, within⟩,
        ⟨rfl, rfl, rfl, rfl, rfl, rfl, rfl, rfl⟩, rfl⟩
    · rename_i isHole
      obtain ⟨held, isHeld, heldSeq, heldFits⟩ := sound.hole isHole
      split
      case isFalse => exact ⟨sound, ⟨rfl, rfl, rfl, rfl, rfl, rfl, rfl, rfl⟩, rfl⟩
      case isTrue touches =>
        obtain ⟨length, isLength⟩ : ∃ length, segment.data.length = length := ⟨_, rfl⟩
        rw [isLength] at fits touches ⊢
        rw [heldSeq, ← isSeq, Seq.add_ofNat, Seq.add_ofNat] at touches ⊢
        have isFirst : (if Seq.diff (s.rcvNxt + BitVec.ofNat 32 gap) (s.rcvNxt + BitVec.ofNat 32 held) < 0 then
            s.rcvNxt + BitVec.ofNat 32 gap else s.rcvNxt + BitVec.ofNat 32 held) =
            s.rcvNxt + BitVec.ofNat 32 (min gap held) := by
          rw [Seq.diff_near (by omega) (by omega)]
          split
          · rw [Nat.min_eq_left (by omega)]
          · rw [Nat.min_eq_right (by omega)]
        have isLast : (if 0 < Seq.diff (s.rcvNxt + BitVec.ofNat 32 (gap + length))
            (s.rcvNxt + BitVec.ofNat 32 (held + s.oooLen)) then s.rcvNxt +
            BitVec.ofNat 32 (gap + length) else s.rcvNxt + BitVec.ofNat 32 (held + s.oooLen)) =
            s.rcvNxt + BitVec.ofNat 32 (max (gap + length) (held + s.oooLen)) := by
          rw [Seq.diff_near (by omega) (by omega)]
          split
          · rw [Nat.max_eq_left (by omega)]
          · rw [Nat.max_eq_right (by omega)]
        rw [isFirst, isLast, Seq.sub_toNat (by omega) (by omega)]
        refine ⟨⟨sound.received, sound.size, fun _ => ⟨min gap held, by omega, rfl, ?_⟩, within⟩,
          ⟨rfl, rfl, rfl, rfl, rfl, rfl, rfl, rfl⟩, rfl⟩
        change s.rxLen + min gap held + (max (gap + length) (held + s.oooLen) - min gap held) ≤ s.rxMax
        omega

theorem closeHole_sound {base : Seq} {take : Nat} (isNext : s.rcvNxt = base + BitVec.ofNat 32 take)
    (taken : take ≤ s.rxLen) (received : s.rxLen ≤ s.rxMax) (isSize : s.rxMax = tcpWindowSize)
    (within : s.rx.overrun = false)
      (hole : s.oooLen ≠ 0 → ∃ gap, 0 < gap ∧ s.oooSeq = base + BitVec.ofNat 32 gap ∧
      s.rxLen - take + gap + s.oooLen ≤ s.rxMax) :
    RecvSound s.closeHole ∧ SameSender s s.closeHole ∧ s.closeHole.state = s.state ∧
      (s.closeHole.oooLen ≠ 0 → s.closeHole = s) := by
  have bound : s.rxMax = 65535 := isSize
  by_cases isHole : s.oooLen = 0
  · have same : s.closeHole = s := by
      rw [TcpSocket.closeHole, if_neg (fun both => both.1 isHole)]
    rw [same]
    exact ⟨⟨received, isSize, fun some => absurd isHole some, within⟩,
      ⟨rfl, rfl, rfl, rfl, rfl, rfl, rfl, rfl⟩, rfl, fun _ => rfl⟩
  · obtain ⟨gap, isGap, isSeq, fits⟩ := hole isHole
    have isDiff : Seq.diff s.oooSeq s.rcvNxt = gap - take := by
      rw [isSeq, isNext]
      exact Seq.diff_near (by omega) (by omega)
    rw [TcpSocket.closeHole, isDiff]
    by_cases reached : gap ≤ take
    · have isOverlap : (s.rcvNxt - s.oooSeq).toNat = take - gap := by
        rw [isSeq, isNext]
        exact Seq.sub_toNat reached (by omega)
      rw [if_pos ⟨isHole, by omega⟩, isOverlap]
      refine ⟨⟨?_, isSize, fun some => absurd rfl some, within⟩,
        ⟨rfl, rfl, rfl, rfl, rfl, rfl, rfl, rfl⟩, rfl, fun some => absurd rfl some⟩
      change s.rxLen + (s.oooLen - (take - gap)) ≤ s.rxMax
      omega
    · rw [if_neg (fun both => reached (by omega))]
      refine ⟨⟨received, isSize, fun _ => ⟨gap - take, by omega, ?_, by omega⟩, within⟩,
        ⟨rfl, rfl, rfl, rfl, rfl, rfl, rfl, rfl⟩, rfl, fun _ => rfl⟩
      rw [isSeq, isNext, Seq.add_ofNat, Nat.add_sub_cancel' (by omega)]

theorem takeBytes_sound {bytes : List UInt8} (sound : RecvSound s)
    (fits : bytes.length ≤ s.rxMax - s.rxLen) :
      RecvSound (s.takeBytes bytes).closeHole ∧ SameSender s (s.takeBytes bytes).closeHole ∧
      (s.takeBytes bytes).closeHole.state = s.state ∧
      ((s.takeBytes bytes).closeHole.oooLen ≠ 0 → s.oooLen ≠ 0 ∧ (s.takeBytes bytes).closeHole.oooSeq = s.oooSeq ∧
        (s.takeBytes bytes).closeHole.rcvNxt = s.rcvNxt + BitVec.ofNat 32 bytes.length) := by
  have room := sound.received
  have taken : (s.takeBytes bytes).rcvNxt = s.rcvNxt + BitVec.ofNat 32 bytes.length ∧
      (s.takeBytes bytes).rxLen = s.rxLen + bytes.length ∧ (s.takeBytes bytes).rxMax = s.rxMax ∧
      (s.takeBytes bytes).rx.overrun = false ∧ (s.takeBytes bytes).oooSeq = s.oooSeq ∧
      (s.takeBytes bytes).oooLen = s.oooLen ∧ SameSender s (s.takeBytes bytes) ∧
      (s.takeBytes bytes).state = s.state := by
    rw [TcpSocket.takeBytes]
    split
    · rename_i isEmpty
      subst isEmpty
      refine ⟨?_, rfl, rfl, sound.within, rfl, rfl, ⟨rfl, rfl, rfl, rfl, rfl, rfl, rfl, rfl⟩, rfl⟩
      exact (BitVec.add_zero _).symm
    · have fitsWrite : s.rxLen + bytes.length ≤ s.rxMax := by omega
      exact ⟨rfl, rfl, rfl, Buffer.write_within sound.within fitsWrite, rfl, rfl,
        ⟨rfl, rfl, rfl, rfl, rfl, rfl, rfl, rfl⟩, rfl⟩
  obtain ⟨isNext, isLen, isMax, within, isSeq, isHole, sender, sameState⟩ := taken
  obtain ⟨s₁, isTaken⟩ : ∃ s₁, s.takeBytes bytes = s₁ := ⟨_, rfl⟩
  rw [isTaken] at isNext isLen isMax within isSeq isHole sender sameState ⊢
  obtain ⟨closed, closedSender, closedState, stays⟩ :=
    @closeHole_sound s₁ s.rcvNxt bytes.length isNext (by omega)
    (by omega) (isMax.trans sound.size) within (by
      intro some
      obtain ⟨gap, isGap, gapSeq, gapFits⟩ := sound.hole (isHole ▸ some)
      exact ⟨gap, isGap, isSeq.trans gapSeq, by omega⟩)
  refine ⟨closed, ?_, closedState.trans sameState, fun some => ?_⟩
  · exact ⟨closedSender.tx.trans sender.tx, closedSender.txOff.trans sender.txOff,
      closedSender.txLen.trans sender.txLen, closedSender.txSent.trans sender.txSent,
      closedSender.sndUna.trans sender.sndUna, closedSender.sndMax.trans sender.sndMax,
      closedSender.finQueued.trans sender.finQueued, closedSender.finSent.trans sender.finSent⟩
  · have same := stays some
    rw [same] at some ⊢
    exact ⟨isHole ▸ some, isSeq, isNext⟩

theorem SameSender.trans (first : SameSender s s') (second : SameSender s' s'') :
    SameSender s s'' :=
  ⟨second.tx.trans first.tx, second.txOff.trans first.txOff, second.txLen.trans first.txLen,
    second.txSent.trans first.txSent, second.sndUna.trans first.sndUna,
    second.sndMax.trans first.sndMax, second.finQueued.trans first.finQueued,
    second.finSent.trans first.finSent⟩

theorem takeFin_sound (sound : RecvSound s) (apart : s.oooLen ≠ 0 → s.oooSeq ≠ s.rcvNxt + 1) :
    RecvSound (s.takeFin now) ∧ SameSender s (s.takeFin now) := by
  have base : RecvSound { s with rcvNxt := s.rcvNxt + 1 } := by
    refine ⟨sound.received, sound.size, fun some => ?_, sound.within⟩
    obtain ⟨gap, isGap, isSeq, fits⟩ := sound.hole some
    have behind : gap ≠ 1 := by
      intro isOne
      rw [isOne] at isSeq
      exact apart some isSeq
    refine ⟨gap - 1, by omega, ?_, ?_⟩
    · have split : s.rcvNxt + 1 + BitVec.ofNat 32 (gap - 1) = s.rcvNxt + BitVec.ofNat 32 (1 + (gap - 1)) :=
        Seq.add_ofNat s.rcvNxt 1 (gap - 1)
      exact isSeq.trans (by rw [split, Nat.add_sub_cancel' isGap])
    · change s.rxLen + (gap - 1) + s.oooLen ≤ s.rxMax
      omega
  rw [TcpSocket.takeFin]
  split <;> exact ⟨base.same ⟨rfl, rfl, rfl, rfl, rfl⟩, ⟨rfl, rfl, rfl, rfl, rfl, rfl, rfl, rfl⟩⟩

theorem takeFin_phase (phase : PhaseSound s) (takes : TcpSocket.takesData s.state = true) :
    PhaseSound (s.takeFin now) := by
  rw [TcpSocket.takeFin]
  split
  · rename_i isState
    refine ⟨fun isFin => ?_,
      fun opening => opening.elim (fun same => (nomatch same)) (fun same => (nomatch same))⟩
    exact absurd isState (phase.fin isFin).1
  · exact ⟨fun _ => ⟨fun same => (nomatch same), fun same => (nomatch same),
      fun same => (nomatch same),
      fun same => (nomatch same)⟩,
      fun opening => opening.elim (fun same => (nomatch same)) (fun same => (nomatch same))⟩
  · exact ⟨fun _ => ⟨fun same => (nomatch same), fun same => (nomatch same),
      fun same => (nomatch same),
      fun same => (nomatch same)⟩,
      fun opening => opening.elim (fun same => (nomatch same)) (fun same => (nomatch same))⟩
  · cases isState : s.state <;> simp_all [TcpSocket.takesData]

/-- The FIN of a segment is taken right before the block that waits.  The block then starts at the
next number. -/
def TcpSocket.finMeetsHole (segment : TcpSegment) (s : TcpSocket) : Bool :=
  TcpSocket.takesData s.state && decide (s.oooLen ≠ 0) && segment.isFin && segment.isAck &&
    !segment.isSyn && !segment.isRst &&
    decide (0 ≤ Seq.diff s.rcvNxt segment.seq ∧
      (Seq.diff s.rcvNxt segment.seq).toNat ≤ segment.data.length ∧
      segment.data.length - (Seq.diff s.rcvNxt segment.seq).toNat ≤ s.rxMax - s.rxLen ∧
      s.oooSeq = segment.seq + BitVec.ofNat 32 segment.data.length + 1)

theorem Seq.skip_eq {a b : Seq} (ahead : 0 ≤ Seq.diff a b) :
    a = b + BitVec.ofNat 32 (Seq.diff a b).toNat := by
  have same := Seq.add_toNat_sub a b
  have isDiff : (Seq.diff a b).toNat = (a - b).toNat := by
    rw [Seq.diff, BitVec.toInt_eq_toNat_cond] at ahead ⊢
    split
    · exact Int.toNat_natCast _
    · omega
  rw [isDiff, same]

theorem SocketSound.takeData (sound : SocketSound s) (takes : TcpSocket.takesData s.state = true)
    (ahead : 0 ≤ Seq.diff s.rcvNxt segment.seq)
    (inside : (Seq.diff s.rcvNxt segment.seq).toNat ≤ segment.data.length)
    (flags : segment.isAck = true ∧ segment.isSyn = false ∧ segment.isRst = false)
    (apart : s.finMeetsHole segment = false) :
    SocketSound (s.takeData now segment (Seq.diff s.rcvNxt segment.seq).toNat) := by
  have isNext := Seq.skip_eq ahead
  obtain ⟨skip, isSkip⟩ : ∃ skip, (Seq.diff s.rcvNxt segment.seq).toNat = skip := ⟨_, rfl⟩
  rw [isSkip] at inside isNext ⊢
  rw [TcpSocket.takeData]
  obtain ⟨take, isTake⟩ : ∃ take, min (segment.data.length - skip) (s.rxMax - s.rxLen) = take :=
    ⟨_, rfl⟩
  rw [isTake]
  have isCount : ((segment.data.drop skip).take take).length = take := by
    rw [List.length_take, List.length_drop]
    omega
  obtain ⟨taken, sender, sameState, stays⟩ :=
    @takeBytes_sound s ((segment.data.drop skip).take take) sound.recv (by omega)
  obtain ⟨s₁, isAfter⟩ : ∃ s₁, (s.takeBytes ((segment.data.drop skip).take take)).closeHole = s₁ :=
    ⟨_, rfl⟩
  rw [isAfter] at taken sender sameState stays ⊢
  have phase : PhaseSound s₁ := by
    refine ⟨?_, fun opening => ?_⟩
    · rw [sender.finQueued, sender.finSent, sameState]
      exact sound.phase.fin
    · rw [sameState] at opening
      obtain isState | isState := opening <;>
      · rw [isState] at takes
        cases takes
  split
  · rename_i isFin
    have clear : s₁.oooLen ≠ 0 → s₁.oooSeq ≠ s₁.rcvNxt + 1 := by
      intro some isBehind
      obtain ⟨isHole, sameSeq, sameNext⟩ := stays some
      have isEnd : s₁.rcvNxt = segment.seq + BitVec.ofNat 32 segment.data.length := by
        rw [sameNext, isNext, Seq.add_ofNat]
        congr 2
        omega
      rw [isEnd, sameSeq] at isBehind
      have meets : s.finMeetsHole segment = true := by
        simp only [TcpSocket.finMeetsHole, takes, isFin.1, flags, isHole, isSkip, ahead, inside, isBehind, Bool.and_eq_true,
          decide_eq_true_eq, ne_eq, not_false_eq_true, Bool.not_false, and_true, true_and]
        omega
      rw [meets] at apart
      cases apart
    obtain ⟨ended, endSender⟩ := @takeFin_sound s₁ now taken clear
    exact ⟨sound.send.same (sender.trans endSender), ended, takeFin_phase phase (sameState ▸ takes)⟩
  · exact ⟨sound.send.same sender, taken, phase⟩

def Resting (state : TcpState) : Prop :=
  state ≠ .established ∧ state ≠ .closeWait ∧ state ≠ .synSent ∧ state ≠ .synReceived

theorem SocketSound.rest (sound : SocketSound s) (sender : SameSender s s')
    (receiver : SameReceiver s s') (resting : Resting s'.state) : SocketSound s' :=
  ⟨sound.send.same sender, sound.recv.same receiver, fun _ => resting, fun opening =>
    absurd opening (not_or.mpr ⟨resting.2.2.1, resting.2.2.2⟩)⟩

theorem closed_resting : Resting .closed :=
  ⟨fun same => (nomatch same), fun same => (nomatch same), fun same => (nomatch same),
    fun same => (nomatch same)⟩

theorem SocketSound.inputData (sound : SocketSound s)
    (flags : segment.isAck = true ∧ segment.isSyn = false ∧
    segment.isRst = false) (apart : s.finMeetsHole segment = false) :
    SocketSound (s.inputData now segment).1 := by
  rw [TcpSocket.inputData]
  split
  · rename_i due
    dsimp only
    split
    · rename_i behind
      obtain ⟨kept, sender, sameState⟩ := @keepHole_sound s segment sound.recv behind
      refine ⟨sound.send.same sender, kept, ?_, fun opening => ?_⟩
      · rw [sender.finQueued, sender.finSent, sameState]
        exact sound.phase.fin
      · rw [sameState] at opening
        have takes := due.1
        obtain isState | isState := opening <;>
        · rw [isState] at takes
          cases takes
    · split
      · exact sound
      · exact sound.takeData due.1 (by omega) (by omega) flags apart
  · exact sound

theorem finMeetsHole_acks (acks : Acks s s') (apart : s.finMeetsHole segment = false) :
    s'.finMeetsHole segment = false := by
  have sameMax : s'.rxMax = s.rxMax := congrArg Buffer.size acks.receiver.rx
  cases meets : s'.finMeetsHole segment with
  | false => rfl
  | true =>
      rw [TcpSocket.finMeetsHole, acks.receiver.oooLen, acks.receiver.oooSeq, acks.receiver.rcvNxt,
        acks.receiver.rxLen, sameMax] at meets
      simp only [Bool.and_eq_true] at meets
      obtain ⟨⟨⟨⟨⟨⟨takes, isHole⟩, isFin⟩, isAck⟩, notSyn⟩, notRst⟩, isPlace⟩ := meets
      have before : s.finMeetsHole segment = true := by
        simp only [TcpSocket.finMeetsHole, Bool.and_eq_true]
        exact ⟨⟨⟨⟨⟨⟨acks.takes takes, isHole⟩, isFin⟩, isAck⟩, notSyn⟩, notRst⟩, isPlace⟩
      exact before.symm.trans apart

theorem SocketSound.inputOpen (sound : SocketSound s) (past : Synchronized s)
    (apart : s.finMeetsHole segment = false) : SocketSound (s.inputOpen now sends segment).1 := by
  rw [TcpSocket.inputOpen]
  split
  · exact sound
  · split
    · dsimp only
      split
      · exact sound.rest ⟨rfl, rfl, rfl, rfl, rfl, rfl, rfl, rfl⟩ ⟨rfl, rfl, rfl, rfl, rfl⟩ closed_resting
      · exact sound
    · rename_i notRst
      split
      · exact sound
      · rename_i notSyn
        split
        · exact sound
        · rename_i isAck
          obtain ⟨acked, acks⟩ := @SocketSound.processAck s now sends segment.ack segment.window
            (decide (segment.data = [] ∧ segment.isFin = false)) sound past
          dsimp only
          split
          · exact acked
          · refine acked.inputData ⟨?_, ?_, ?_⟩ (finMeetsHole_acks acks apart)
            · exact Bool.not_eq_false _ ▸ isAck
            · exact Bool.not_eq_true _ ▸ notSyn
            · exact Bool.not_eq_true _ ▸ notRst

theorem SocketSound.open (sound : SocketSound s)
    (opening : s.state = .synSent ∨ s.state = .synReceived)
    (sender : s'.tx = s.tx ∧ s'.txOff = s.txOff ∧ s'.txLen = s.txLen ∧ s'.txSent = s.txSent ∧
      s'.sndMax = s.sndMax ∧ s'.finQueued = s.finQueued ∧ s'.finSent = s.finSent)
    (acked : s'.sndUna = s.sndUna + 1)
    (receiver : s'.rx = s.rx ∧ s'.rxLen = s.rxLen ∧ s'.oooLen = s.oooLen)
    (isOpen : s'.state = .established) : SocketSound s' := by
  obtain ⟨sameTx, sameOff, sameLen, sameSent, sameMax, sameQueued, sameFin⟩ := sender
  obtain ⟨sameRx, sameRxLen, sameHole⟩ := receiver
  obtain ⟨isEmpty, noHole, isMax⟩ := sound.phase.opening opening
  have unfinished : s.finQueued = false ∧ s.finSent = false := by
    by_contra finished
    have isFin : s.finQueued = true ∨ s.finSent = true := by
      rw [not_and_or, Bool.not_eq_false, Bool.not_eq_false] at finished
      exact finished
    obtain ⟨-, -, notSent, notReceived⟩ := sound.phase.fin isFin
    exact opening.elim notSent notReceived
  have sent := sound.send.sent
  have sameTxMax : s'.txMax = s.txMax := congrArg Buffer.size sameTx
  have sameRxMax : s'.rxMax = s.rxMax := congrArg Buffer.size sameRx
  refine ⟨⟨?_, ?_, sameTxMax.trans sound.send.size, ⟨0, ?_, ?_, Nat.zero_le _⟩, ?_,
    sameTx ▸ sound.send.within⟩,
    ⟨?_, sameRxMax.trans sound.recv.size, fun some => ?_, sameRx ▸ sound.recv.within⟩, fun isFin =>
    ?_, fun opening => ?_⟩
  · rw [sameSent, sameLen]
    exact sent
  · rw [sameOff, sameLen, sameTxMax]
    exact sound.send.queue
  · rw [sameMax, acked, isMax]
    exact (BitVec.add_zero _).symm
  · rw [sameSent, sameFin, unfinished.2, Bool.toNat_false]
    omega
  · intro isFin
    rw [sameFin, unfinished.2] at isFin
    cases isFin
  · rw [sameRxLen, sameRxMax]
    exact sound.recv.received
  · rw [sameHole] at some
    exact absurd noHole some
  · rw [sameQueued, sameFin, unfinished.1, unfinished.2] at isFin
    exact absurd isFin (by simp)
  · rw [isOpen] at opening
    exact absurd opening (by simp)

theorem SocketSound.inputSynSent (sound : SocketSound s) (isState : s.state = .synSent) :
    SocketSound (s.inputSynSent now segment).1 := by
  rw [TcpSocket.inputSynSent]
  dsimp only
  split
  · exact sound
  · split
    · split
      · exact sound.rest ⟨rfl, rfl, rfl, rfl, rfl, rfl, rfl, rfl⟩ ⟨rfl, rfl, rfl, rfl, rfl⟩ closed_resting
      · exact sound
    · split
      · rename_i acks
        have isAck : segment.ack = s.sndUna + 1 := of_decide_eq_true (Bool.and_eq_true_iff.mp acks.2).2
        split <;>
        · rw [isAck]
          exact sound.open (.inl isState) ⟨rfl, rfl, rfl, rfl, rfl, rfl, rfl⟩ rfl ⟨rfl, rfl, rfl⟩ rfl
      · exact sound

theorem SocketSound.input (sound : SocketSound s) (apart : s.finMeetsHole segment = false) :
    SocketSound (s.input now sends segment).1 := by
  rw [TcpSocket.input]
  split
  · rename_i isState
    exact sound.inputSynSent isState
  · rename_i notSent
    split
    · rename_i isState
      split
      · dsimp only
        split
        · exact sound.rest ⟨rfl, rfl, rfl, rfl, rfl, rfl, rfl, rfl⟩ ⟨rfl, rfl, rfl, rfl, rfl⟩ closed_resting
        · exact sound
      · split
        · exact sound
        · split
          · rename_i acks
            obtain ⟨-, noHole, -⟩ := sound.phase.opening (.inr isState)
            have opened : SocketSound { s with
                sndUna := segment.ack, sndNxt := segment.ack, peerWnd := segment.window, rtxCount := 0, rtxAt := 0
                state := .established } :=
              sound.open (.inr isState) ⟨rfl, rfl, rfl, rfl, rfl, rfl, rfl⟩ acks.2 ⟨rfl, rfl, rfl⟩ rfl
            refine opened.inputOpen ⟨fun same => (nomatch same), fun same => (nomatch same)⟩ ?_
            simp [TcpSocket.finMeetsHole, noHole]
          · exact sound
    · rename_i notReceived
      exact sound.inputOpen ⟨notSent, notReceived⟩ apart

end Cos.Net
