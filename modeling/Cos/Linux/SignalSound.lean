import Cos.Linux.Signals

/-! # Signals are acted on once, and handlers come back

Every signal that became pending is acted on once, when it is not blocked, or discarded because it
is ignored; and a handler that returns through its frame leaves the thread as it found it.
-/

namespace Cos.Linux

open Cos.Lib

namespace SigEvent

def isRaised (s : Nat) : SigEvent → Bool
  | raised t => t == s
  | _ => false

def isActed (s : Nat) : SigEvent → Bool
  | acted t _ => t == s
  | _ => false

def isDiscarded (s : Nat) : SigEvent → Bool
  | discarded t _ => t == s
  | _ => false

end SigEvent

/-- How often a signal became pending, was acted on and was discarded. -/
def raisedCount (s : Nat) (events : List SigEvent) : Nat := events.countP (SigEvent.isRaised s)
def actedCount (s : Nat) (events : List SigEvent) : Nat := events.countP (SigEvent.isActed s)
def discardedCount (s : Nat) (events : List SigEvent) : Nat :=
  events.countP (SigEvent.isDiscarded s)

/-- The FPU image as the stub saves it: no reserved bits, and with `XSAVE` only the components in
`XCR0` and an empty header. -/
structure HardwareImage (xsave : Bool) (fpu : List UInt8) : Prop where
  size : fpu.length = 1024
  mxcsr : wordAt fpu 24 4 &&& mxcsrMask fpu = wordAt fpu 24 4
  components : xsave = true → wordAt fpu 512 8 &&& 7 = wordAt fpu 512 8
  header : xsave = true → (fpu.drop 520).take 56 = List.replicate 56 0

/-- The registers after the return: those saved, with the flags a program may set. -/
def restoredRegs (saved current : Regs) : Regs :=
  { saved with
    rflags := (saved.rflags &&& 0x0CD5) ||| 0x202
    intNo := current.intNo, errCode := current.errCode, cs := current.cs, ss := current.ss }

/-- A handler that returns through the frame as it was written leaves everything as it was. -/
def Restores (xsave : Bool) (d : Delivery) : Prop :=
  ∀ ctx luck, luck.memory = true → luck.stack = true → ctx.regs.rsp = d.sp + 8 →
    readBytes ctx.mem d.sp frameSize = d.frame →
    doSigreturn xsave luck ctx = .inr (d.blocked, restoredRegs d.saved ctx.regs, d.fpu)

/-- The frame of a handler stays as it is when another handler is started below it. -/
def Nests (d : Delivery) : Prop :=
  ∀ luck s nr res ctx p, ctx.fpu.length = 1024 → ctx.regs.rsp.toNat ≤ d.sp.toNat →
    readBytes (startHandler luck s nr res ctx p).2.mem d.sp frameSize =
    readBytes ctx.mem d.sp frameSize

def Deliverable (p : SigProc) (s : Nat) : Prop :=
  1 ≤ s ∧ s ≤ 64 ∧ p.pending.getLsbD (s - 1) = true ∧ p.blocked.getLsbD (s - 1) = false

/-- If a handler has to be started, its frame can be allocated and written. -/
def FrameFits (luck : SigLuck) (rsp : Word) (p : SigProc) : Prop :=
  (∃ s, Deliverable p s ∧ ignores s (p.actions s).handler = false ∧ (p.actions s).handler ≠ 0) →
    luck.memory = true ∧ (luck.stack && userRange (frameAt rsp) frameSize) = true

def Prompt (xsave : Bool) (p : SigProc) : Prop :=
  ∀ luck nr res ctx, HardwareImage xsave ctx.fpu → FrameFits luck ctx.regs.rsp p →
    (deliverSignals luck nr res ctx p).1.pending &&& ~~~(deliverSignals luck nr res ctx p).1.blocked = 0 ∨
      ∃ s, Deliverable p s ∧ (deliverSignals luck nr res ctx p).1.events.getLast? = some (.acted s p.blocked)

structure SignalsKept (xsave : Bool) (p : SigProc) : Prop where
  blocked : ∀ s mask, .acted s mask ∈ p.events → s ≠ 9 → s ≠ 19 → mask.getLsbD (s - 1) = false
  once : p.alive = true → ∀ s, 1 ≤ s → s ≤ 64 → raisedCount s p.events =
    actedCount s p.events + discardedCount s p.events + (p.pending.getLsbD (s - 1)).toNat
  atMost : ∀ s, 1 ≤ s → s ≤ 64 →
    actedCount s p.events + discardedCount s p.events ≤ raisedCount s p.events
  ignored : ∀ s handler, .discarded s handler ∈ p.events → ignores s handler = true
  prompt : p.alive = true → Prompt xsave p
  returns : ∀ d ∈ p.deliveries, Restores xsave d ∧ Nests d

/-- A signal sent by another process that ends the target at once is not blocked there, and
`SIGKILL` is in no mask. -/
def callAllowed (state : SigSystem) (step : SigStep) : Prop :=
  match step.call with
  | .sigaction _ _ (some (some action)) => action.mask.getLsbD 8 = false
  | .kill target sig => target ≠ step.proc → sig ≠ 9 → ∀ t, state.procs[target]? = some t →
      (t.actions sig).handler = 0 → sigDefaultEnds sig = true → t.blocked.getLsbD (sig - 1) = false
  | _ => True

/-- The FPU image comes from the hardware, and frames for handlers can be written. -/
def sigAllowed (state : SigSystem) (step : SigStep) : Prop :=
  callAllowed state step ∧ HardwareImage state.xsave step.ctx.fpu ∧
    ∀ p res after, state.procs[step.proc]? = some p →
      (sigCall state.xsave step p state.procs).2 = some res →
      (sigCall state.xsave step p state.procs).1[step.proc]? = some after →
      FrameFits step.luck step.ctx.regs.rsp (sigPollTimers step.now after)

section Bits

variable {set : Word} {s t : Nat}

theorem getLsbD_sigBit (s i : Nat) :
    (sigBit s).getLsbD i = (decide (s - 1 < 64) && decide (s - 1 = i)) := by
  rw [sigBit, BitVec.getLsbD_twoPow]

theorem getLsbD_raise (sLow : 1 ≤ s) (sHigh : s ≤ 64) (tLow : 1 ≤ t) :
    (set ||| sigBit s).getLsbD (t - 1) = (set.getLsbD (t - 1) || decide (s = t)) := by
  rw [BitVec.getLsbD_or, getLsbD_sigBit, decide_eq_true (show s - 1 < 64 by omega), Bool.true_and]
  congr 1
  apply decide_eq_decide.mpr
  omega

theorem getLsbD_clear (sLow : 1 ≤ s) (sHigh : s ≤ 64) (tLow : 1 ≤ t) (tHigh : t ≤ 64) :
    (set &&& ~~~(sigBit s)).getLsbD (t - 1) = (set.getLsbD (t - 1) && !decide (s = t)) := by
  rw [BitVec.getLsbD_and, BitVec.getLsbD_not, getLsbD_sigBit,
    decide_eq_true (show s - 1 < 64 by omega), decide_eq_true (show t - 1 < 64 by omega),
    Bool.true_and, Bool.true_and]
  congr 2
  apply decide_eq_decide.mpr
  omega

theorem lowestSignal_some (lowest : lowestSignal set = some s) :
    1 ≤ s ∧ s ≤ 64 ∧ set.getLsbD (s - 1) = true := by
  rw [lowestSignal, Option.map_eq_some_iff] at lowest
  obtain ⟨i, found, rfl⟩ := lowest
  have inside := List.mem_range.mp (List.mem_of_find?_eq_some found)
  exact ⟨by omega, by omega, by simpa using List.find?_some found⟩

theorem lowestSignal_none (none_ : lowestSignal set = none) : set = 0 := by
  rw [lowestSignal, Option.map_eq_none_iff] at none_
  apply BitVec.eq_of_getLsbD_eq
  intro i less
  have clear := List.find?_eq_none.mp none_ i (List.mem_range.mpr less)
  simpa using clear

end Bits

section Frames

variable {words : List Word} {rest bytes fpu : List UInt8} {k at_ width : Nat} {xsave : Bool}

theorem bytesOf_cons (word : Word) (words : List Word) :
    bytesOf (word :: words) = wordBytes 8 word.toNat ++ bytesOf words := rfl

theorem bytesOf_length (words : List Word) : (bytesOf words).length = 8 * words.length := by
  induction words with
  | nil => rfl
  | cons word rest ih =>
      rw [bytesOf_cons, List.length_append, wordBytes_length, ih, List.length_cons]
      omega

theorem frameWord_bytesOf {word : Word} (here : words[k]? = some word) :
    frameWord (bytesOf words ++ rest) k = word := by
  induction words generalizing k with
  | nil => simp at here
  | cons first others ih =>
      rw [bytesOf_cons, List.append_assoc]
      cases k with
      | zero =>
          rw [List.getElem?_cons_zero, Option.some.injEq] at here
          rw [frameWord, Nat.mul_zero, List.drop_zero, List.take_left' (wordBytes_length 8 _),
            wordValue_wordBytes first.isLt, BitVec.ofNat_toNat, BitVec.setWidth_eq, here]
      | succ k =>
          have later := ih here
          exact later

theorem setWord_wordAt (inside : at_ + width ≤ bytes.length) :
    setWord bytes at_ width (wordAt bytes at_ width) = bytes := by
  have length : ((bytes.drop at_).take width).length = width := by
    rw [List.length_take, List.length_drop]
    omega
  have same := wordBytes_wordValue ((bytes.drop at_).take width)
  rw [length] at same
  rw [setWord, wordAt, same, ← List.drop_drop, List.take_append_drop, List.take_append_drop]

theorem fpuSanitize_self (image : HardwareImage xsave fpu) : fpuSanitize xsave fpu = fpu := by
  have size := image.size
  rw [fpuSanitize]
  dsimp only
  rw [image.mxcsr, setWord_wordAt (by omega)]
  cases xsave with
  | false => rfl
  | true =>
      rw [if_pos rfl, image.components rfl, setWord_wordAt (by omega), ← image.header rfl,
        show fpu.drop 576 = (fpu.drop 520).drop 56 by rw [List.drop_drop], List.take_append_drop, List.take_append_drop]

theorem sub_add_word (a : Word) : a + 8 - 8 = a := BitVec.add_sub_cancel a 8

theorem sigFrame_restores {s : Nat} {restorer blocked sp : Word} {saved : Regs}
    (image : HardwareImage xsave fpu) (range : userRange sp frameSize = true)
    (unkillable : blocked.getLsbD 8 = false) :
    Restores xsave ⟨saved, fpu, blocked, sp, sigFrame s restorer saved blocked fpu⟩ := by
  intro ctx luck memory stack returns unmodified
  have words : ∀ k word, (restorer :: (saved.words ++ (blocked :: (BitVec.ofNat 64 s :: List.replicate 15 0) ++
      (List.replicate 5 0 ++ saved.gregs ++ List.replicate 41 0))))[k]? = some word →
      frameWord (sigFrame s restorer saved blocked fpu) k = word := fun k word here => frameWord_bytesOf here
  have image' : (sigFrame s restorer saved blocked fpu).drop 832 = fpu := by
    exact List.drop_left' (by rw [bytesOf_length]; rfl)
  have mask : blocked &&& ~~~(sigBit 9) = blocked := by
    apply BitVec.eq_of_getLsbD_eq
    intro i less
    rw [BitVec.getLsbD_and, BitVec.getLsbD_not, getLsbD_sigBit]
    rcases eq_or_ne i 8 with rfl | other
    · rw [unkillable, Bool.false_and]
    · simp [less, other.symm]
  rw [doSigreturn, if_neg (by simp [memory]), returns, sub_add_word,
    if_neg (by simp [stack, range]), unmodified]
  dsimp only
  rw [image', fpuSanitize_self image, words 23 blocked rfl, mask, words 45 saved.r8 rfl,
    words 46 saved.r9 rfl, words 47 saved.r10 rfl, words 48 saved.r11 rfl,
    words 49 saved.r12 rfl, words 50 saved.r13 rfl, words 51 saved.r14 rfl, words 52 saved.r15 rfl,
    words 53 saved.rdi rfl, words 54 saved.rsi rfl, words 55 saved.rbp rfl, words 56 saved.rbx rfl,
    words 57 saved.rdx rfl, words 58 saved.rax rfl, words 59 saved.rcx rfl, words 60 saved.rsp rfl,
    words 61 saved.rip rfl, words 62 saved.rflags rfl]
  rfl

theorem toNat_and_not_15 (v : Word) : (v &&& ~~~15).toNat = v.toNat / 16 * 16 := by
  have shifts : v &&& ~~~(15 : Word) = (v >>> 4) <<< 4 := by
    apply BitVec.eq_of_getLsbD_eq
    intro i less
    have fifteen : (15 : Word).getLsbD i = decide (i < 4) := by
      rw [show (15 : Word) = BitVec.ofNat 64 (2 ^ 4 - 1) from rfl, BitVec.getLsbD_ofNat, Nat.testBit_two_pow_sub_one]
      simp [less]
    rw [BitVec.getLsbD_and, BitVec.getLsbD_not, fifteen, BitVec.getLsbD_shiftLeft, BitVec.getLsbD_ushiftRight]
    rcases Nat.lt_or_ge i 4 with low | high
    · simp [low]
    · simp [less, Nat.not_lt.mpr high, Nat.add_sub_cancel' high]
  rw [shifts, BitVec.toNat_shiftLeft, BitVec.toNat_ushiftRight, Nat.shiftLeft_eq,
    Nat.shiftRight_eq_div_pow]
  omega

theorem frameAt_below {rsp : Word} (range : userRange (frameAt rsp) frameSize = true) :
    (frameAt rsp).toNat + frameSize + 128 ≤ rsp.toNat := by
  rw [userRange, decide_eq_true_eq] at range
  have size : frameSize = 1856 := rfl
  have start : (rsp - 144 - BitVec.ofNat 64 frameSize).toNat =
    (2 ^ 64 - 2000 + rsp.toNat) % 2 ^ 64 := by
    rw [size, BitVec.toNat_sub, BitVec.toNat_sub, show (144 : Word).toNat = 144 from rfl, BitVec.toNat_ofNat]
    omega
  have isAt : (frameAt rsp).toNat =
    ((2 ^ 64 - 2000 + rsp.toNat) % 2 ^ 64 / 16 * 16 + 8) % 2 ^ 64 := by
    rw [frameAt, BitVec.toNat_add, toNat_and_not_15, start]
    rfl
  omega

theorem readBytes_writeBytes {mem : Word → UInt8} {addr target : Word} {count : Nat}
    (below : target.toNat + bytes.length ≤ addr.toNat) (inside : addr.toNat + count ≤ 2 ^ 64) :
    readBytes (writeBytes mem target bytes) addr count = readBytes mem addr count := by
  apply List.map_congr_left
  intro i member
  rw [List.mem_range] at member
  rw [writeBytes, List.getElem?_eq_none]
  · rfl
  · rw [BitVec.toNat_sub, BitVec.toNat_add, BitVec.toNat_ofNat]
    omega

theorem startHandler_nests {d : Delivery} (range : userRange d.sp frameSize = true) : Nests d := by
  intro luck s nr res ctx p image below
  rw [startHandler]
  split
  · rename_i fits
    have under := frameAt_below (Bool.and_eq_true_iff.mp fits).2
    rw [userRange, decide_eq_true_eq] at range
    apply readBytes_writeBytes
    · rw [sigFrame, List.length_append, bytesOf_length, image]
      simp only [List.length_cons, List.length_append, Regs.words, Regs.gregs, List.length_replicate, List.length_nil]
      have size : frameSize = 1856 := rfl
      omega
    · omega
  · rfl

end Frames

section Process

variable {xsave : Bool} {p : SigProc} {s t : Nat} {luck : SigLuck} {nr res : Word}
  {ctx : UserContext}

structure SigInv (xsave : Bool) (p : SigProc) : Prop where
  blocked : ∀ s mask, .acted s mask ∈ p.events → s ≠ 9 → s ≠ 19 → mask.getLsbD (s - 1) = false
  once : p.alive = true → ∀ s, 1 ≤ s → s ≤ 64 → raisedCount s p.events =
    actedCount s p.events + discardedCount s p.events + (p.pending.getLsbD (s - 1)).toNat
  atMost : ∀ s, 1 ≤ s → s ≤ 64 →
    actedCount s p.events + discardedCount s p.events ≤ raisedCount s p.events
  ignored : ∀ s handler, .discarded s handler ∈ p.events → ignores s handler = true
  unblocked : p.blocked.getLsbD 8 = false
  masks : ∀ s, (p.actions s).mask.getLsbD 8 = false
  kill : (p.actions 9).handler = 0
  frames : ∀ d ∈ p.deliveries, Restores xsave d ∧ Nests d

theorem raisedCount_snoc (s t : Nat) (events : List SigEvent) :
    raisedCount s (events ++ [.raised t]) = raisedCount s events + (decide (t = s)).toNat ∧
      actedCount s (events ++ [.raised t]) = actedCount s events ∧
      discardedCount s (events ++ [.raised t]) = discardedCount s events := by
  simp only [raisedCount, actedCount, discardedCount, List.countP_append, List.countP_cons,
    List.countP_nil, SigEvent.isRaised, SigEvent.isActed, SigEvent.isDiscarded]
  rcases eq_or_ne t s with rfl | other
  · simp
  · simp [other]

theorem actedCount_snoc (s t : Nat) (mask : Word) (events : List SigEvent) :
    raisedCount s (events ++ [.acted t mask]) = raisedCount s events ∧
      actedCount s (events ++ [.acted t mask]) = actedCount s events + (decide (t = s)).toNat ∧
      discardedCount s (events ++ [.acted t mask]) = discardedCount s events := by
  simp only [raisedCount, actedCount, discardedCount, List.countP_append, List.countP_cons,
    List.countP_nil, SigEvent.isRaised, SigEvent.isActed, SigEvent.isDiscarded]
  rcases eq_or_ne t s with rfl | other
  · simp
  · simp [other]

theorem discardedCount_snoc (s t : Nat) (handler : Word) (events : List SigEvent) :
    raisedCount s (events ++ [.discarded t handler]) = raisedCount s events ∧
      actedCount s (events ++ [.discarded t handler]) = actedCount s events ∧
      discardedCount s (events ++ [.discarded t handler]) = discardedCount s events + (decide (t = s)).toNat := by
  simp only [raisedCount, actedCount, discardedCount, List.countP_append, List.countP_cons,
    List.countP_nil, SigEvent.isRaised, SigEvent.isActed, SigEvent.isDiscarded]
  rcases eq_or_ne t s with rfl | other
  · simp
  · simp [other]

theorem SigInv.raise (inv : SigInv xsave p) (low : 1 ≤ s) (high : s ≤ 64) :
    SigInv xsave { p with pending := p.pending ||| sigBit s, events := p.events ++ p.raising s } := by
  have counted : ∀ t, 1 ≤ t → raisedCount t (p.events ++ p.raising s) + (p.pending.getLsbD (t - 1)).toNat =
      raisedCount t p.events + ((p.pending ||| sigBit s).getLsbD (t - 1)).toNat ∧
      actedCount t (p.events ++ p.raising s) = actedCount t p.events ∧
      discardedCount t (p.events ++ p.raising s) = discardedCount t p.events ∧
      raisedCount t p.events ≤ raisedCount t (p.events ++ p.raising s) := by
    intro t tLow
    rw [SigProc.raising, getLsbD_raise low high tLow]
    cases set : p.pending.getLsbD (s - 1) with
    | true =>
        rcases eq_or_ne s t with rfl | other
        · simp [set]
        · simp [other]
    | false =>
        obtain ⟨raised, acted, discarded⟩ := raisedCount_snoc t s p.events
        simp only [Bool.false_eq_true, if_false, raised, acted, discarded, true_and]
        rcases eq_or_ne s t with rfl | other
        · simp [set]
        · simp [other]
  have listed : ∀ event, event ∈ p.events ++ p.raising s →
    event ∈ p.events ∨ event = .raised s := by
    intro event member
    rw [SigProc.raising] at member
    rcases List.mem_append.mp member with old | new
    · exact .inl old
    · split at new
      · contradiction
      · exact .inr (List.mem_singleton.mp new)
  refine ⟨fun t mask acted => ?_, fun alive t tLow tHigh => ?_, fun t tLow tHigh => ?_,
    fun t handler ignored => ?_, inv.unblocked, inv.masks, inv.kill, inv.frames⟩
  · exact inv.blocked t mask ((listed _ acted).resolve_right (by simp))
  · obtain ⟨raised, acted, discarded, _⟩ := counted t tLow
    have before := inv.once alive t tLow tHigh
    dsimp only
    omega
  · obtain ⟨_, acted, discarded, grows⟩ := counted t tLow
    have before := inv.atMost t tLow tHigh
    dsimp only
    omega
  · exact inv.ignored t handler ((listed _ ignored).resolve_right (by simp))

theorem SigInv.sigRaise (inv : SigInv xsave p) (s : Nat) : SigInv xsave (sigRaise s p) := by
  rw [Linux.sigRaise]
  split
  · exact inv
  · split
    · exact inv
    · exact inv.raise (by omega) (by omega)

theorem SigInv.alarm (inv : SigInv xsave p) (alarm : Nat) :
    SigInv xsave { p with alarm := alarm } :=
  ⟨inv.blocked, inv.once, inv.atMost, inv.ignored, inv.unblocked, inv.masks, inv.kill, inv.frames⟩

theorem SigInv.poll (inv : SigInv xsave p) (now : Nat) : SigInv xsave (sigPollTimers now p) := by
  rw [sigPollTimers]
  split
  · exact (inv.alarm 0).sigRaise 14
  · exact inv

theorem SigInv.mask (inv : SigInv xsave p) {blocked : Word}
    (unblocked : blocked.getLsbD 8 = false) : SigInv xsave { p with blocked := blocked } :=
  ⟨inv.blocked, inv.once, inv.atMost, inv.ignored, unblocked, inv.masks, inv.kill, inv.frames⟩

theorem SigInv.exits (inv : SigInv xsave p) : SigInv xsave { p with alive := false } :=
  ⟨inv.blocked, fun alive => by contradiction, inv.atMost, inv.ignored, inv.unblocked, inv.masks, inv.kill, inv.frames⟩

theorem SigInv.ends {pending : Word} (inv : SigInv xsave p) (alive : p.alive = true)
    (raised : p.pending.getLsbD (s - 1) = true)
    (unblocked : s ≠ 9 → p.blocked.getLsbD (s - 1) = false) :
    SigInv xsave (endBySignal s { p with pending := pending }) := by
  refine ⟨fun t mask acted notKill notStop => ?_,
    fun alive => by contradiction, fun t tLow tHigh => ?_,
    fun t handler ignored => ?_, inv.unblocked, inv.masks, inv.kill, inv.frames⟩
  · rcases List.mem_append.mp acted with old | new
    · exact inv.blocked t mask old notKill notStop
    · simp only [List.mem_singleton, SigEvent.acted.injEq] at new
      rw [new.1, new.2]
      exact unblocked (new.1 ▸ notKill)
  · obtain ⟨isRaised, isActed, isDiscarded⟩ := actedCount_snoc t s p.blocked p.events
    have before := inv.once alive t tLow tHigh
    simp only [endBySignal]
    rw [isRaised, isActed, isDiscarded]
    rcases eq_or_ne s t with rfl | other
    · rw [raised] at before
      simp only [decide_true, Bool.toNat_true] at before ⊢
      omega
    · simp only [other, decide_false, Bool.toNat_false]
      omega
  · exact inv.ignored t handler (by simpa [endBySignal] using ignored)

theorem SigInv.killNow (inv : SigInv xsave p) (alive : p.alive = true) (low : 1 ≤ s) (high : s ≤ 64)
    (unblocked : s ≠ 9 → p.blocked.getLsbD (s - 1) = false) : SigInv xsave (killNow s p) := by
  have raised := inv.raise low high
  have bit : (p.pending ||| sigBit s).getLsbD (s - 1) = true := by simp [getLsbD_raise low high low]
  have ended := @SigInv.ends xsave _ s p.pending raised alive bit unblocked
  rw [Linux.killNow, ← List.append_assoc]
  exact ended

theorem SigInv.killSelf (inv : SigInv xsave p) (alive : p.alive = true) :
    SigInv xsave (endBySignal 9 (Linux.sigRaise 9 p)) := by
  have isRaise : Linux.sigRaise 9 p =
    { p with pending := p.pending ||| sigBit 9, events := p.events ++ p.raising 9 } := by
    rw [Linux.sigRaise, if_neg (by decide), inv.kill, if_neg (by decide)]
  have bit : (p.pending ||| sigBit 9).getLsbD (9 - 1) = true := by
    rw [getLsbD_raise (by decide) (by decide) (by decide), decide_eq_true rfl, Bool.or_true]
  rw [isRaise]
  exact @SigInv.ends xsave _ 9 _ (inv.raise (by decide) (by decide)) alive bit (by simp)

theorem SigInv.discard {handler : Word} (inv : SigInv xsave p) (low : 1 ≤ s) (high : s ≤ 64)
    (raised : p.pending.getLsbD (s - 1) = true) (alive : p.alive = true)
    (ignored : ignores s handler = true) : SigInv xsave { p with
      pending := p.pending &&& ~~~(sigBit s), events := p.events ++ [.discarded s handler] } := by
  have counted : ∀ t, 1 ≤ t → t ≤ 64 → raisedCount t (p.events ++ [.discarded s handler]) =
      actedCount t (p.events ++ [.discarded s handler]) + discardedCount t (p.events ++
        [.discarded s handler]) + ((p.pending &&& ~~~(sigBit s)).getLsbD (t - 1)).toNat := by
    intro t tLow tHigh
    obtain ⟨isRaised, isActed, isDiscarded⟩ := discardedCount_snoc t s handler p.events
    have before := inv.once alive t tLow tHigh
    rw [isRaised, isActed, isDiscarded, getLsbD_clear low high tLow tHigh]
    rcases eq_or_ne s t with rfl | other
    · rw [raised] at before
      simp only [decide_true, Bool.not_true, Bool.and_false, Bool.toNat_true, Bool.toNat_false] at before ⊢
      omega
    · simp only [other, decide_false, Bool.not_false, Bool.and_true, Bool.toNat_false]
      omega
  refine ⟨fun t mask acted => ?_, fun _ => counted, fun t tLow tHigh => ?_,
    fun t other member => ?_, inv.unblocked, inv.masks, inv.kill, inv.frames⟩
  · exact inv.blocked t mask (by simpa using acted)
  · have here := counted t tLow tHigh
    dsimp only
    omega
  · rcases List.mem_append.mp member with old | new
    · exact inv.ignored t other old
    · simp only [List.mem_singleton, SigEvent.discarded.injEq] at new
      rw [new.1, new.2]
      exact ignored

theorem SigInv.act {action : SigAction} (inv : SigInv xsave p)
    (mask : action.mask.getLsbD 8 = false) (notKill : s = 9 → action.handler = 0) :
    SigInv xsave { p with actions := Function.update p.actions s action } := by
  refine ⟨inv.blocked, inv.once, inv.atMost, inv.ignored, inv.unblocked, fun t => ?_, ?_,
    inv.frames⟩
  · dsimp only
    rcases eq_or_ne t s with rfl | other
    · rw [Function.update_self]
      exact mask
    · rw [Function.update_of_ne other]
      exact inv.masks t
  · dsimp only
    rcases eq_or_ne 9 s with same | other
    · rw [← same, Function.update_self]
      exact notKill same.symm
    · rw [Function.update_of_ne other]
      exact inv.kill

theorem SigInv.handles (inv : SigInv xsave p) (alive : p.alive = true)
    (deliverable : Deliverable p s) (handler : (p.actions s).handler ≠ 0)
    (image : HardwareImage xsave ctx.fpu)
    (fits : (luck.stack && userRange (frameAt ctx.regs.rsp) frameSize) = true) :
    SigInv xsave (startHandler luck s nr res ctx { p with pending := p.pending &&& ~~~(sigBit s) }).1 ∧
      (startHandler luck s nr res ctx { p with pending := p.pending &&& ~~~(sigBit s) }).1.events =
        p.events ++ [.acted s p.blocked] := by
  obtain ⟨low, high, raised, unblocked⟩ := deliverable
  have notKill : s ≠ 9 := by
    rintro rfl
    exact handler inv.kill
  rw [startHandler]
  rw [if_pos fits]
  have counted : ∀ t, 1 ≤ t → t ≤ 64 → raisedCount t (p.events ++ [.acted s p.blocked]) =
      actedCount t (p.events ++ [.acted s p.blocked]) + discardedCount t (p.events ++
        [.acted s p.blocked]) + ((p.pending &&& ~~~(sigBit s)).getLsbD (t - 1)).toNat := by
    intro t tLow tHigh
    obtain ⟨isRaised, isActed, isDiscarded⟩ := actedCount_snoc t s p.blocked p.events
    have before := inv.once alive t tLow tHigh
    rw [isRaised, isActed, isDiscarded, getLsbD_clear low high tLow tHigh]
    rcases eq_or_ne s t with rfl | other
    · rw [raised] at before
      simp only [decide_true, Bool.not_true, Bool.and_false, Bool.toNat_true, Bool.toNat_false] at before ⊢
      omega
    · simp only [other, decide_false, Bool.not_false, Bool.and_true, Bool.toNat_false]
      omega
  have reset : ∀ t, ((if (p.actions s).flags &&& saResethand ≠ 0 then
      Function.update p.actions s { p.actions s with handler := 0 } else p.actions) t).mask = (p.actions t).mask := by
    intro t
    split
    · rcases eq_or_ne t s with rfl | other
      · rw [Function.update_self]
      · rw [Function.update_of_ne other]
    · rfl
  refine ⟨⟨fun t mask acted notKill' notStop => ?_, fun _ => counted, fun t tLow tHigh => ?_,
    fun t other member => ?_, ?_, fun t => ?_, ?_, fun d member => ?_⟩, rfl⟩
  · rcases List.mem_append.mp acted with old | new
    · exact inv.blocked t mask old notKill' notStop
    · simp only [List.mem_singleton, SigEvent.acted.injEq] at new
      rw [new.1, new.2]
      exact unblocked
  · have here := counted t tLow tHigh
    dsimp only
    omega
  · exact inv.ignored t other (by simpa using member)
  · rw [BitVec.getLsbD_or, BitVec.getLsbD_or, inv.unblocked, inv.masks s, Bool.false_or, Bool.false_or]
    split
    · simp
    · rw [getLsbD_sigBit]
      simp only [Bool.and_eq_false_iff, decide_eq_false_iff_not]
      omega
  · rw [reset]
    exact inv.masks t
  · dsimp only
    split
    · rw [Function.update_of_ne notKill.symm]
      exact inv.kill
    · exact inv.kill
  · rcases List.mem_append.mp member with old | new
    · exact inv.frames d old
    · rw [List.mem_singleton.mp new]
      exact ⟨sigFrame_restores image (Bool.and_eq_true_iff.mp fits).2 inv.unblocked,
        startHandler_nests (Bool.and_eq_true_iff.mp fits).2⟩

theorem lowestSignal_clear {set : Word} (lowest : lowestSignal set = some s) {i : Nat}
    (less : i < s - 1) : set.getLsbD i = false := by
  rw [lowestSignal, Option.map_eq_some_iff] at lowest
  obtain ⟨k, found, rfl⟩ := lowest
  obtain ⟨_, _, below⟩ := List.find?_range_eq_some.mp found
  simpa using below i (by omega)

theorem SigInv.deliverLoop {rounds : Nat} (inv : SigInv xsave p) (alive : p.alive = true)
    (image : HardwareImage xsave ctx.fpu) (fits : FrameFits luck ctx.regs.rsp p)
    (enough : rounds ≤ 64)
    (clear : ∀ i < 64 - rounds, (p.pending &&& ~~~p.blocked).getLsbD i = false) : SigInv xsave (Linux.deliverLoop luck nr res ctx rounds p).1 ∧
      ((Linux.deliverLoop luck nr res ctx rounds p).1.pending &&&
          ~~~(Linux.deliverLoop luck nr res ctx rounds p).1.blocked = 0 ∨
        ∃ s, Deliverable p s ∧
          (Linux.deliverLoop luck nr res ctx rounds p).1.events.getLast? = some (.acted s p.blocked)) := by
  induction rounds generalizing p with
  | zero =>
      rw [Linux.deliverLoop]
      refine ⟨inv, .inl (BitVec.eq_of_getLsbD_eq fun i less => ?_)⟩
      rw [clear i (by omega)]
      simp
  | succ rounds ih =>
      rw [Linux.deliverLoop]
      cases lowest : lowestSignal (p.pending &&& ~~~p.blocked) with
      | none => exact ⟨inv, .inl (lowestSignal_none lowest)⟩
      | some s =>
          obtain ⟨low, high, bit⟩ := lowestSignal_some lowest
          have bits := bit
          rw [BitVec.getLsbD_and, BitVec.getLsbD_not, Bool.and_eq_true_iff, Bool.and_eq_true_iff] at bits
          have deliverable : Deliverable p s := ⟨low, high, bits.1, by simpa using bits.2.2⟩
          dsimp only
          split
          · rename_i ignored
            have taken : ∀ t, 1 ≤ t → t ≤ 64 → (p.pending &&& ~~~(sigBit s)).getLsbD (t - 1) =
                true → p.pending.getLsbD (t - 1) = true := by
              intro t tLow tHigh set
              rw [getLsbD_clear low high tLow tHigh, Bool.and_eq_true_iff] at set
              exact set.1
            have next := @ih { p with
                pending := p.pending &&& ~~~(sigBit s), events := p.events ++ [.discarded s (p.actions s).handler] }
              (inv.discard low high bits.1 alive ignored) alive ?_ (by omega) ?_
            · obtain ⟨keeps, settles⟩ := next
              refine ⟨keeps, settles.imp_right ?_⟩
              rintro ⟨t, ⟨tLow, tHigh, set, unblocked⟩, last⟩
              exact ⟨t, ⟨tLow, tHigh, taken t tLow tHigh set, unblocked⟩, last⟩
            · rintro ⟨t, ⟨tLow, tHigh, set, unblocked⟩, handled⟩
              exact fits ⟨t, ⟨tLow, tHigh, taken t tLow tHigh set, unblocked⟩, handled⟩
            · intro i less
              have here := clear i
              have below := @lowestSignal_clear s _ lowest i
              have set := @getLsbD_clear p.pending s (i + 1) low high (by omega) (by omega)
              rw [Nat.add_sub_cancel] at set
              rw [BitVec.getLsbD_and, BitVec.getLsbD_not] at here below ⊢
              rw [set]
              rcases Nat.lt_trichotomy i (s - 1) with lower | same | higher
              · rw [Bool.and_assoc, Bool.and_comm (!_), ← Bool.and_assoc, below lower, Bool.false_and]
              · simp [show s = i + 1 by omega]
              · -- the lowest signal is not below the rounds left
                rw [clear (s - 1) (by omega)] at bit
                contradiction
          · rename_i notIgnored
            split
            · have ended := @SigInv.ends xsave p s (p.pending &&& ~~~(sigBit s)) inv alive
                bits.1 fun _ => deliverable.2.2.2
              exact ⟨ended, .inr ⟨s, deliverable, by simp [endBySignal]⟩⟩
            · rename_i handler
              obtain ⟨memory, stack⟩ := fits ⟨s, deliverable, by simpa using notIgnored, handler⟩
              rw [if_neg (by simp [memory])]
              obtain ⟨keeps, events⟩ := @SigInv.handles xsave p s luck nr res ctx inv alive deliverable handler image stack
              exact ⟨keeps, .inr ⟨s, deliverable, by simp [events]⟩⟩

theorem SigInv.sigaction {oldWritable : Bool} {act : Option (Option SigAction)}
    (inv : SigInv xsave p) (alive : p.alive = true)
    (masks : ∀ action, act = some (some action) → action.mask.getLsbD 8 = false) :
    SigInv xsave (sigactionCall s oldWritable act p).1 ∧
    (sigactionCall s oldWritable act p).1.alive = true := by
  unfold sigactionCall
  split
  · exact ⟨inv, alive⟩
  · split
    · exact ⟨inv, alive⟩
    · cases act with
      | none => exact ⟨inv, alive⟩
      | some given =>
          cases given with
          | none => exact ⟨inv, alive⟩
          | some action =>
              have acting := @SigInv.act xsave p s action inv (masks action rfl) (by omega)
              dsimp only
              split
              · rename_i ignored
                cases set : p.pending.getLsbD (s - 1) with
                | true =>
                    exact ⟨acting.discard (by omega) (by omega) set alive ignored, alive⟩
                | false =>
                    have same : p.pending &&& ~~~(sigBit s) = p.pending := by
                      apply BitVec.eq_of_getLsbD_eq
                      intro i less
                      rcases eq_or_ne i (s - 1) with rfl | other
                      · rw [BitVec.getLsbD_and, set, Bool.false_and]
                      · rw [BitVec.getLsbD_and, BitVec.getLsbD_not, getLsbD_sigBit]
                        simp [less, other.symm]
                    rw [if_neg (by simp), List.append_nil, same]
                    exact ⟨acting, alive⟩
              · exact ⟨acting, alive⟩

theorem SigInv.sigprocmask {how : Nat} {oldWritable : Bool} {set : Option (Option Word)}
    (inv : SigInv xsave p) : SigInv xsave (sigprocmaskCall how oldWritable set p).1 ∧
      (sigprocmaskCall how oldWritable set p).1.alive = p.alive := by
  have masked : ∀ blocked : Word,
    SigInv xsave { p with blocked := blocked &&& ~~~(sigBit 9 ||| sigBit 19) } := by
    intro blocked
    apply inv.mask
    rw [BitVec.getLsbD_and, BitVec.getLsbD_not, BitVec.getLsbD_or, getLsbD_sigBit]
    simp
  unfold sigprocmaskCall
  split
  · exact ⟨inv, rfl⟩
  · cases set with
    | none => exact ⟨inv, rfl⟩
    | some given =>
        cases given with
        | none => exact ⟨inv, rfl⟩
        | some set =>
            dsimp only
            split
            · exact ⟨masked _, rfl⟩
            · exact ⟨masked _, rfl⟩
            · exact ⟨masked _, rfl⟩
            · exact ⟨inv, rfl⟩

theorem doSigreturn_mask {restored : Word × Regs × List UInt8}
    (returned : doSigreturn xsave luck ctx = .inr restored) : restored.1.getLsbD 8 = false := by
  rw [doSigreturn] at returned
  split at returned
  · contradiction
  · split at returned
    · contradiction
    · rw [← Sum.inr.inj returned, BitVec.getLsbD_and, BitVec.getLsbD_not, getLsbD_sigBit]
      simp

theorem sigRaise_alive (s : Nat) (p : SigProc) : (sigRaise s p).alive = p.alive := by
  rw [sigRaise]
  split
  · rfl
  · split <;> rfl

end Process

section System

variable {xsave : Bool} {procs : List SigProc} {p q : SigProc} {i : Nat} {turn : SigStep}
  {start state : SigSystem}

def SigAll (xsave : Bool) (procs : List SigProc) : Prop := ∀ p ∈ procs, SigInv xsave p

theorem SigAll.set (all : SigAll xsave procs) (inv : SigInv xsave p) :
    SigAll xsave (procs.set i p) := by
  intro q member
  rcases List.mem_or_eq_of_mem_set member with old | rfl
  · exact all q old
  · exact inv

theorem SigAll.modify {f : SigProc → SigProc} (all : SigAll xsave procs)
    (changed : ∀ t, procs[i]? = some t → SigInv xsave (f t)) : SigAll xsave (procs.modify i f) := by
  intro q member
  obtain ⟨k, here⟩ := List.mem_iff_getElem?.mp member
  rw [List.getElem?_modify] at here
  cases old : procs[k]? with
  | none => simp [old] at here
  | some t =>
      rw [old, Option.map_eq_map, Option.map_some, Option.some.injEq] at here
      split at here
      · rename_i same
        rw [← here]
        exact changed t (same ▸ old)
      · rw [← here]
        exact all t (List.mem_of_getElem? old)

theorem SigAll.notify (all : SigAll xsave procs) (p : SigProc) :
    SigAll xsave (notifyParent p procs) := by
  rw [notifyParent]
  split
  · exact all
  · exact all.modify fun t here => (all t (List.mem_of_getElem? here)).sigRaise 17

theorem modify_alive {f : SigProc → SigProc} {k : Nat} (keeps : ∀ t, (f t).alive = t.alive)
    (alive : ∀ p, procs[i]? = some p → p.alive = true) (here : (procs.modify k f)[i]? = some q) :
    q.alive = true := by
  rw [List.getElem?_modify] at here
  cases old : procs[i]? with
  | none => simp [old] at here
  | some t =>
      rw [old, Option.map_eq_map, Option.map_some, Option.some.injEq] at here
      rw [← here]
      split
      · rw [keeps]
        exact alive t old
      · exact alive t old

theorem notify_alive (alive : ∀ p, procs[i]? = some p → p.alive = true)
    (here : (notifyParent p procs)[i]? = some q) : q.alive = true := by
  rw [notifyParent] at here
  split at here
  · exact alive q here
  · exact modify_alive (sigRaise_alive 17) alive here

/-- What a call leaves: sound processes, and the caller alive if the call returns. -/
structure CallDone (xsave : Bool) (i : Nat) (done : List SigProc × Option Word) : Prop where
  all : SigAll xsave done.1
  returns : ∀ res q, done.2 = some res → done.1[i]? = some q → q.alive = true

theorem killCall_done {target sig : Nat} (all : SigAll xsave procs) (here : procs[i]? = some p)
    (alive : p.alive = true) (allowed : target ≠ i → sig ≠ 9 → ∀ t, procs[target]? = some t → (t.actions sig).handler = 0 →
      sigDefaultEnds sig = true → t.blocked.getLsbD (sig - 1) = false) :
    CallDone xsave i (killCall i target sig procs) := by
  have caller : ∀ q, procs[i]? = some q → q.alive = true := by
    intro q found
    rw [here, Option.some.injEq] at found
    exact found ▸ alive
  have same : CallDone xsave i (procs, some (-3)) := ⟨all, fun _ q _ => caller q⟩
  rw [killCall]
  split
  · exact ⟨all, fun _ q _ => caller q⟩
  · cases found : procs[target]? with
    | none => exact same
    | some t =>
        have inv := all t (List.mem_of_getElem? found)
        have raised : SigAll xsave (procs.modify target (sigRaise sig)) :=
          all.modify fun t here => (all t (List.mem_of_getElem? here)).sigRaise sig
        dsimp only
        split
        · exact same
        · rename_i isAlive
          have tAlive : t.alive = true := by simpa using isAlive
          split
          · exact ⟨all, fun _ q _ => caller q⟩
          · split
            · rename_i self
              split
              · rename_i isKill
                refine ⟨SigAll.notify ?_ t, fun res q returns => by contradiction⟩
                rw [isKill, List.modify_modify_eq]
                refine all.modify fun u isU => ?_
                rw [self, here, Option.some.injEq] at isU
                have own := all p (List.mem_of_getElem? here)
                exact isU ▸ own.killSelf alive
              · exact ⟨raised, fun _ q _ => modify_alive (sigRaise_alive sig) caller⟩
            · rename_i other
              split
              · rename_i atOnce
                refine ⟨SigAll.notify (all.modify fun u isU => ?_) t, fun res q _ => notify_alive fun r found => ?_⟩
                · rw [found, Option.some.injEq] at isU
                  rw [← isU]
                  refine inv.killNow tAlive (by omega) (by omega) fun notKill => ?_
                  obtain ⟨default_, ends⟩ := atOnce.resolve_left notKill
                  exact allowed other notKill t found default_ ends
                · rw [List.getElem?_modify_ne _ _ other] at found
                  exact caller r found
              · exact ⟨raised, fun _ q _ => modify_alive (sigRaise_alive sig) caller⟩

theorem sigCall_done (all : SigAll xsave procs) (here : procs[turn.proc]? = some p)
    (alive : p.alive = true) (allowed : callAllowed ⟨xsave, procs⟩ turn) :
    CallDone xsave turn.proc (sigCall xsave turn p procs) := by
  have inv := all p (List.mem_of_getElem? here)
  have inside := (List.getElem?_eq_some_iff.mp here).1
  have own : ∀ after : SigProc, SigInv xsave after → after.alive = true →
      ∀ res, CallDone xsave turn.proc (procs.set turn.proc after, res) := by
    intro after sound still res
    refine ⟨all.set sound, fun _ q _ found => ?_⟩
    rw [List.getElem?_set_self inside, Option.some.injEq] at found
    exact found ▸ still
  have caller : ∀ res : Option Word, CallDone xsave turn.proc (procs, res) := by
    refine fun res => ⟨all, fun _ q _ found => ?_⟩
    rw [here, Option.some.injEq] at found
    exact found ▸ alive
  rw [callAllowed] at allowed
  rw [sigCall]
  cases isCall : turn.call with
  | sigaction sg oldWritable act =>
      rw [isCall] at allowed
      obtain ⟨sound, still⟩ := @SigInv.sigaction xsave p sg oldWritable act inv alive (by
        rintro action rfl
        exact allowed)
      exact own _ sound still _
  | sigprocmask how oldWritable set =>
      obtain ⟨sound, still⟩ := @SigInv.sigprocmask xsave p how oldWritable set inv
      exact own _ sound (still.trans alive) _
  | kill target sig =>
      rw [isCall] at allowed
      exact killCall_done all here alive allowed
  | alarm seconds =>
      exact own _ (inv.alarm (if seconds = 0 then 0 else (turn.now + 1000 * seconds) % 2 ^ 64)) alive _
  | setitimer seconds micros =>
      dsimp only
      obtain ⟨due, isDue⟩ : ∃ due, (if (1000 * seconds + micros / 1000) % 2 ^ 64 = 0 then 0
        else (turn.now + (1000 * seconds + micros / 1000) % 2 ^ 64) % 2 ^ 64) = due := ⟨_, rfl⟩
      rw [isDue]
      exact own _ (inv.alarm due) alive _
  | sigreturn =>
      cases returned : doSigreturn xsave turn.luck turn.ctx with
      | inl error => exact caller _
      | inr restored => exact own _ (inv.mask (doSigreturn_mask returned)) alive _
  | other result => exact caller _
  | exit => exact ⟨SigAll.notify (all.set inv.exits) p, fun res q returns => by contradiction⟩

theorem sigPollTimers_alive (now : Nat) (p : SigProc) : (sigPollTimers now p).alive = p.alive := by
  rw [sigPollTimers]
  split
  · rw [sigRaise_alive]
  · rfl

theorem SigAll.step (all : SigAll state.xsave state.procs) (allowed : sigAllowed state turn) :
    SigAll state.xsave (sigStep state turn).procs := by
  rw [sigStep]
  cases found : (state.procs[turn.proc]?).filter fun p => p.alive with
  | none => exact all
  | some p =>
      obtain ⟨here, alive⟩ := Option.filter_eq_some_iff.mp found
      obtain ⟨callAllowed, image, fits⟩ := allowed
      have done := sigCall_done all here alive callAllowed
      dsimp only
      cases isRes : (sigCall state.xsave turn p state.procs).2 with
      | none => exact done.all
      | some res =>
          dsimp only
          rw [syscallReturn]
          cases isAfter : (sigCall state.xsave turn p state.procs).1[turn.proc]? with
          | none => exact done.all
          | some after =>
              have polled := (done.all after (List.mem_of_getElem? isAfter)).poll turn.now
              have still := done.returns res after isRes isAfter
              have delivered := @SigInv.deliverLoop state.xsave (sigPollTimers turn.now after)
                turn.luck turn.ctx.regs.rax res
                { turn.ctx with regs := { turn.ctx.regs with
                  rax := res, rcx := turn.ctx.regs.rip + 2, r11 := turn.ctx.regs.rflags, rip := turn.ctx.regs.rip + 2 } }
                64 polled ((sigPollTimers_alive turn.now after).trans still) image
                (fits p res after here isRes isAfter) le_rfl (by simp)
              dsimp only
              split
              · exact done.all.set delivered.1
              · exact SigAll.notify (done.all.set delivered.1) _

theorem SigInv.kept (inv : SigInv xsave p) : SignalsKept xsave p where
  blocked := inv.blocked
  once := inv.once
  atMost := inv.atMost
  ignored := inv.ignored
  prompt alive luck nr res ctx image fits := (inv.deliverLoop alive image fits le_rfl (by simp)).2
  returns := inv.frames

theorem sigStep_xsave (state : SigSystem) (turn : SigStep) :
    (sigStep state turn).xsave = state.xsave := by
  rw [sigStep]
  split <;> rfl

/-- In every run of system calls, a signal is acted on only when it is not blocked, once each time
it became pending, and a handler that returns through its frame restores the thread. -/
theorem signals_kept (initially : SigAll start.xsave start.procs)
    (reached : Reaches sigStep sigAllowed start state) :
    ∀ p ∈ state.procs, SignalsKept state.xsave p := by
  have sound : SigAll state.xsave state.procs := by
    refine @Reaches.invariant _ _ _ _ _ _ (fun state => SigAll state.xsave state.procs) reached
      initially fun before turn all allowed => ?_
    rw [sigStep_xsave]
    exact all.step allowed
  exact fun p member => (sound p member).kept

def freshProc : SigProc :=
  ⟨fun _ => ⟨0, 0, 0, 0⟩, 0, 0, 0, true, none, [], []⟩

theorem freshProc_inv (xsave : Bool) : SigInv xsave freshProc := by
  refine ⟨by simp [freshProc], fun _ s _ _ => ?_, fun s _ _ => le_rfl, by simp [freshProc], by decide, fun _ => ?_, rfl,
    by simp [freshProc]⟩
  · simp [freshProc, raisedCount, actedCount, discardedCount]
  · simp [freshProc]

def exampleContext (rsp : Word) : UserContext :=
  ⟨⟨0, 0, 0, 0, 0, 0, 0, 0, 0, 0, 0, 0, 0, 0, 0, 0, 0, 0x8000001000, 0, 0x202, rsp, 0⟩,
    List.replicate 1024 0, fun _ => 0⟩

/-- A handler for signal 10 is installed and the process sends itself that signal. -/
def handlerRun : List SigStep :=
  [⟨0, exampleContext 0x9000000000, 0, ⟨true, true⟩,
    .sigaction 10 true (some (some ⟨0x8000002000, 0, 0x8000003000, 0⟩))⟩,
    ⟨0, exampleContext 0x9000000000, 0, ⟨true, true⟩, .kill 0 10⟩]

theorem exampleContext_image (rsp : Word) : HardwareImage true (exampleContext rsp).fpu := by
  refine ⟨List.length_replicate, ?_, fun _ => ?_, fun _ => ?_⟩
  · show wordAt (List.replicate 1024 0) 24 4 &&& mxcsrMask (List.replicate 1024 0) = wordAt (List.replicate 1024 0) 24 4
    decide
  · show wordAt (List.replicate 1024 0) 512 8 &&& 7 = wordAt (List.replicate 1024 0) 512 8
    set_option maxRecDepth 100000 in decide
  · show ((List.replicate 1024 (0 : UInt8)).drop 520).take 56 = List.replicate 56 0
    set_option maxRecDepth 100000 in decide

theorem signals_kept_handler :
    (∀ p ∈ (runSteps sigStep ⟨true, [freshProc]⟩ handlerRun).procs, SignalsKept true p) ∧
      ∃ p ∈ (runSteps sigStep ⟨true, [freshProc]⟩ handlerRun).procs, p.events = [.raised 10, .acted 10 0] := by
  have fresh : SigAll true [freshProc] := by
    intro p member
    rw [List.mem_singleton.mp member]
    exact freshProc_inv true
  refine ⟨@signals_kept ⟨true,
    [freshProc]⟩ _ fresh (Reaches.runSteps .refl ⟨⟨?_, exampleContext_image _, ?_⟩,
    ⟨?_, exampleContext_image _, ?_⟩, trivial⟩), by decide⟩
  · show (0 : Word).getLsbD 8 = false
    decide
  · exact fun _ _ _ _ _ _ _ => ⟨rfl, by decide⟩
  · exact fun other => absurd rfl other
  · exact fun _ _ _ _ _ _ _ => ⟨rfl, by decide⟩

def blockedKill : List SigStep :=
  [⟨1, exampleContext 0x9000000000, 0, ⟨true, true⟩, .sigprocmask 0 true (some (some (sigBit 15)))⟩,
    ⟨0, exampleContext 0x9000000000, 0, ⟨true, true⟩, .kill 1 15⟩]

/-- The process ends at once although it blocks the signal. -/
theorem blockedKill_ends :
    ¬ ∀ p ∈ (runSteps sigStep ⟨true, [freshProc, freshProc]⟩ blockedKill).procs,
    SignalsKept true p := by
  intro kept
  have ended : ∃ p ∈ (runSteps sigStep ⟨true, [freshProc, freshProc]⟩ blockedKill).procs,
      SigEvent.acted 15 (sigBit 15) ∈ p.events := by decide
  obtain ⟨p, member, acted⟩ := ended
  have unblocked := (kept p member).blocked 15 (sigBit 15) acted (by decide) (by decide)
  revert unblocked
  decide

end System

end Cos.Linux
