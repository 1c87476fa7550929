import Cos.Elf.Stack

/-! # The initial stack read back

Every push goes below what was pushed before, so what lies above the cursor stays as it
was laid: the blocks below keep this as one fact, `Laid`, from the first push to the last.
-/

namespace Cos.Elf

variable {mem mem' : UserMem} {c c' : StackCursor} {at_ : Addr} {bytes : List UInt8} {bottom : Nat}
  {blocks : List (Addr × List UInt8)}

/-- The blocks pushed so far, lowest first, none below `bottom`. -/
structure Laid (mem : UserMem) (bottom : Nat) (blocks : List (Addr × List UInt8)) : Prop where
  held : ∀ block ∈ blocks, userRead mem block.1 block.2.length = some block.2
  bottom : ∀ block ∈ blocks, bottom ≤ block.1.toNat
  small : ∀ block ∈ blocks, block.2.length < 2 ^ 32
  apart : blocks.Pairwise fun lower upper => lower.1.toNat + lower.2.length ≤ upper.1.toNat

theorem Laid.nil : Laid mem bottom [] := by
  constructor
  case apart => exact List.Pairwise.nil
  all_goals exact fun _ member => absurd member List.not_mem_nil

theorem userRead_bounds {len : Nat} (positive : 0 < len) (small : len < 2 ^ 64)
    (read : userRead mem at_ len = some bytes) :
    pieBase.toNat ≤ at_.toNat ∧ at_.toNat + len ≤ userLimit.toNat :=
  (userRangeOk_iff positive small).mp (userRead_iff.mp read).1

theorem userRead_beside {lower upper len : Nat} (changes : ChangesWithin lower upper mem mem')
    (small : len < 2 ^ 64) (beside : at_.toNat + len ≤ lower ∨ upper ≤ at_.toNat)
    (read : userRead mem at_ len = some bytes) : userRead mem' at_ len = some bytes := by
  rw [← read]
  apply userRead_congr
  intro i less
  have bounds := userRead_bounds (by omega) small read
  exact changes _ (by rw [toNat_add_ofNat (by omega)]; omega)

theorem userRead_append {first second : List UInt8}
    (one : userRead mem at_ first.length = some first)
    (two : userRead mem (at_ + BitVec.ofNat 64 first.length) second.length = some second)
    (range : userRangeOk at_ (BitVec.ofNat 64 (first ++ second).length) = true) :
    userRead mem at_ (first ++ second).length = some (first ++ second) := by
  refine userRead_iff.mpr ⟨range, rfl, fun i less => ?_⟩
  by_cases low : i < first.length
  · rw [(userRead_iff.mp one).2.2 i low, List.getElem?_append_left low]
  · rw [List.length_append] at less
    have place : at_ + BitVec.ofNat 64 i = at_ + BitVec.ofNat 64 first.length + BitVec.ofNat 64 (i - first.length) := by
      rw [BitVec.add_assoc, ← BitVec.ofNat_add, Nat.add_sub_cancel' (by omega)]
    rw [place, (userRead_iff.mp two).2.2 _ (by omega), List.getElem?_append_right (by omega)]

theorem Laid.push (laid : Laid mem bottom blocks)
    (changes : ChangesWithin at_.toNat (at_.toNat + bytes.length) mem mem')
    (read : userRead mem' at_ bytes.length = some bytes) (below : at_.toNat + bytes.length ≤ bottom)
    (small : bytes.length < 2 ^ 32) : Laid mem' at_.toNat ((at_, bytes) :: blocks) := by
  constructor
  · intro block member
    rcases List.mem_cons.mp member with rfl | member
    · exact read
    · have above := laid.bottom block member
      have few := laid.small block member
      exact userRead_beside changes (by omega) (.inr (by omega)) (laid.held block member)
  · intro block member
    rcases List.mem_cons.mp member with rfl | member
    · exact Nat.le_refl _
    · have above := laid.bottom block member
      omega
  · intro block member
    rcases List.mem_cons.mp member with rfl | member
    · exact small
    · exact laid.small block member
  · refine List.pairwise_cons.mpr ⟨fun block member => ?_, laid.apart⟩
    have above := laid.bottom block member
    exact Nat.le_trans below above

theorem Laid.beside {lower upper : Nat} (laid : Laid mem bottom blocks)
    (changes : ChangesWithin lower upper mem mem') (below : upper ≤ bottom) :
    Laid mem' bottom blocks := by
  refine ⟨fun block member => ?_, laid.bottom, laid.small, laid.apart⟩
  have above := laid.bottom block member
  have few := laid.small block member
  exact userRead_beside changes (by omega) (.inr (by omega)) (laid.held block member)

theorem userWrite_bounds {len : Nat} (written : userWrite mem at_ bytes = some mem')
    (isLen : bytes.length = len) (positive : 0 < len) (small : len < 2 ^ 64) :
    pieBase.toNat ≤ at_.toNat ∧ at_.toNat + len ≤ userLimit.toNat := by
  have range := userWrite_range written
  rw [isLen] at range
  exact (userRangeOk_iff positive small).mp range

theorem toNat_and_not (x : Addr) {k : Nat} :
    (x &&& ~~~(BitVec.ofNat 64 (2 ^ k - 1))).toNat = x.toNat / 2 ^ k * 2 ^ k := by
  have same : x &&& ~~~(BitVec.ofNat 64 (2 ^ k - 1)) = (x >>> k) <<< k := by
    apply BitVec.eq_of_getLsbD_eq
    intro i inside
    rw [BitVec.getLsbD_and, BitVec.getLsbD_not, BitVec.getLsbD_ofNat, Nat.testBit_two_pow_sub_one,
      BitVec.getLsbD_shiftLeft, BitVec.getLsbD_ushiftRight]
    by_cases low : i < k
    · simp [inside, low]
    · have sum : k + (i - k) = i := by omega
      simp [inside, low, sum]
  rw [same, BitVec.toNat_shiftLeft, BitVec.toNat_ushiftRight, Nat.shiftRight_eq_div_pow,
    Nat.shiftLeft_eq]
  exact Nat.mod_eq_of_lt (Nat.lt_of_le_of_lt (Nat.div_mul_le_self _ _) x.isLt)

structure Pushed (c c' : StackCursor) (at_ : Addr) (bytes : List UInt8) : Prop where
  p : c'.p = at_
  floor : c'.floor = c.floor
  above : c.floor ≤ at_
  below : at_.toNat + bytes.length ≤ c.p.toNat
  changes : ChangesWithin at_.toNat (at_.toNat + bytes.length) c.mem c'.mem
  read : userRead c'.mem at_ bytes.length = some bytes

theorem cursorPush_pushed {alignment : Addr} (aligned : alignment = 1 ∨ alignment = 8)
    (positive : 0 < bytes.length) (small : bytes.length < 2 ^ 32)
    (pushed : cursorPush c bytes alignment = some (c', at_)) : Pushed c c' at_ bytes := by
  unfold cursorPush at pushed
  dsimp only at pushed
  generalize isP : (if 1#64 < alignment
    then c.p - BitVec.ofNat 64 bytes.length &&& ~~~(alignment - 1)
    else c.p - BitVec.ofNat 64 bytes.length) = p at pushed
  split at pushed
  · contradiction
  · rename_i above
    split at pushed
    · contradiction
    · rename_i mem written
      cases pushed
      have bounds := userWrite_bounds written rfl positive (by omega)
      have limit : userLimit.toNat = 0x800000000000 := rfl
      have size : (BitVec.ofNat 64 bytes.length).toNat = bytes.length := by
        exact Nat.mod_eq_of_lt (by omega)
      have down : (c.p - BitVec.ofNat 64 bytes.length).toNat = (2 ^ 64 - bytes.length + c.p.toNat) % 2 ^ 64 := by
        rw [BitVec.toNat_sub, size]
      refine ⟨rfl, rfl, BitVec.not_lt.mp above, ?_, userWrite_changes written (by omega),
        userRead_userWrite written (by omega)⟩
      rw [← isP] at bounds ⊢
      rcases aligned with rfl | rfl
      · rw [if_neg (by decide), down] at bounds ⊢
        omega
      · rw [if_pos (by decide), show (8 : Addr) - 1 = BitVec.ofNat 64 (2 ^ 3 - 1) from rfl,
          toNat_and_not, down] at bounds ⊢
        omega

theorem cutString_length (s : CString) : (cutString s).length ≤ maxArgLen := by
  rw [cutString, List.length_take]
  exact Nat.min_le_left _ _

theorem cutString_nonzero {s : CString} {byte : UInt8} (member : byte ∈ cutString s) :
    byte ≠ 0 := by
  have kept := List.all_eq_true.mp List.all_takeWhile byte (List.mem_of_mem_take member)
  simpa using kept

theorem cursorPushStr_pushed {s : CString} (pushed : cursorPushStr c s = some (c', at_)) :
    Pushed c c' at_ (cutString s ++ [0]) := by
  have short := cutString_length s
  have limit : maxArgLen = 1023 := rfl
  unfold cursorPushStr at pushed
  dsimp only at pushed
  generalize cutString s = text at pushed short ⊢
  split at pushed
  · contradiction
  · rename_i c1 at1 room
    have reserved := cursorPush_pushed (.inl rfl) (by simp) (by simp; omega) room
    have ⟨isP, isFloor, above, below, changes, read⟩ := reserved
    rw [List.length_replicate] at below changes read
    split at pushed
    · contradiction
    · rename_i mem isMem
      split at pushed
      · contradiction
      · rename_i after written
        cases pushed
        have total : (text ++ [0]).length = text.length + 1 := List.length_append
        have spot : (at_ + BitVec.ofNat 64 text.length).toNat = at_.toNat + text.length := toNat_add_ofNat (by omega)
        -- the text, and behind it the terminator
        have textChanges : ChangesWithin at_.toNat (at_.toNat + (text.length + 1)) c1.mem mem := by
          split at isMem
          · cases isMem
            exact ChangesWithin.refl
          · exact (userWrite_changes isMem (by omega)).widen (Nat.le_refl _) (by omega)
        have textRead : userRead mem at_ text.length = some text := by
          split at isMem
          · rename_i empty
            rw [List.length_eq_zero_iff.mp empty]
            exact userRead_iff.mpr ⟨rfl, rfl, fun i less => absurd less (Nat.not_lt_zero i)⟩
          · exact userRead_userWrite isMem (by omega)
        have endChanges := userWrite_changes written (by decide)
        rw [spot] at endChanges
        refine ⟨isP, isFloor, above, by omega, ?_, ?_⟩
        · rw [total]
          exact (changes.trans textChanges).trans (endChanges.widen (by omega) (Nat.le_refl _))
        · refine userRead_append ?_ (userRead_userWrite written (by decide)) ?_
          · exact userRead_beside endChanges (by omega) (.inl (Nat.le_refl _)) textRead
          · rw [total]
            exact (userRead_iff.mp read).1

theorem Laid.pushed (laid : Laid c.mem c.p.toNat blocks) (pushed : Pushed c c' at_ bytes)
    (small : bytes.length < 2 ^ 32) : Laid c'.mem c'.p.toNat ((at_, bytes) :: blocks) := by
  rw [pushed.p]
  exact laid.push pushed.changes pushed.read pushed.below small

def stringBlocks (pointers : List Addr) (strings : List CString) : List (Addr × List UInt8) :=
  List.zipWith (fun pointer s => (pointer, s ++ [0])) pointers strings

def givenString (s : Option CString) : CString := cutString (s.getD [])

theorem pushStrings_laid {strings : List (Option CString)} {pointers : List Addr}
    (laid : Laid c.mem c.p.toNat blocks) (pushed : pushStrings c strings = some (c', pointers)) :
    Laid c'.mem c'.p.toNat (stringBlocks pointers (strings.map givenString) ++ blocks) ∧
      pointers.length = strings.length ∧ c'.floor = c.floor := by
  induction strings generalizing c' pointers with
  | nil =>
      cases pushed
      exact ⟨laid, rfl, rfl⟩
  | cons s rest ih =>
      rw [pushStrings] at pushed
      split at pushed
      · contradiction
      · rename_i c1 others isRest
        obtain ⟨restLaid, length, floor⟩ := ih isRest
        split at pushed
        · contradiction
        · rename_i c2 at2 isString
          cases pushed
          have one := cursorPushStr_pushed isString
          have short : (givenString s).length ≤ maxArgLen := cutString_length _
          have limit : maxArgLen = 1023 := rfl
          refine ⟨restLaid.pushed one ?_, by rw [List.length_cons, List.length_cons, length], one.floor.trans floor⟩
          rw [List.length_append, List.length_singleton]
          omega

/-- The words from `cur` on. -/
def HoldsWords (mem : UserMem) : Addr → List Addr → Prop
  | _, [] => True
  | cur, word :: rest => readWord mem cur = some word ∧ HoldsWords mem (cur + 8) rest

theorem HoldsWords.append {cur : Addr} {first second : List Addr} :
    HoldsWords mem cur (first ++ second) ↔
      HoldsWords mem cur first ∧ HoldsWords mem (cur + BitVec.ofNat 64 (8 * first.length)) second := by
  induction first generalizing cur with
  | nil => simp [HoldsWords]
  | cons word rest ih =>
      have next : cur + 8 + BitVec.ofNat 64 (8 * rest.length) =
          cur + BitVec.ofNat 64 (8 * (word :: rest).length) := by
        rw [List.length_cons, Nat.mul_succ, Nat.add_comm, BitVec.ofNat_add, BitVec.add_assoc]
        rfl
      rw [List.cons_append, HoldsWords, HoldsWords, ih, next, and_assoc]

theorem ofLeBytes_leBytes_word (word : Addr) : ofLeBytes (leBytes word 8) = word := by
  rw [ofLeBytes_leBytes]
  exact (BitVec.setWidth_eq _).trans (BitVec.setWidth_eq _)

theorem writeWords_holds {cur : Addr} {words : List Addr} (few : words.length < 2 ^ 32)
    (written : writeWords mem cur words = some mem') :
    ChangesWithin cur.toNat (cur.toNat + 8 * words.length) mem mem' ∧ HoldsWords mem' cur words ∧
      (words ≠ [] → cur.toNat + 8 * words.length ≤ userLimit.toNat) := by
  induction words generalizing mem cur with
  | nil =>
      cases written
      exact ⟨ChangesWithin.refl, trivial, fun wrong => absurd rfl wrong⟩
  | cons word rest ih =>
      rw [List.length_cons] at few
      rw [writeWords] at written
      split at written
      · contradiction
      · rename_i next isNext
        have bounds := @userWrite_bounds _ _ _ _ 8 isNext leBytes_length (by decide) (by decide)
        have place : (cur + 8).toNat = cur.toNat + 8 := @toNat_add_ofNat cur 8 (by omega)
        obtain ⟨changes, holds, within⟩ := ih (by omega) written
        rw [place] at changes
        have first := userWrite_changes isNext (by rw [leBytes_length]; decide)
        have read := userRead_userWrite isNext (by rw [leBytes_length]; decide)
        rw [leBytes_length] at first read
        have kept := userRead_beside changes (by decide) (.inl (Nat.le_refl _)) read
        rw [List.length_cons]
        refine ⟨(first.widen (Nat.le_refl _) (by omega)).trans (changes.widen (by omega) (by omega)), ⟨?_, holds⟩,
          fun _ => ?_⟩
        · rw [readWord, kept, Option.map_some, ofLeBytes_leBytes_word]
        · cases rest with
          | nil => exact bounds.2
          | cons other others =>
              have := within (List.cons_ne_nil _ _)
              omega

theorem pushPointerBlock_holds {words : List Addr} {rsp : Addr} (some_ : words ≠ [])
    (few : words.length < 2 ^ 28) (pushed : pushPointerBlock c words = some (mem', rsp)) :
    rsp.toNat % 16 = 0 ∧ c.floor ≤ rsp ∧ rsp.toNat + 8 * words.length ≤ c.p.toNat ∧
      ChangesWithin rsp.toNat (rsp.toNat + 8 * words.length) c.mem mem' ∧ HoldsWords mem' rsp words := by
  unfold pushPointerBlock at pushed
  dsimp only at pushed
  generalize isP : (if words.length % 2 = 1 then (c.p &&& ~~~(0xF#64)) - 8
    else c.p &&& ~~~(0xF#64)) = p at pushed
  split at pushed
  · contradiction
  · rename_i allowed
    rw [not_or, BitVec.not_lt, not_not] at allowed
    split at pushed
    · contradiction
    · rename_i mem written
      cases pushed
      obtain ⟨changes, holds, bounds⟩ := writeWords_holds (by omega) written
      refine ⟨?_, allowed.1, ?_, changes, holds⟩
      · have low := congrArg BitVec.toNat allowed.2
        exact (Nat.and_two_pow_sub_one_eq_mod _ 4).symm.trans low
      · have limit : userLimit.toNat = 0x800000000000 := rfl
        have within := bounds some_
        have down : (c.p &&& ~~~(0xF#64)).toNat = c.p.toNat / 2 ^ 4 * 2 ^ 4 := @toNat_and_not c.p 4
        have size : (BitVec.ofNat 64 (words.length * 8)).toNat = words.length * 8 := by
          exact Nat.mod_eq_of_lt (by omega)
        have eight : (8 : Addr).toNat = 8 := rfl
        rw [BitVec.toNat_sub, size] at within ⊢
        by_cases odd : words.length % 2 = 1
        · rw [if_pos odd] at isP
          rw [← isP, BitVec.toNat_sub, down, eight] at within ⊢
          omega
        · rw [if_neg odd] at isP
          rw [← isP, down] at within ⊢
          omega

theorem readWords_of_holds {cur : Addr} {words : List Addr} (holds : HoldsWords mem cur words) :
    readWords mem words.length cur = some words := by
  induction words generalizing cur with
  | nil => rfl
  | cons word rest ih =>
      rw [List.length_cons, readWords, holds.1, ih holds.2]
      rfl

theorem readUntilNull_of_holds {cur : Addr} {words : List Addr} {fuel : Nat}
    (holds : HoldsWords mem cur (words ++ [0])) (nonzero : ∀ word ∈ words, word ≠ 0)
    (enough : words.length < fuel) : readUntilNull mem fuel cur = some words := by
  induction words generalizing cur fuel with
  | nil =>
      obtain ⟨fuel, rfl⟩ := Nat.exists_eq_add_of_lt enough
      rw [readUntilNull, holds.1]
      rfl
  | cons word rest ih =>
      obtain ⟨fuel, rfl⟩ := Nat.exists_eq_add_of_lt enough
      have tail := @ih (cur + 8) ((word :: rest).length + fuel) holds.2
        (fun word member => nonzero word (List.mem_cons_of_mem _ member)) (by rw [List.length_cons]; omega)
      rw [readUntilNull, holds.1, tail]
      exact if_neg (nonzero word List.mem_cons_self)

theorem readAuxv_of_holds {cur : Addr} {front : List (Addr × Addr)} {value : Addr} {fuel : Nat}
    (holds : HoldsWords mem cur ((front ++ [(0, value)]).flatMap fun entry : Addr × Addr => [entry.1, entry.2]))
    (tags : ∀ entry ∈ front, entry.1 ≠ 0) (enough : front.length < fuel) :
    readAuxv mem fuel cur = some (front ++ [(0, value)]) := by
  induction front generalizing cur fuel with
  | nil =>
      obtain ⟨fuel, rfl⟩ := Nat.exists_eq_add_of_lt enough
      rw [readAuxv, holds.1, holds.2.1]
      rfl
  | cons entry rest ih =>
      obtain ⟨fuel, rfl⟩ := Nat.exists_eq_add_of_lt enough
      have place : cur + 8 + 8 = cur + 16 := BitVec.add_assoc cur 8 8
      have tail := @ih (cur + 16) ((entry :: rest).length + fuel) (place ▸ holds.2.2)
        (fun entry member => tags entry (List.mem_cons_of_mem _ member)) (by rw [List.length_cons]; omega)
      rw [readAuxv, holds.1, holds.2.1, tail]
      exact if_neg (tags entry List.mem_cons_self)

theorem readString_of_read {s : CString} {fuel : Nat} (nonzero : ∀ byte ∈ s, byte ≠ 0)
    (enough : s.length < fuel)
    (held : ∀ i ≤ s.length, mem (at_ + BitVec.ofNat 64 i) = (s ++ [0])[i]?) :
    readString mem fuel at_ = some s := by
  induction s generalizing at_ fuel with
  | nil =>
      obtain ⟨fuel, rfl⟩ := Nat.exists_eq_add_of_lt enough
      have first := held 0 (Nat.le_refl _)
      rw [BitVec.add_zero] at first
      rw [readString, first]
      rfl
  | cons byte rest ih =>
      obtain ⟨fuel, rfl⟩ := Nat.exists_eq_add_of_lt enough
      have first := held 0 (Nat.zero_le _)
      rw [BitVec.add_zero] at first
      have tail := @ih (at_ + 1) ((byte :: rest).length + fuel)
        (fun byte member => nonzero byte (List.mem_cons_of_mem _ member))
        (by rw [List.length_cons]; omega) fun i upto => by
          have next := held (i + 1) (by rw [List.length_cons]; omega)
          rw [Nat.add_comm, BitVec.ofNat_add, ← BitVec.add_assoc] at next
          rw [List.cons_append, Nat.add_comm, List.getElem?_cons_succ] at next
          exact next
      rw [readString, first]
      change (if byte = 0 then _ else _) = _
      rw [if_neg (nonzero byte List.mem_cons_self)]
      exact congrArg (Option.map (byte :: ·)) tail

theorem readString_of_held {s : CString} (text : ∀ byte ∈ s, byte ≠ 0)
    (short : s.length ≤ maxArgLen) (held : userRead mem at_ (s ++ [0]).length = some (s ++ [0])) :
    readString mem (maxArgLen + 1) at_ = some s := by
  refine readString_of_read text (by omega) fun i upto => (userRead_iff.mp held).2.2 i ?_
  rw [List.length_append, List.length_singleton]
  omega

theorem readStrings_of_held {pointers : List Addr} {strings : List CString}
    (same : pointers.length = strings.length)
    (texts : ∀ s ∈ strings, (∀ byte ∈ s, byte ≠ 0) ∧ s.length ≤ maxArgLen)
    (held : ∀ block ∈ stringBlocks pointers strings, userRead mem block.1 block.2.length =
    some block.2) : readStrings mem pointers = some (pointers.zip strings) := by
  induction pointers generalizing strings with
  | nil => rfl
  | cons pointer rest ih =>
      cases strings with
      | nil => contradiction
      | cons s others =>
          have ⟨text, short⟩ := texts s List.mem_cons_self
          have first := readString_of_held text short (held (pointer, s ++ [0]) List.mem_cons_self)
          have tail := @ih others (Nat.succ.inj same) (fun s member => texts s (List.mem_cons_of_mem _ member))
            fun block member => held block (List.mem_cons_of_mem _ member)
          rw [readStrings] at tail ⊢
          rw [List.mapM_cons, first, tail]
          rfl

theorem pointers_nonzero {pointers : List Addr} {strings : List CString}
    (same : pointers.length = strings.length) (short : ∀ s ∈ strings, s.length ≤ maxArgLen)
    (held : ∀ block ∈ stringBlocks pointers strings, userRead mem block.1 block.2.length =
    some block.2) : ∀ pointer ∈ pointers, pointer ≠ 0 := by
  induction pointers generalizing strings with
  | nil => exact fun _ member => absurd member List.not_mem_nil
  | cons pointer rest ih =>
      cases strings with
      | nil => contradiction
      | cons s others =>
          intro other member
          rcases List.mem_cons.mp member with rfl | member
          · have few := short s List.mem_cons_self
            have limit : maxArgLen = 1023 := rfl
            have length : (s ++ [(0 : UInt8)]).length = s.length + 1 := List.length_append
            have here : userRead mem other (s ++ [0]).length = some (s ++ [0]) :=
              held (other, s ++ [0]) List.mem_cons_self
            have bounds := userRead_bounds (by omega) (by omega) here
            intro zero
            rw [zero] at bounds
            exact absurd bounds.1 (by decide)
          · exact ih (Nat.succ.inj same) (fun s member => short s (List.mem_cons_of_mem _ member))
              (fun block member => held block (List.mem_cons_of_mem _ member)) other member

theorem foldl_pushAux {aux entries : List (Addr × Addr)} (few : aux.length + entries.length ≤ 24) :
    entries.foldl pushAux aux = aux ++ entries := by
  induction entries generalizing aux with
  | nil => rw [List.foldl_nil, List.append_nil]
  | cons entry rest ih =>
      rw [List.length_cons] at few
      rw [List.foldl_cons, pushAux, if_pos (by omega), ih (by rw [List.length_append, List.length_singleton]; omega),
        List.append_assoc, List.singleton_append]

theorem auxUnlessZero_length {tag value : Addr} : (auxUnlessZero tag value).length ≤ 1 := by
  unfold auxUnlessZero
  split
  · exact Nat.le_refl 1
  · exact Nat.zero_le 1

theorem auxUnlessZero_tag {tag value : Addr} (nonzero : tag ≠ 0) :
    ∀ entry ∈ auxUnlessZero tag value, entry.1 ≠ 0 := by
  intro entry member
  unfold auxUnlessZero at member
  split at member
  · rw [List.mem_singleton.mp member]
    exact nonzero
  · contradiction

theorem auxEntries_end (params : StackParams) (random platform execfn : Addr) :
    ∃ front, auxEntries params random platform execfn = front ++ [(0, 0)] ∧
      (∀ entry ∈ front, entry.1 ≠ 0) ∧ front.length ≤ 20 := by
  refine ⟨_, rfl, ?_, ?_⟩
  · simp only [List.forall_mem_append, List.forall_mem_cons]
    and_intros
    all_goals first
      | exact auxUnlessZero_tag (by decide)
      | exact fun _ member => absurd member List.not_mem_nil
      | decide
  · have phdr := @auxUnlessZero_length 3 params.atPhdr
    have phent := @auxUnlessZero_length 4 params.atPhent
    have phnum := @auxUnlessZero_length 5 params.atPhnum
    have entry := @auxUnlessZero_length 9 params.atEntry
    have randoms := @auxUnlessZero_length 25 random
    have platforms := @auxUnlessZero_length 15 platform
    have execfns := @auxUnlessZero_length 31 execfn
    have sysinfo := @auxUnlessZero_length 33 params.atSysinfoEhdr
    have linkmap := @auxUnlessZero_length 0x434F5300 params.atLinkmap
    have tp := @auxUnlessZero_length 0x434F5301 params.atTp
    simp only [List.length_append, List.length_cons, List.length_nil]
    omega

theorem readStack_of_holds {rsp : Addr} {argPtrs envPtrs : List Addr} {front : List (Addr × Addr)}
    {args envs : List (Addr × CString)}
    (holds : HoldsWords mem rsp (pointerBlock argPtrs envPtrs (front ++ [(0, 0)])))
    (fewArgs : argPtrs.length ≤ maxArgc) (fewEnvs : envPtrs.length ≤ maxEnvc)
    (fewAux : front.length ≤ 20) (nonzero : ∀ pointer ∈ envPtrs, pointer ≠ 0)
    (tags : ∀ entry ∈ front, entry.1 ≠ 0) (isArgs : readStrings mem argPtrs = some args)
    (isEnvs : readStrings mem envPtrs = some envs) :
    readStack mem rsp = some ⟨args, envs, front ++ [(0, 0)]⟩ := by
  have limit : maxArgc = 256 := rfl
  obtain ⟨isArgc, holds⟩ := holds
  have count : (BitVec.ofNat 64 argPtrs.length).toNat = argPtrs.length := by
    exact Nat.mod_eq_of_lt (by omega)
  rw [List.append_assoc, List.append_assoc, List.append_assoc, HoldsWords.append] at holds
  obtain ⟨isArgv, isNull, holds⟩ := holds
  rw [← List.append_assoc] at holds
  obtain ⟨isEnvp, isAux⟩ := (@HoldsWords.append _ _ (envPtrs ++ [0]) _).mp holds
  have place : BitVec.ofNat 64 (8 * (envPtrs ++ [(0 : Addr)]).length) =
    BitVec.ofNat 64 (8 * envPtrs.length) + 8 := by
    rw [List.length_append, List.length_singleton, Nat.mul_succ, BitVec.ofNat_add]
    rfl
  rw [place, ← BitVec.add_assoc] at isAux
  have argv := readWords_of_holds isArgv
  have envp := @readUntilNull_of_holds _ _ _ (maxEnvc + 1) isEnvp nonzero (by omega)
  have auxv := @readAuxv_of_holds _ _ _ _ 24 isAux tags (by omega)
  unfold readStack
  simp only [isArgc, Option.bind_eq_bind, Option.bind_some, count, argv, isNull, envp, auxv, isArgs,
    isEnvs]
  rfl

/-- The blocks of a stack, from the stack pointer up: the three arrays, the strings of
`argv` and `envp`, the file name, the platform string and the random bytes. -/
def stackBlocks (params : StackParams) (rsp : Addr) (stack : InitialStack)
    (random platform execfn : Addr) : List (Addr × Nat) :=
  let envAt := rsp + BitVec.ofNat 64 (8 * (stack.argv.length + 2))
  let auxAt := envAt + BitVec.ofNat 64 (8 * (stack.envp.length + 1))
  [(rsp, 8 * (stack.argv.length + 2)), (envAt, 8 * (stack.envp.length + 1)),
    (auxAt, 16 * stack.auxv.length)] ++
    ((stack.argv ++ stack.envp).map fun s => (s.1, s.2.length + 1)) ++
    (match params.execfn with
      | some name => [(execfn, (cutString name).length + 1)]
      | none => []) ++ [(platform, platformName.length + 1), (random, 16)]

/-- What a program finds is what it was to be given, and no block reaches into another. -/
structure RoundTrip (params : StackParams) (mem : UserMem) (rsp : Addr) (stack : InitialStack)
    (random platform execfn : Addr) : Prop where
  read : readStack mem rsp = some stack
  argv : stack.argv.map Prod.snd = params.argv.map givenString
  envp : stack.envp.map Prod.snd = params.envp.map givenString
  auxv : stack.auxv = auxEntries params random platform execfn
  ends : stack.auxv.getLast? = some (0, 0)
  present : random ≠ 0 ∧ platform ≠ 0 ∧ (execfn = 0 ↔ params.execfn = none)
  seed : userRead mem random 16 =
    some (leBytes params.atRandomSeed.1 8 ++ leBytes params.atRandomSeed.2 8)
  platformName : readString mem (maxArgLen + 1) platform = some Elf.platformName
  fileName : ∀ name, params.execfn = some name →
    readString mem (maxArgLen + 1) execfn = some (cutString name)
  apart : (stackBlocks params rsp stack random platform execfn).Pairwise fun lower upper =>
    lower.1.toNat + lower.2 ≤ upper.1.toNat

def arrayBlocks (rsp : Addr) (argc envc auxc : Nat) : List (Addr × Nat) :=
  let envAt := rsp + BitVec.ofNat 64 (8 * (argc + 2))
  let auxAt := envAt + BitVec.ofNat 64 (8 * (envc + 1))
  [(rsp, 8 * (argc + 2)), (envAt, 8 * (envc + 1)), (auxAt, 16 * auxc)]

theorem arrayBlocks_apart {rsp : Addr} {argc envc auxc : Nat} (laid : Laid mem bottom blocks)
    (below : rsp.toNat + 8 * (argc + 2 + (envc + 1) + 2 * auxc) ≤ bottom)
    (small : bottom < 2 ^ 64) :
    (arrayBlocks rsp argc envc auxc ++ blocks.map fun block => (block.1, block.2.length)).Pairwise
    fun lower upper =>
      lower.1.toNat + lower.2 ≤ upper.1.toNat := by
  have envAt : (rsp + BitVec.ofNat 64 (8 * (argc + 2))).toNat = rsp.toNat + 8 * (argc + 2) :=
    toNat_add_ofNat (by omega)
  have auxAt : (rsp + BitVec.ofNat 64 (8 * (argc + 2)) + BitVec.ofNat 64 (8 * (envc + 1))).toNat =
      rsp.toNat + 8 * (argc + 2) + 8 * (envc + 1) := by
    rw [toNat_add_ofNat (by omega), envAt]
  refine List.pairwise_append.mpr ⟨?_, ?_, ?_⟩
  · simp only [arrayBlocks, List.pairwise_cons, List.mem_cons, List.not_mem_nil, or_false,
      forall_eq_or_imp, forall_eq, envAt, auxAt]
    refine ⟨⟨Nat.le_refl _, by omega⟩, Nat.le_refl _, ?_, List.Pairwise.nil⟩
    exact fun _ wrong => wrong.elim
  · rw [List.pairwise_map]
    exact laid.apart
  · intro lower isLower upper isUpper
    obtain ⟨block, member, rfl⟩ := List.mem_map.mp isUpper
    have above := laid.bottom block member
    simp only [arrayBlocks, List.mem_cons, List.not_mem_nil, or_false] at isLower
    rcases isLower with rfl | rfl | rfl
    · dsimp only
      omega
    · dsimp only
      omega
    · dsimp only
      omega

theorem stringBlocks_sizes {pointers : List Addr} {strings : List CString}
    (same : pointers.length = strings.length) : (stringBlocks pointers strings).map (fun block =>
      (block.1, block.2.length)) = (pointers.zip strings).map fun s => (s.1, s.2.length + 1) := by
  induction pointers generalizing strings with
  | nil => rfl
  | cons pointer rest ih =>
      cases strings with
      | nil => contradiction
      | cons s others =>
          have tail := @ih others (Nat.succ.inj same)
          rw [stringBlocks] at tail ⊢
          rw [List.zipWith_cons_cons, List.zip_cons_cons, List.map_cons, List.map_cons, tail, List.length_append]
          rfl

def execfnBlocks (execfn : Addr) : Option CString → List (Addr × List UInt8)
  | some name => [(execfn, cutString name ++ [0])]
  | none => []

theorem pushExecfn_laid {name : Option CString} {execfn : Addr} (laid : Laid c.mem c.p.toNat blocks)
    (pushed : pushExecfn c name = some (c', execfn)) :
    Laid c'.mem c'.p.toNat (execfnBlocks execfn name ++ blocks) ∧ c'.floor = c.floor ∧
    (execfn = 0 ↔ name = none) := by
  cases name with
  | none =>
      cases pushed
      exact ⟨laid, rfl, by simp⟩
  | some name =>
      have one := cursorPushStr_pushed pushed
      have short := cutString_length name
      have limit : maxArgLen = 1023 := rfl
      have length : (cutString name ++ [(0 : UInt8)]).length = (cutString name).length + 1 := List.length_append
      have bounds := userRead_bounds (by omega) (by omega) one.read
      refine ⟨laid.pushed one (by omega), one.floor, fun zero => ?_, fun wrong => ?_⟩
      · rw [zero] at bounds
        exact absurd bounds.1 (by decide)
      · contradiction

theorem strings_laid {params : StackParams} {c0 c1 c2 c3 c4 c5 : StackCursor}
    {random platform execfn : Addr} {envPtrs argPtrs : List Addr}
    (isRandom : cursorPush c0 (leBytes params.atRandomSeed.1 8 ++ leBytes params.atRandomSeed.2 8) 8 = some (c1, random))
    (isPlatform : cursorPushStr c1 platformName = some (c2, platform))
    (isExecfn : pushExecfn c2 params.execfn = some (c3, execfn))
    (isEnvs : pushStrings c3 params.envp = some (c4, envPtrs))
    (isArgs : pushStrings c4 params.argv = some (c5, argPtrs)) : Laid c5.mem c5.p.toNat (stringBlocks argPtrs (params.argv.map givenString) ++
      (stringBlocks envPtrs (params.envp.map givenString) ++ (execfnBlocks execfn params.execfn ++
        [(platform, platformName ++ [0]), (random, leBytes params.atRandomSeed.1 8 ++ leBytes params.atRandomSeed.2 8)]))) ∧
      c5.floor = c0.floor ∧ argPtrs.length = params.argv.length ∧
      envPtrs.length = params.envp.length ∧ (execfn = 0 ↔ params.execfn = none) := by
  have sixteen : (leBytes params.atRandomSeed.1 8 ++ leBytes params.atRandomSeed.2 8).length =
    16 := by
    rw [List.length_append, leBytes_length, leBytes_length]
  have first := cursorPush_pushed (.inr rfl) (by omega) (by omega) isRandom
  have second := cursorPushStr_pushed isPlatform
  have laid2 := (Laid.nil.pushed first (by omega)).pushed second (by decide)
  obtain ⟨laid3, floor3, given⟩ := pushExecfn_laid laid2 isExecfn
  obtain ⟨laid4, envs, floor4⟩ := pushStrings_laid laid3 isEnvs
  obtain ⟨laid5, args, floor5⟩ := pushStrings_laid laid4 isArgs
  exact ⟨laid5, by rw [floor5, floor4, floor3, second.floor, first.floor], args, envs, given⟩

/-- Whenever the stack can be built, a program reads back what it was to be given. -/
theorem setup_stack_round_trip {params : StackParams} {stackTop rsp : Addr}
    (built : cosElfSetupStackEx mem stackTop params = some (mem', rsp)) :
    rsp.toNat % 16 = 0 ∧ stackTop.toNat - stackArgBudget ≤ rsp.toNat ∧
      ∃ stack random platform execfn, RoundTrip params mem' rsp stack random platform execfn := by
  unfold cosElfSetupStackEx at built
  split at built
  · contradiction
  simp only [Option.bind_eq_bind, Option.bind_eq_some_iff, Prod.exists] at built
  obtain ⟨c1, random, isRandom, c2, platform, isPlatform, c3, execfn, isExecfn, c4, envPtrs, isEnvs,
    c5, argPtrs, isArgs, pushed⟩ := built
  obtain ⟨laid, floor, args, envs, given⟩ := strings_laid isRandom isPlatform isExecfn isEnvs isArgs
  obtain ⟨front, isAux, tags, few⟩ := auxEntries_end params random platform execfn
  have limit : maxArgc = 256 := rfl
  have limit' : maxEnvc = 256 := rfl
  have length : (auxEntries params random platform execfn).length = front.length + 1 := by
    rw [isAux, List.length_append, List.length_singleton]
  have whole : (auxEntries params random platform execfn).foldl pushAux [] =
    auxEntries params random platform execfn :=
    foldl_pushAux (by rw [List.length_nil]; omega)
  rw [whole] at pushed
  have size : (pointerBlock argPtrs envPtrs (auxEntries params random platform execfn)).length =
      argPtrs.length + 2 + (envPtrs.length + 1) + 2 * (front.length + 1) := by
    have pairs : ∀ entries : List (Addr × Addr),
        (entries.flatMap fun entry => [entry.1, entry.2]).length = 2 * entries.length := by
      intro entries
      induction entries with
      | nil => rfl
      | cons entry rest ih =>
          rw [List.flatMap_cons, List.length_append, ih, List.length_cons]
          simp only [List.length_cons, List.length_nil]
          omega
    rw [pointerBlock, List.length_cons, List.length_append, List.length_append, List.length_append,
      List.length_append, pairs, length]
    simp only [List.length_cons, List.length_nil]
    omega
  have some_ : pointerBlock argPtrs envPtrs (auxEntries params random platform execfn) ≠ [] :=
    List.cons_ne_nil _ _
  obtain ⟨aligned, above, below, changes, holds⟩ := pushPointerBlock_holds some_ (by omega) pushed
  have final := laid.beside changes below
  refine ⟨aligned, ?_,
    ⟨argPtrs.zip (params.argv.map givenString), envPtrs.zip (params.envp.map givenString),
    auxEntries params random platform execfn⟩, random, platform, execfn, ?_⟩
  · rw [floor, BitVec.le_def, BitVec.toNat_sub, BitVec.toNat_ofNat] at above
    omega
  have texts (strings : List (Option CString)) (s : CString)
      (member : s ∈ strings.map givenString) : (∀ byte ∈ s, byte ≠ 0) ∧ s.length ≤ maxArgLen := by
    obtain ⟨given, _, rfl⟩ := List.mem_map.mp member
    exact ⟨fun byte => cutString_nonzero, cutString_length _⟩
  have sameArgs : argPtrs.length = (params.argv.map givenString).length := by
    rw [List.length_map, args]
  have sameEnvs : envPtrs.length = (params.envp.map givenString).length := by
    rw [List.length_map, envs]
  have heldArgs (block) (member : block ∈ stringBlocks argPtrs (params.argv.map givenString)) :=
    final.held block (List.mem_append_left _ member)
  have heldEnvs (block) (member : block ∈ stringBlocks envPtrs (params.envp.map givenString)) :=
    final.held block (List.mem_append_right _ (List.mem_append_left _ member))
  have heldRest (block) (member : block ∈ execfnBlocks execfn params.execfn ++ [(platform, platformName ++ [0]),
      (random, leBytes params.atRandomSeed.1 8 ++ leBytes params.atRandomSeed.2 8)]) :=
    final.held block (List.mem_append_right _ (List.mem_append_right _ member))
  have heldPlatform : userRead mem' platform (platformName ++ [0]).length =
    some (platformName ++ [0]) :=
    heldRest (platform, platformName ++ [0]) (List.mem_append_right _ List.mem_cons_self)
  have sixteen : (leBytes params.atRandomSeed.1 8 ++ leBytes params.atRandomSeed.2 8).length =
    16 := by
    rw [List.length_append, leBytes_length, leBytes_length]
  have heldRandom : userRead mem' random 16 =
      some (leBytes params.atRandomSeed.1 8 ++ leBytes params.atRandomSeed.2 8) := by
    have held := heldRest _ (List.mem_append_right _ (List.mem_cons_of_mem _ List.mem_cons_self))
    rwa [sixteen] at held
  constructor
  case read =>
    rw [isAux] at holds ⊢
    exact readStack_of_holds holds (by omega) (by omega) few
      (pointers_nonzero sameEnvs (fun s member => (texts _ s member).2) heldEnvs) tags
      (readStrings_of_held sameArgs (texts _) heldArgs) (readStrings_of_held sameEnvs (texts _) heldEnvs)
  case argv => exact List.map_snd_zip (Nat.le_of_eq sameArgs.symm)
  case envp => exact List.map_snd_zip (Nat.le_of_eq sameEnvs.symm)
  case auxv => rfl
  case ends => rw [isAux, List.getLast?_append, List.getLast?_singleton, Option.some_or]
  case present =>
    refine ⟨fun zero => ?_, fun zero => ?_, given⟩
    · have bounds := userRead_bounds (by decide) (by decide) heldRandom
      rw [zero] at bounds
      exact absurd bounds.1 (by decide)
    · have bounds := userRead_bounds (by decide) (by decide) heldPlatform
      rw [zero] at bounds
      exact absurd bounds.1 (by decide)
  case seed => exact heldRandom
  case platformName => exact readString_of_held (by decide +kernel) (by decide) heldPlatform
  case fileName =>
    intro name isName
    rw [isName] at heldRest
    exact readString_of_held (fun byte => cutString_nonzero) (cutString_length name)
      (heldRest (execfn, cutString name ++ [0]) List.mem_cons_self)
  case apart =>
    have sizes : stackBlocks params rsp ⟨argPtrs.zip (params.argv.map givenString),
        envPtrs.zip (params.envp.map givenString), auxEntries params random platform execfn⟩ random platform execfn =
        arrayBlocks rsp argPtrs.length envPtrs.length (front.length + 1) ++
          (stringBlocks argPtrs (params.argv.map givenString) ++ (stringBlocks envPtrs (params.envp.map givenString) ++
            (execfnBlocks execfn params.execfn ++ [(platform, platformName ++ [0]),
              (random, leBytes params.atRandomSeed.1 8 ++ leBytes params.atRandomSeed.2 8)]))).map
            fun block => (block.1, block.2.length) := by
      have argCount : (argPtrs.zip (params.argv.map givenString)).length = argPtrs.length := by
        rw [List.length_zip, ← sameArgs, Nat.min_self]
      have envCount : (envPtrs.zip (params.envp.map givenString)).length = envPtrs.length := by
        rw [List.length_zip, ← sameEnvs, Nat.min_self]
      simp only [stackBlocks, arrayBlocks, argCount, envCount, length, List.map_append, stringBlocks_sizes sameArgs,
        stringBlocks_sizes sameEnvs, List.map_cons, List.map_nil, sixteen]
      cases params.execfn <;> simp [execfnBlocks]
    rw [sizes]
    exact arrayBlocks_apart final (by omega) c5.p.isLt

def plainParams : StackParams :=
  ⟨[some [0x61, 0x62]], [none], 0x8000000040, 56, 3, 0, 0x8000001000, 0, 0, 0,
    (0x1122334455667788, 5), some [0x2F], false⟩

theorem setup_stack_round_trip_plain :
    ∃ mem' rsp, cosElfSetupStackEx (fun _ => some 0xFF) (pieBase + 0x20008) plainParams = some
      (mem', rsp) ∧ rsp.toNat % 16 = 0 ∧ (pieBase + 0x20008).toNat - stackArgBudget ≤ rsp.toNat ∧
        ∃ stack random platform execfn, RoundTrip plainParams mem' rsp stack random platform execfn := by
  have built : (cosElfSetupStackEx (fun _ => some 0xFF) (pieBase + 0x20008) plainParams).isSome =
    true := by
    decide +kernel
  obtain ⟨⟨mem', rsp⟩, result⟩ := Option.isSome_iff_exists.mp built
  exact ⟨mem', rsp, result, setup_stack_round_trip result⟩

end Cos.Elf
