import Cos.Paging.Tables
import Mathlib

/-! # The system-call pointer check

`paging_user_range_ok` decides whether the kernel may touch a buffer named by a
ring-3 program.  It steps through the range one leaf at a time and asks for the
same permission bits at every level of the walk.
-/

namespace Cos.Paging

/-- The permission bits `paging_user_range_ok` asks for at every level. -/
def needBits (needWrite : Bool) : U64 :=
  fPresent ||| fUser ||| (if needWrite then fRw else 0#64)

def pagingIsHigherHalf (v : U64) : Bool := 0xFFFF800000000000#64 ≤ v

/-- The first address after the leaf of `2 ^ bits` bytes that holds `addr`. -/
def nextLeaf (bits : Nat) (addr : U64) : U64 :=
  (addr + BitVec.ofNat 64 (2 ^ bits)) &&& ~~~(BitVec.ofNat 64 (2 ^ bits - 1))

/-- One round of the loop of `paging_user_range_ok`: the walk at `addr`, and the
address the loop goes on at; `none` when the walk is refused. -/
def userRangeStep (mem : TableMem) (root need addr : U64) : Option U64 :=
  let e4 := mem root (idx4 addr)
  if e4 &&& need ≠ need then none
  else match physToTablePtr e4 with
  | none => none
  | some pdpt =>
      let e3 := mem pdpt (idx3 addr)
      if e3 &&& need ≠ need then none
      else if e3 &&& fPs ≠ 0#64 then some (nextLeaf 30 addr)
      else match physToTablePtr e3 with
      | none => none
      | some pd =>
          let e2 := mem pd (idx2 addr)
          if e2 &&& need ≠ need then none
          else if e2 &&& fPs ≠ 0#64 then some (nextLeaf 21 addr)
          else match physToTablePtr e2 with
          | none => none
          | some pt =>
              let e1 := mem pt (idx1 addr)
              if e1 &&& need ≠ need then none else some (addr + 0x1000#64)

/-- The loop `while (addr < end)`.  Every round moves at least one page, so the
fuel given by `pagingUserRangeOk` is never used up. -/
def userRangeLoop (mem : TableMem) (root need fin : U64) : Nat → U64 → Bool
  | 0, _ => false
  | fuel + 1, addr =>
      if addr < fin then
        match userRangeStep mem root need addr with
        | none => false
        | some next => userRangeLoop mem root need fin fuel next
      else true

def pagingUserRangeOk (mem : TableMem) (root virt len : U64) (needWrite : Bool) : Bool :=
  if len = 0#64 then true
  else if virt + len < virt then false
  else if pagingIsHigherHalf virt || pagingIsHigherHalf (virt + len - 1#64) then false
  else if root = 0#64 then false
  else userRangeLoop mem root (needBits needWrite) (virt + len)
    (len.toNat / 4096 + 3) (pageDown virt)

def Accessible (needWrite : Bool) (entry : U64) : Prop :=
  entry.getLsbD 0 = true ∧ entry.getLsbD 2 = true ∧ (needWrite = true → entry.getLsbD 1 = true)

instance (needWrite : Bool) (entry : U64) : Decidable (Accessible needWrite entry) :=
  inferInstanceAs (Decidable (_ ∧ _ ∧ _))

def IsLargeLeaf (entry : U64) : Prop := entry.getLsbD 7 = true

/-- The walk for `a` is present and user-accessible (and writable when asked) at
every level down to the leaf, which is a 1 GiB, a 2 MiB or a 4 KiB one. -/
def WalkGrants (mem : TableMem) (root : U64) (needWrite : Bool) (a : U64) : Prop :=
  root ≠ 0#64 ∧ Accessible needWrite (mem root (idx4 a)) ∧
  ∃ pdpt, physToTablePtr (mem root (idx4 a)) = some pdpt ∧
    Accessible needWrite (mem pdpt (idx3 a)) ∧
    (IsLargeLeaf (mem pdpt (idx3 a)) ∨
      ∃ pd, physToTablePtr (mem pdpt (idx3 a)) = some pd ∧
        Accessible needWrite (mem pd (idx2 a)) ∧
        (IsLargeLeaf (mem pd (idx2 a)) ∨
          ∃ pt, physToTablePtr (mem pd (idx2 a)) = some pt ∧
            Accessible needWrite (mem pt (idx1 a))))

theorem and_needBits_eq_iff (entry : U64) (needWrite : Bool) :
    entry &&& needBits needWrite = needBits needWrite ↔ Accessible needWrite entry := by
  have bits : ∀ bit < 64, (needBits needWrite).getLsbD bit = true ↔
      bit = 0 ∨ bit = 2 ∨ (needWrite = true ∧ bit = 1) := by
    cases needWrite <;> decide
  rw [and_eq_mask_iff]
  constructor
  · intro covered
    exact ⟨covered 0 (by omega) ((bits 0 (by omega)).mpr (by simp)),
      covered 2 (by omega) ((bits 2 (by omega)).mpr (by simp)),
      fun write => covered 1 (by omega) ((bits 1 (by omega)).mpr (by simp [write]))⟩
  · rintro ⟨present, user, write⟩ bit bound set
    rcases (bits bit bound).mp set with rfl | rfl | ⟨asked, rfl⟩
    · exact present
    · exact user
    · exact write asked

theorem and_fPs_ne_zero_iff (entry : U64) : entry &&& fPs ≠ 0#64 ↔ IsLargeLeaf entry := by
  have word : fPs = BitVec.twoPow 64 7 := by decide
  rw [word, Ne, and_twoPow_eq_zero_iff entry 7 (by omega)]
  simp [IsLargeLeaf]

variable {mem : TableMem} {root virt len addr next a : U64} {needWrite : Bool}

theorem toNat_nextLeaf (bits : Nat) (small : bits ≤ 30) (room : addr.toNat + 2 ^ 30 < 2 ^ 64) :
    (nextLeaf bits addr).toNat = addr.toNat / 2 ^ bits * 2 ^ bits + 2 ^ bits := by
  have size : 2 ^ bits ≤ 2 ^ 30 := Nat.pow_le_pow_right (by omega) small
  have sum : (addr + BitVec.ofNat 64 (2 ^ bits)).toNat = addr.toNat + 2 ^ bits := by
    rw [BitVec.toNat_add, BitVec.toNat_ofNat, Nat.mod_eq_of_lt (show 2 ^ bits < 2 ^ 64 by omega),
      Nat.mod_eq_of_lt (by omega)]
  rw [nextLeaf, toNat_and_not_mask _ bits (by omega), sum,
    Nat.add_div_right _ (Nat.two_pow_pos bits), Nat.succ_mul]

theorem idx_eq_of_gib (same : a.toNat / 2 ^ 30 = addr.toNat / 2 ^ 30) :
    idx4 a = idx4 addr ∧ idx3 a = idx3 addr := by
  constructor <;> apply Fin.ext <;> simp only [idx4_val, idx3_val] <;> omega

theorem idx_eq_of_mib (same : a.toNat / 2 ^ 21 = addr.toNat / 2 ^ 21) :
    idx4 a = idx4 addr ∧ idx3 a = idx3 addr ∧ idx2 a = idx2 addr := by
  obtain ⟨top, third⟩ := @idx_eq_of_gib addr a (by omega)
  refine ⟨top, third, ?_⟩
  apply Fin.ext
  simp only [idx2_val]
  omega

theorem idx_eq_of_page (same : a.toNat / 2 ^ 12 = addr.toNat / 2 ^ 12) :
    idx4 a = idx4 addr ∧ idx3 a = idx3 addr ∧ idx2 a = idx2 addr ∧ idx1 a = idx1 addr := by
  obtain ⟨top, third, second⟩ := @idx_eq_of_mib addr a (by omega)
  refine ⟨top, third, second, ?_⟩
  apply Fin.ext
  simp only [idx1_val]
  omega

theorem WalkGrants.of_page (same : a.toNat / 2 ^ 12 = addr.toNat / 2 ^ 12)
    (granted : WalkGrants mem root needWrite addr) : WalkGrants mem root needWrite a := by
  obtain ⟨top, third, second, first⟩ := idx_eq_of_page same
  simpa only [WalkGrants, top, third, second, first] using granted

theorem userRangeStep_sound (rooted : root ≠ 0#64)
    (went : userRangeStep mem root (needBits needWrite) addr = some next) :
    (next = nextLeaf 30 addr ∧
        ∀ a, a.toNat / 2 ^ 30 = addr.toNat / 2 ^ 30 → WalkGrants mem root needWrite a) ∨
    (next = nextLeaf 21 addr ∧
        ∀ a, a.toNat / 2 ^ 21 = addr.toNat / 2 ^ 21 → WalkGrants mem root needWrite a) ∨
    (next = addr + 0x1000#64 ∧
        ∀ a, a.toNat / 2 ^ 12 = addr.toNat / 2 ^ 12 → WalkGrants mem root needWrite a) := by
  unfold userRangeStep at went
  simp only [ne_eq, ite_not, and_needBits_eq_iff] at went
  split at went
  case isFalse => contradiction
  case isTrue granted4 =>
  split at went
  case h_1 => contradiction
  case h_2 pdpt table4 =>
  split at went
  case isFalse => contradiction
  case isTrue granted3 =>
  split at went
  case isFalse large =>
      left
      cases went
      refine ⟨rfl, fun a same => ?_⟩
      obtain ⟨top, third⟩ := idx_eq_of_gib same
      rw [WalkGrants, top, third]
      exact ⟨rooted, granted4, pdpt, table4, granted3, .inl ((and_fPs_ne_zero_iff _).mp large)⟩
  case isTrue =>
  split at went
  case h_1 => contradiction
  case h_2 pd table3 =>
  split at went
  case isFalse => contradiction
  case isTrue granted2 =>
  split at went
  case isFalse large =>
      right; left
      cases went
      refine ⟨rfl, fun a same => ?_⟩
      obtain ⟨top, third, second⟩ := idx_eq_of_mib same
      rw [WalkGrants, top, third, second]
      exact ⟨rooted, granted4, pdpt, table4, granted3, .inr ⟨pd, table3, granted2,
        .inl ((and_fPs_ne_zero_iff _).mp large)⟩⟩
  case isTrue =>
  split at went
  case h_1 => contradiction
  case h_2 pt table2 =>
  split at went
  case isFalse => contradiction
  case isTrue granted1 =>
      right; right
      obtain rfl := Option.some.inj went
      refine ⟨rfl, fun a same => ?_⟩
      obtain ⟨top, third, second, first⟩ := idx_eq_of_page same
      rw [WalkGrants, top, third, second, first]
      exact ⟨rooted, granted4, pdpt, table4, granted3, .inr ⟨pd, table3, granted2,
        .inr ⟨pt, table2, granted1⟩⟩⟩

theorem userRangeStep_complete (granted : WalkGrants mem root needWrite addr) :
    ∃ next, userRangeStep mem root (needBits needWrite) addr = some next := by
  obtain ⟨_, granted4, pdpt, table4, granted3, below⟩ := granted
  simp only [userRangeStep, ne_eq, ite_not, and_needBits_eq_iff, granted4, if_true, table4,
    granted3]
  by_cases large3 : mem pdpt (idx3 addr) &&& fPs = 0#64
  · simp only [large3, if_true]
    rcases below with large | ⟨pd, table3, granted2, below⟩
    · exact absurd large3 ((and_fPs_ne_zero_iff _).mpr large)
    · simp only [table3, granted2, if_true]
      by_cases large2 : mem pd (idx2 addr) &&& fPs = 0#64
      · simp only [large2, if_true]
        rcases below with large | ⟨pt, table2, granted1⟩
        · exact absurd large2 ((and_fPs_ne_zero_iff _).mpr large)
        · simp only [table2, granted1, if_true]
          exact ⟨_, rfl⟩
      · simp only [large2, if_false]
        exact ⟨_, rfl⟩
  · simp only [large3, if_false]
    exact ⟨_, rfl⟩

theorem userRangeStep_advances (rooted : root ≠ 0#64) (room : addr.toNat + 2 ^ 30 < 2 ^ 64)
    (aligned : addr.toNat % 4096 = 0)
    (went : userRangeStep mem root (needBits needWrite) addr = some next) :
    addr.toNat + 4096 ≤ next.toNat ∧ next.toNat % 4096 = 0 ∧
      ∀ a : U64, addr.toNat ≤ a.toNat → a.toNat < next.toNat → WalkGrants mem root needWrite a := by
  rcases userRangeStep_sound rooted went with ⟨rfl, granted⟩ | ⟨rfl, granted⟩ | ⟨rfl, granted⟩
  · have place := toNat_nextLeaf 30 (by omega) room
    refine ⟨by omega, by omega, fun a lower upper => granted a (by omega)⟩
  · have place := toNat_nextLeaf 21 (by omega) room
    refine ⟨by omega, by omega, fun a lower upper => granted a (by omega)⟩
  · have place : (addr + 0x1000#64).toNat = addr.toNat + 4096 := by
      exact Nat.mod_eq_of_lt (by simp; omega)
    refine ⟨by omega, by omega, fun a lower upper => granted a (by omega)⟩

theorem userRangeLoop_iff {fin : U64} {fuel : Nat} (rooted : root ≠ 0#64)
    (lower : fin.toNat ≤ 0xFFFF800000000000) (aligned : addr.toNat % 4096 = 0)
    (enough : fin.toNat ≤ addr.toNat + 4096 * fuel) :
    userRangeLoop mem root (needBits needWrite) fin (fuel + 1) addr = true ↔
      ∀ a : U64, addr.toNat ≤ a.toNat → a.toNat < fin.toNat → WalkGrants mem root needWrite a := by
  induction fuel generalizing addr with
  | zero =>
      have past : ¬ addr < fin := by simpa [BitVec.lt_def] using enough
      rw [userRangeLoop, if_neg past]
      simp only [true_iff]
      omega
  | succ fuel ih =>
      rw [userRangeLoop]
      by_cases inside : addr < fin
      · rw [if_pos inside]
        have bound : addr.toNat < fin.toNat := inside
        cases step : userRangeStep mem root (needBits needWrite) addr with
        | none =>
            constructor
            · intro accepted
              contradiction
            · intro granted
              obtain ⟨next, went⟩ := userRangeStep_complete (granted addr (Nat.le_refl _) bound)
              rw [step] at went
              contradiction
        | some next =>
            obtain ⟨moved, nextAligned, skipped⟩ :=
              userRangeStep_advances rooted (by omega) aligned step
            rw [ih nextAligned (by omega)]
            constructor
            · intro rest a above below
              by_cases early : a.toNat < next.toNat
              · exact skipped a above early
              · exact rest a (by omega) below
            · intro granted a above below
              exact granted a (by omega) below
      · rw [if_neg inside]
        have bound : fin.toNat ≤ addr.toNat := by simpa [BitVec.lt_def] using inside
        simp only [true_iff]
        omega

theorem pagingUserRangeOk_iff :
    pagingUserRangeOk mem root virt len needWrite = true ↔
      len = 0#64 ∨ (virt.toNat + len.toNat ≤ 0xFFFF800000000000 ∧
        ∀ a : U64, virt.toNat ≤ a.toNat → a.toNat < virt.toNat + len.toNat →
          WalkGrants mem root needWrite a) := by
  unfold pagingUserRangeOk
  by_cases empty : len = 0#64
  · simp [empty]
  have lenPos : 0 < len.toNat := by
    apply Nat.pos_of_ne_zero
    intro zero
    exact empty (BitVec.eq_of_toNat_eq zero)
  rw [if_neg empty]
  simp only [empty, false_or]
  by_cases wraps : virt + len < virt
  · have past : 2 ^ 64 ≤ virt.toNat + len.toNat := by
      rw [BitVec.lt_def, BitVec.toNat_add] at wraps
      omega
    rw [if_pos wraps]
    constructor
    · intro accepted
      contradiction
    · omega
  rw [if_neg wraps]
  have sum : (virt + len).toNat = virt.toNat + len.toNat := by
    rw [BitVec.lt_def, BitVec.toNat_add] at wraps
    rw [BitVec.toNat_add]
    omega
  have last : (virt + len - 1#64).toNat = virt.toNat + len.toNat - 1 := by
    rw [BitVec.toNat_sub_of_le (by rw [BitVec.le_def, sum]; simp; omega), sum]
    rfl
  by_cases high : virt.toNat + len.toNat ≤ 0xFFFF800000000000
  · have low : (pagingIsHigherHalf virt || pagingIsHigherHalf (virt + len - 1#64)) = false := by
      simp only [pagingIsHigherHalf, BitVec.le_def, last, Bool.or_eq_false_iff,
        decide_eq_false_iff_not]
      simp
      omega
    rw [low, if_neg (by simp)]
    by_cases rooted : root = 0#64
    · rw [if_pos rooted]
      constructor
      · intro accepted
        contradiction
      · rintro ⟨_, granted⟩
        exact absurd rooted (granted virt (Nat.le_refl _) (by omega)).1
    · rw [if_neg rooted, userRangeLoop_iff rooted (by omega) (by simp) (by simp; omega)]
      simp only [sum, toNat_pageDown, high, true_and]
      constructor
      · intro granted a above below
        exact granted a (by omega) below
      · intro granted a above below
        by_cases early : a.toNat < virt.toNat
        · exact WalkGrants.of_page (by omega) (granted virt (Nat.le_refl _) (by omega))
        · exact granted a (by omega) below
  · have upper : (pagingIsHigherHalf virt || pagingIsHigherHalf (virt + len - 1#64)) = true := by
      simp only [pagingIsHigherHalf, BitVec.le_def, last, Bool.or_eq_true, decide_eq_true_eq]
      simp
      omega
    rw [upper, if_pos rfl]
    simp [high]

/-- What the comment above `paging_user_range_ok` promises: only canonical
lower-half addresses whose walk lets ring 3 through are accepted, and a range of
such addresses that does not wrap is accepted. -/
structure RangeCheckContract (mem : TableMem) (root virt len : U64) (needWrite : Bool) : Prop where
  sound : pagingUserRangeOk mem root virt len needWrite = true →
    ∀ a : U64, virt.toNat ≤ a.toNat → a.toNat < virt.toNat + len.toNat →
      a.toNat < 2 ^ 47 ∧ WalkGrants mem root needWrite a
  complete : virt.toNat + len.toNat < 2 ^ 64 →
    (∀ a : U64, virt.toNat ≤ a.toNat → a.toNat < virt.toNat + len.toNat →
      a.toNat < 2 ^ 47 ∧ WalkGrants mem root needWrite a) →
    pagingUserRangeOk mem root virt len needWrite = true

/-- The range reaches into the non-canonical hole while the walk, which looks at
bits 12..47 only, grants every address of it. -/
def HoleRangeGranted (mem : TableMem) (root virt len : U64) (needWrite : Bool) : Prop :=
  0 < len.toNat ∧ 2 ^ 47 < virt.toNat + len.toNat ∧
    virt.toNat + len.toNat ≤ 0xFFFF800000000000 ∧
    ∀ a : U64, virt.toNat ≤ a.toNat → a.toNat < virt.toNat + len.toNat →
      WalkGrants mem root needWrite a

theorem exists_last_address (fits : virt.toNat + len.toNat < 2 ^ 64) :
    ∃ a : U64, a.toNat = virt.toNat + len.toNat - 1 :=
  ⟨BitVec.ofNat 64 (virt.toNat + len.toNat - 1), by
    exact Nat.mod_eq_of_lt (by omega)⟩

theorem rangeCheckContract_iff (mem : TableMem) (root virt len : U64) (needWrite : Bool) :
    RangeCheckContract mem root virt len needWrite ↔
      ¬ HoleRangeGranted mem root virt len needWrite := by
  constructor
  · rintro ⟨sound, _⟩ ⟨some, beyond, below, granted⟩
    have accepted := pagingUserRangeOk_iff.mpr (.inr ⟨below, granted⟩)
    -- the last address of the range is in the hole
    obtain ⟨last, place⟩ := @exists_last_address virt len (by omega)
    have canonical := (sound accepted last (by omega) (by omega)).1
    omega
  · intro clear
    constructor
    · intro accepted a above within
      rcases pagingUserRangeOk_iff.mp accepted with empty | ⟨below, granted⟩
      · subst empty
        simp only [BitVec.toNat_ofNat, Nat.zero_mod, Nat.add_zero] at within
        omega
      · refine ⟨?_, granted a above within⟩
        apply Nat.lt_of_not_le
        intro hole
        exact clear ⟨by omega, by omega, below, granted⟩
    · intro fits granted
      apply pagingUserRangeOk_iff.mpr
      by_cases empty : len.toNat = 0
      · exact .inl (BitVec.eq_of_toNat_eq empty)
      · refine .inr ⟨?_, fun a above within => (granted a above within).2⟩
        obtain ⟨last, place⟩ := exists_last_address fits
        have canonical := (granted last (by omega) (by omega)).1
        omega

/-- User page 0x8000000000 mapped to frame 0x5000 under tables 0x1000..0x4000. -/
def onePageTables : TableMem := fun table index =>
  if table = 0x1000#64 ∧ index.val = 1 then 0x2007#64
  else if table = 0x2000#64 ∧ index.val = 0 then 0x3007#64
  else if table = 0x3000#64 ∧ index.val = 0 then 0x4007#64
  else if table = 0x4000#64 ∧ index.val = 0 then 0x5007#64
  else 0#64

theorem nonCanonical_accepted :
    pagingUserRangeOk onePageTables 0x1000#64 0x0001008000000000#64 1#64 true = true := by
  decide

/-- The check accepts an address with bit 48 set. -/
theorem rangeCheckContract_fails :
    ¬ RangeCheckContract onePageTables 0x1000#64 0x0001008000000000#64 1#64 true := by
  intro contract
  have canonical := (contract.sound nonCanonical_accepted 0x0001008000000000#64
    (by decide) (by decide)).1
  revert canonical
  decide

end Cos.Paging
