import Cos.Lib.Run
import Mathlib.Logic.Function.Basic
import Mathlib.Algebra.Group.Nat.Defs

/-! # The prekeys of the Message client

The whole store is written to the disk, used slots and others.  A prekey is deleted by wiping its
slot and moving the last one into it; the slot that was the last keeps what was moved.
-/

namespace Cos.Prekeys

open Cos.Lib
open Function (update update_of_ne update_self update_apply)

def maxSpk : Nat := 6

/-- `E2E_ROTATE`, a week in seconds. -/
def rotateSeconds : Nat := 604800

/-- `E2E_KEEP`, thirty days. -/
def keepSeconds : Nat := 2592000

/-- `e2e_spk_t`. -/
structure Spk where
  id : Nat
  created : Nat
  priv : Nat
deriving DecidableEq, Repr

/-- The prekeys of `e2e_store_t`; a slot of zeros is `none`. -/
structure Store where
  nspk : Nat
  spk : Nat → Option Spk

def Store.id (s : Store) (i : Nat) : Nat := ((s.spk i).map Spk.id).getD 0

def Store.created (s : Store) (i : Nat) : Nat := ((s.spk i).map Spk.created).getD 0

/-- The loop of `e2e_newest` over the first `n` slots. -/
def newestOf (s : Store) : Nat → Option Nat
  | 0 => none
  | n + 1 =>
      match newestOf s n with
      | none => some n
      | some b => if s.id b < s.id n then some n else some b

def Store.newest (s : Store) : Option Nat := newestOf s s.nspk

/-- The prekey that `e2e_newest` points to. -/
def Store.newestSpk (s : Store) : Option Spk := s.newest.bind s.spk

/-- The loop for the oldest of the first `n + 1` slots. -/
def oldestOf (s : Store) : Nat → Nat
  | 0 => 0
  | n + 1 => if s.id (n + 1) < s.id (oldestOf s n) then n + 1 else oldestOf s n

/-- `spk[i] = spk[--nspk]`. -/
def Store.replaceByLast (s : Store) (i : Nat) : Store :=
  { nspk := s.nspk - 1, spk := update s.spk i (s.spk (s.nspk - 1)) }

def Store.makeRoom (s : Store) : Store :=
  if s.nspk = maxSpk then s.replaceByLast (oldestOf s (s.nspk - 1)) else s

def Store.append (s : Store) (k : Spk) : Store := ⟨s.nspk + 1, update s.spk s.nspk (some k)⟩

def Store.due (s : Store) (now : BitVec 32) : Bool :=
  match s.newest with
  | none => true
  | some b => decide ((s.created b + rotateSeconds) % 2 ^ 32 < now.toNat)

def Store.nextId (s : Store) : Nat :=
  match s.newest with
  | none => 1
  | some b => (s.id b + 1) % 2 ^ 32

/-- The first part of `e2e_maintain`; `priv` is what `e2e_new_spk` draws. -/
def Store.rotate (s : Store) (now : BitVec 32) (priv : Nat) : Store :=
  if s.due now then s.makeRoom.append ⟨s.nextId, now.toNat, priv⟩ else s

def Store.removes (s : Store) (now : BitVec 32) (i : Nat) : Bool :=
  decide (s.newest ≠ some i ∧ (s.created i + keepSeconds) % 2 ^ 32 < now.toNat)

/-- `e2e_wipe` of a slot, and the last one in its place. -/
def Store.remove (s : Store) (i : Nat) : Store :=
  ({ s with spk := update s.spk i none } : Store).replaceByLast i

/-- The second loop of `e2e_maintain`. -/
def expire (now : BitVec 32) : Nat → Nat → Store → Store
  | 0, _, s => s
  | fuel + 1, i, s =>
      if i < s.nspk then
        if s.removes now i then expire now fuel i (s.remove i) else expire now fuel (i + 1) s
      else s

structure MaintainCall where
  now : BitVec 32
  priv : Nat
deriving DecidableEq, Repr

/-- `e2e_maintain`; its loop makes one round for each live slot. -/
def maintain (s : Store) (call : MaintainCall) : Store :=
  let s := s.rotate call.now call.priv
  expire call.now s.nspk 0 s

def emptyStore : Store := ⟨0, fun _ => none⟩

def Outdated (now : BitVec 32) (newest : Option Spk) (k : Spk) : Prop :=
  k.created + keepSeconds < now.toNat ∧ newest ≠ some k

instance (now : BitVec 32) (newest : Option Spk) (k : Spk) : Decidable (Outdated now newest k) :=
  inferInstanceAs (Decidable (_ ∧ _))

def NoneOutdated (now : BitVec 32) (newest : Option Spk) (s : Store) (first : Nat) : Prop :=
  ∀ i < maxSpk, first ≤ i → ∀ k ∈ s.spk i, ¬ Outdated now newest k

instance (now : BitVec 32) (newest : Option Spk) (s : Store) (first : Nat) :
    Decidable (NoneOutdated now newest s first) :=
  inferInstanceAs (Decidable (∀ i < maxSpk, first ≤ i → ∀ k ∈ s.spk i, ¬ Outdated now newest k))

/-- The live slots hold prekeys with different numbers, and `newest` is the one with the
greatest. -/
structure Live (s : Store) (newest : Spk) : Prop where
  size : s.nspk ≤ maxSpk
  filled : ∀ i < s.nspk, ∃ k, s.spk i = some k ∧ k.id ≤ newest.id
  unique : ∀ i < s.nspk, ∀ j < s.nspk, s.id i = s.id j → i = j
  there : ∃ i < s.nspk, s.spk i = some newest

/-- What a call leaves behind: at most six prekeys with different numbers, the newest one among
them, and in no slot an outdated one. -/
structure Maintained (before : Store) (call : MaintainCall) (after : Store) : Prop where
  size : after.nspk ≤ maxSpk
  filled : ∀ i < after.nspk, after.spk i ≠ none
  unique : ∀ i < after.nspk, ∀ j < after.nspk, after.id i = after.id j → i = j
  newest : after.newestSpk =
    if before.due call.now then some ⟨before.nextId, call.now.toNat, call.priv⟩
    else before.newestSpk
  clean : NoneOutdated call.now after.newestSpk after 0

/-- A prekey of the store before a call that is too old by then, and not the newest after it. -/
def Store.old (s : Store) (now : BitVec 32) (j : Nat) : Bool :=
  decide ((s.created j + keepSeconds) % 2 ^ 32 < now.toNat) && (s.due now || s.newest != some j)

/-- How many prekeys the second loop begins with. -/
def Store.count (s : Store) (now : BitVec 32) : Nat :=
  if s.due now then min s.nspk (maxSpk - 1) + 1 else s.nspk

/-- Which slot of the store before the call has what the second loop finds in slot `i`; `none` is
the new prekey. -/
def Store.source (s : Store) (now : BitVec 32) (i : Nat) : Option Nat :=
  if s.due now then
    if i = min s.nspk (maxSpk - 1) then none
    else if s.nspk = maxSpk ∧ i = oldestOf s (s.nspk - 1) then some (s.nspk - 1)
    else some i
  else some i

def Store.expires (s : Store) (now : BitVec 32) (i : Nat) : Bool := (s.source now i).any (s.old now)

/-- How many of the slots up to `i` expire. -/
def Store.rank (s : Store) (now : BitVec 32) (i : Nat) : Nat :=
  (List.range (i + 1)).countP (s.expires now)

/-- The numbers do not run out; no prekey that expires has a copy in a slot out of use; and if `t`
slots up to `i` expire, `i` among them, the last prekey but `t - 1` does not expire or is not behind
`i`. -/
def maintainCondition (s : Store) (call : MaintainCall) : Prop :=
  (s.due call.now = true → ∀ b ∈ s.newest, s.id b + 1 < 2 ^ 32) ∧
    (∀ j < maxSpk, s.count call.now ≤ j → ∀ i < s.nspk, s.old call.now i = true →
      s.spk j ≠ s.spk i) ∧ ∀ i < s.count call.now, s.expires call.now i = true →
        s.count call.now - s.rank call.now i ≤ i ∨ s.expires call.now (s.count call.now - s.rank call.now i) = false

instance (s : Store) (call : MaintainCall) : Decidable (maintainCondition s call) :=
  inferInstanceAs (Decidable (_ ∧ _ ∧ _))

variable {s t : Store} {newest k : Spk} {now : BitVec 32} {i n fuel : Nat}

theorem id_eq (here : s.spk i = some k) : s.id i = k.id := by simp [Store.id, here]

theorem newestOf_greatest (s : Store) (n : Nat) :
    ∃ b ≤ n, newestOf s (n + 1) = some b ∧ ∀ j ≤ n, s.id j ≤ s.id b := by
  induction n with
  | zero => exact ⟨0, Nat.le_refl _, rfl,
    fun j atMost => Nat.le_of_eq (by rw [Nat.le_zero.mp atMost])⟩
  | succ n ih =>
      obtain ⟨b, inside, isNewest, greatest⟩ := ih
      rw [newestOf, isNewest]
      dsimp only
      split
      next later =>
        refine ⟨n + 1, Nat.le_refl _, rfl, fun j atMost => ?_⟩
        rcases Nat.le_succ_iff.mp atMost with before | rfl
        · exact Nat.le_trans (greatest j before) (Nat.le_of_lt later)
        · exact Nat.le_refl _
      next earlier =>
        refine ⟨b, by omega, rfl, fun j atMost => ?_⟩
        rcases Nat.le_succ_iff.mp atMost with before | rfl
        · exact greatest j before
        · exact Nat.not_lt.mp earlier

theorem Live.newest_some (live : Live s newest) :
    ∃ b < s.nspk, s.newest = some b ∧ s.spk b = some newest := by
  obtain ⟨j, inside, isNewest⟩ := live.there
  obtain ⟨n, isSize⟩ : ∃ n, s.nspk = n + 1 := ⟨s.nspk - 1, by omega⟩
  obtain ⟨b, atMost, found, greatest⟩ := newestOf_greatest s n
  have small : b < s.nspk := by omega
  obtain ⟨k, isK, below⟩ := live.filled b small
  have above := greatest j (by omega)
  rw [id_eq isNewest, id_eq isK] at above
  have same : b = j := live.unique b small j inside (by rw [id_eq isK, id_eq isNewest]; omega)
  exact ⟨b, small, by rw [Store.newest, isSize, found], same ▸ isNewest⟩

theorem Live.newestSpk (live : Live s newest) : s.newestSpk = some newest := by
  obtain ⟨b, -, found, isNewest⟩ := live.newest_some
  rw [Store.newestSpk, found, Option.bind_some, isNewest]

theorem oldestOf_least (s : Store) (n : Nat) :
    oldestOf s n ≤ n ∧ ∀ j ≤ n, s.id (oldestOf s n) ≤ s.id j := by
  induction n with
  | zero => exact ⟨Nat.le_refl _,
    fun j atMost => Nat.le_of_eq (by rw [Nat.le_zero.mp atMost, oldestOf])⟩
  | succ n ih =>
      rw [oldestOf]
      split
      next earlier =>
        refine ⟨Nat.le_refl _, fun j atMost => ?_⟩
        rcases Nat.le_succ_iff.mp atMost with before | rfl
        · exact Nat.le_trans (Nat.le_of_lt earlier) (ih.2 j before)
        · exact Nat.le_refl _
      next later =>
        refine ⟨by omega, fun j atMost => ?_⟩
        rcases Nat.le_succ_iff.mp atMost with before | rfl
        · exact ih.2 j before
        · exact Nat.not_lt.mp later

theorem Live.moved (live : Live s newest) (less : t.nspk + 1 = s.nspk) (inside : i < s.nspk)
    (other : s.spk i ≠ some newest)
    (slots : ∀ j < t.nspk, t.spk j = if j = i then s.spk t.nspk else s.spk j) : Live t newest := by
  have from_ (j : Nat) (small : j < t.nspk) :
    ∃ x < s.nspk, t.spk j = s.spk x ∧ x ≠ i ∧ (x = j ∨ j = i ∧ x = t.nspk) := by
    by_cases isI : j = i
    · exact ⟨t.nspk, by omega, by rw [slots j small, if_pos isI], by omega, .inr ⟨isI, rfl⟩⟩
    · exact ⟨j, by omega, by rw [slots j small, if_neg isI], isI, .inl rfl⟩
  have ids (j x : Nat) (same : t.spk j = s.spk x) : t.id j = s.id x := by
    rw [Store.id, Store.id, same]
  refine ⟨by have := live.size; omega, fun j small => ?_, fun j small j' small' same => ?_, ?_⟩
  · obtain ⟨x, inS, same, -⟩ := from_ j small
    rw [same]
    exact live.filled x inS
  · obtain ⟨x, inS, isX, -, whichX⟩ := from_ j small
    obtain ⟨y, inS', isY, -, whichY⟩ := from_ j' small'
    have := live.unique x inS y inS' (by rw [← ids j x isX, ← ids j' y isY, same])
    omega
  · obtain ⟨j, inS, isNewest⟩ := live.there
    have apart : j ≠ i := fun same => other (same ▸ isNewest)
    by_cases last : j = t.nspk
    · exact ⟨i, by omega, by rw [slots i (by omega), if_pos rfl, ← last, isNewest]⟩
    · exact ⟨j, by omega, by rw [slots j (by omega), if_neg apart, isNewest]⟩

theorem remove_slot (s : Store) (i j : Nat) :
    (s.remove i).spk j = if j = i then (if i = s.nspk - 1 then none else s.spk (s.nspk - 1))
    else s.spk j := by
  simp only [Store.remove, Store.replaceByLast, update_apply, eq_comm]
  split <;> rfl

theorem Live.remove (live : Live s newest) (inside : i < s.nspk) (other : s.spk i ≠ some newest) :
    Live (s.remove i) newest := by
  refine live.moved (t := s.remove i) (by simp only [Store.remove, Store.replaceByLast]; omega)
    inside other fun j small => ?_
  have size : (s.remove i).nspk = s.nspk - 1 := rfl
  rw [remove_slot, size]
  split
  · rw [if_neg (by omega)]
  · rfl

theorem Live.makeRoom (live : Live s newest) :
    Live s.makeRoom newest ∧ s.makeRoom.nspk < maxSpk := by
  have size := live.size
  rw [maxSpk] at size ⊢
  rw [Store.makeRoom]
  split
  next full =>
    rw [maxSpk] at full
    obtain ⟨atMost, least⟩ := oldestOf_least s (s.nspk - 1)
    obtain ⟨o, isOldest⟩ : ∃ o, oldestOf s (s.nspk - 1) = o := ⟨_, rfl⟩
    rw [isOldest] at atMost least ⊢
    have other : s.spk o ≠ some newest := by
      intro isNewest
      have all (j : Nat) (small : j < s.nspk) : j = o := by
        obtain ⟨k, isK, below⟩ := live.filled j small
        have := least j (by omega)
        rw [id_eq isNewest, id_eq isK] at this
        exact live.unique j small o (by omega) (by rw [id_eq isNewest, id_eq isK]; omega)
      have := all 0 (by omega)
      have := all 1 (by omega)
      omega
    refine ⟨live.moved (t := s.replaceByLast o) (by simp only [Store.replaceByLast]; omega) (by omega) other
      fun j small => ?_, by simp only [Store.replaceByLast]; omega⟩
    simp only [Store.replaceByLast, update_apply]
  next less =>
    rw [maxSpk] at less
    exact ⟨live, by omega⟩

theorem Live.append (live : Live s newest) (room : s.nspk < maxSpk) (later : newest.id < k.id) :
    Live (s.append k) k := by
  have old (j : Nat) (small : j < s.nspk) : (s.append k).spk j = s.spk j :=
    update_of_ne (by omega) _ _
  have new : (s.append k).spk s.nspk = some k := update_self _ _ _
  have size : (s.append k).nspk = s.nspk + 1 := rfl
  have ids (j : Nat) (small : j < s.nspk) : (s.append k).id j = s.id j ∧ s.id j < k.id := by
    obtain ⟨x, isX, below⟩ := live.filled j small
    rw [Store.id, old j small, id_eq isX, isX]
    exact ⟨rfl, by omega⟩
  refine ⟨by omega, fun j small => ?_, fun j small j' small' same => ?_, ⟨s.nspk, by omega, new⟩⟩
  · by_cases isOld : j < s.nspk
    · obtain ⟨x, isX, below⟩ := live.filled j isOld
      exact ⟨x, (old j isOld).trans isX, by omega⟩
    · exact ⟨k, by rw [show j = s.nspk by omega, new], Nat.le_refl _⟩
  · have last := id_eq new
    by_cases isOld : j < s.nspk <;> by_cases isOld' : j' < s.nspk
    · rw [(ids j isOld).1, (ids j' isOld').1] at same
      exact live.unique j isOld j' isOld' same
    · have := ids j isOld
      rw [show j' = s.nspk by omega] at same
      omega
    · have := ids j' isOld'
      rw [show j = s.nspk by omega] at same
      omega
    · omega

/-- What the loop deletes. -/
def Store.Expired (s : Store) (now : BitVec 32) (newest : Spk) (i : Nat) : Prop :=
  ∃ k, s.spk i = some k ∧ k ≠ newest ∧ (k.created + keepSeconds) % 2 ^ 32 < now.toNat

theorem Live.is_newest (live : Live s newest) (inside : i < s.nspk) :
    s.newest = some i ↔ s.spk i = some newest := by
  obtain ⟨b, small, isNewest, here⟩ := live.newest_some
  rw [isNewest, Option.some.injEq]
  constructor
  · rintro rfl
    exact here
  · intro same
    exact live.unique b small i inside (by rw [id_eq here, id_eq same])

theorem Live.too_old_iff (live : Live s newest) (inside : i < s.nspk) :
    s.newest ≠ some i ∧ (s.created i + keepSeconds) % 2 ^ 32 < now.toNat ↔
    s.Expired now newest i := by
  obtain ⟨k, isK, -⟩ := live.filled i inside
  have created : s.created i = k.created := by
    rw [Store.created, isK, Option.map_some, Option.getD_some]
  rw [Ne, live.is_newest inside, isK, Option.some.injEq, created, Store.Expired, isK]
  exact ⟨fun both => ⟨k, rfl, both⟩, fun ⟨_, same, both⟩ => Option.some.inj same ▸ both⟩

theorem Live.removes_iff (live : Live s newest) (inside : i < s.nspk) :
    s.removes now i = true ↔ s.Expired now newest i := by
  rw [Store.removes, decide_eq_true_eq, live.too_old_iff inside]

theorem outdated_expired {j : Nat} (here : s.spk j = some k)
    (outdated : Outdated now (some newest) k) : s.Expired now newest j := by
  have bound := now.isLt
  obtain ⟨old, other⟩ := outdated
  exact ⟨k, here, fun same => other (same ▸ rfl), by rwa [Nat.mod_eq_of_lt (by omega)]⟩

/-- What is in a slot out of use is in one in use too, and does not expire. -/
def CopiesOnly (now : BitVec 32) (newest : Spk) (s : Store) : Prop :=
  ∀ j < maxSpk, s.nspk ≤ j →
    ¬ s.Expired now newest j ∧ (s.spk j = none ∨ ∃ i < s.nspk, s.spk j = s.spk i)

/-- The loop has passed the first `c` of the slots it began with. -/
structure Passed (now : BitVec 32) (newest : Spk) (expires : Nat → Bool) (count : Nat) (s : Store)
    (c : Nat) : Prop where
  live : Live s newest
  removed : s.nspk + (List.range c).countP expires = count
  rest : ∀ j < s.nspk, c ≤ j → (expires j = true ↔ s.Expired now newest j)
  front : ∀ j < s.nspk, j < c → ¬ s.Expired now newest j
  unused : CopiesOnly now newest s

variable {expires : Nat → Bool} {count c : Nat}

theorem remove_expired {x j : Nat} (same : (s.remove i).spk j = s.spk x) :
    (s.remove i).Expired now newest j ↔ s.Expired now newest x := by
  rw [Store.Expired, Store.Expired, same]

theorem Passed.remove (passed : Passed now newest expires count s i) (inside : i < s.nspk)
    (expired : s.Expired now newest i)
    (moves : count - (List.range (i + 1)).countP expires ≤ i ∨
    expires (count - (List.range (i + 1)).countP expires) =
    false) : Passed now newest expires count (s.remove i) (i + 1) := by
  obtain ⟨live, removed, rest, front, unused⟩ := passed
  have goes : expires i = true := (rest i inside (Nat.le_refl i)).mpr expired
  have rank : (List.range (i + 1)).countP expires = (List.range i).countP expires + 1 := by
    rw [List.range_succ, List.countP_append, List.countP_singleton, if_pos goes]
  have size : (s.remove i).nspk = s.nspk - 1 := rfl
  have other : s.spk i ≠ some newest := by
    obtain ⟨k, isK, isOther, -⟩ := expired
    rw [isK, Ne, Option.some.injEq]
    exact isOther
  have same (j : Nat) (apart : j ≠ i) : (s.remove i).spk j = s.spk j := by
    rw [remove_slot, if_neg apart]
  rw [show count - (List.range (i + 1)).countP expires = s.nspk - 1 by omega] at moves
  -- what is moved does not expire
  have moved (before : i < s.nspk - 1) :
    (s.remove i).spk i = s.spk (s.nspk - 1) ∧ ¬ s.Expired now newest (s.nspk - 1) := by
    refine ⟨by rw [remove_slot, if_pos rfl, if_neg (by omega)], fun late => ?_⟩
    rw [(rest _ (by omega) (by omega)).mpr late] at moves
    rcases moves with wrong | wrong
    · omega
    · cases wrong
  refine ⟨live.remove inside other, by omega, fun j small after => ?_, fun j small before => ?_, fun j inStore beyond => ?_⟩
  · rw [remove_expired (same j (by omega))]
    exact rest j (by omega) (by omega)
  · by_cases isI : j = i
    · rw [isI, remove_expired (moved (by omega)).1]
      exact (moved (by omega)).2
    · rw [remove_expired (same j isI)]
      exact front j (by omega) (by omega)
  · by_cases isI : j = i
    · have gone : (s.remove i).spk j = none := by rw [remove_slot, if_pos isI, if_pos (by omega)]
      refine ⟨?_, Or.inl gone⟩
      rintro ⟨k, isK, -⟩
      rw [gone] at isK
      cases isK
    · rw [remove_expired (same j isI), same j isI]
      by_cases isLast : j = s.nspk - 1
      · obtain ⟨copied, stays⟩ := moved (by omega)
        exact ⟨isLast ▸ stays, Or.inr ⟨i, by omega, by rw [isLast, copied]⟩⟩
      · obtain ⟨stays, none | ⟨x, inUse, copy⟩⟩ := unused j inStore (by omega)
        · exact ⟨stays, Or.inl none⟩
        · refine ⟨stays, Or.inr ?_⟩
          have apart : x ≠ i := by
            rintro rfl
            refine stays ?_
            rw [Store.Expired, copy]
            exact expired
          by_cases wasLast : x = s.nspk - 1
          · exact ⟨i, by omega, by rw [copy, wasLast, (moved (by omega)).1]⟩
          · exact ⟨x, by omega, by rw [copy, same x apart]⟩

theorem Passed.pass (passed : Passed now newest expires count s c) (place : c = i ∨ c = i + 1)
    (inside : i < s.nspk) (stays : ¬ s.Expired now newest i) :
    Passed now newest expires count s (i + 1) := by
  rcases place with rfl | rfl
  · have keeps : expires c = false := by
      rw [Bool.eq_false_iff]
      exact fun goes => stays ((passed.rest c inside (Nat.le_refl c)).mp goes)
    refine ⟨passed.live, ?_, fun j small after => passed.rest j small (by omega), fun j small before => ?_, passed.unused⟩
    · rw [List.range_succ, List.countP_append, List.countP_singleton, if_neg (by simp [keeps])]
      exact passed.removed
    · by_cases isC : j = c
      · exact isC ▸ stays
      · exact passed.front j small (by omega)
  · exact passed

theorem expire_clean (passed : Passed now newest expires count s c) (place : c = i ∨ c = i + 1)
    (enough : s.nspk ≤ fuel + i) (moves : ∀ j < count, expires j = true →
      count - (List.range (j + 1)).countP expires ≤ j ∨ expires (count - (List.range (j + 1)).countP expires) = false) :
    Live (expire now fuel i s) newest ∧ CopiesOnly now newest (expire now fuel i s) ∧
      ∀ j < (expire now fuel i s).nspk, ¬ (expire now fuel i s).Expired now newest j := by
  have ended (past : s.nspk ≤ i) :
    Live s newest ∧ CopiesOnly now newest s ∧ ∀ j < s.nspk, ¬ s.Expired now newest j :=
    ⟨passed.live, passed.unused, fun j small => passed.front j small (by omega)⟩
  induction fuel generalizing i c s with
  | zero => exact ended (by omega)
  | succ fuel ih =>
      rw [expire]
      split
      next inside =>
        split
        next removed =>
          have expired := (passed.live.removes_iff inside).mp removed
          obtain rfl : c = i := place.resolve_right fun isNext => passed.front i inside (by omega) expired
          have below : c < count := by have := passed.removed; omega
          have goes := (passed.rest c inside (Nat.le_refl c)).mpr expired
          have after := passed.remove inside expired (moves c below goes)
          have size : (s.remove c).nspk = s.nspk - 1 := rfl
          refine ih after (Or.inr rfl) (by omega) fun past => ⟨after.live, after.unused, fun j small => ?_⟩
          exact after.front j small (by omega)
        next kept =>
          have after := passed.pass place inside fun expired => kept ((passed.live.removes_iff inside).mpr expired)
          refine ih after (Or.inl rfl) (by omega) fun past => ⟨after.live, after.unused, fun j small => ?_⟩
          exact after.front j small (by omega)
      next out => exact ended (by omega)

/-- A store that was never used, or one whose prekeys are in order; what is in a slot out of use is
in one in use. -/
structure Sound (s : Store) : Prop where
  used : s.nspk = 0 ∨ ∃ newest, Live s newest
  copies : ∀ j < maxSpk, s.nspk ≤ j → s.spk j = none ∨ ∃ i < s.nspk, s.spk j = s.spk i

/-- The store that the second loop begins with. -/
structure Rotated (s : Store) (call : MaintainCall) (r : Store) (newest : Spk) : Prop where
  live : Live r newest
  isNewest : some newest = if s.due call.now then some ⟨s.nextId, call.now.toNat, call.priv⟩
    else s.newestSpk
  size : r.nspk = s.count call.now
  slots : ∀ i < r.nspk, (s.source call.now i = none ∧ r.spk i = some newest) ∨
    ∃ j < s.nspk, s.source call.now i = some j ∧ r.spk i = s.spk j
  others : ∀ j < maxSpk, r.nspk ≤ j → r.spk j = s.spk j ∧ s.nspk ≤ j
  kept : ∀ j < s.nspk, r.nspk < maxSpk → ∃ i < r.nspk, r.spk i = s.spk j
  older : ∀ j < s.nspk, ((s.due call.now || s.newest != some j) = true ↔ s.spk j ≠ some newest)

variable {call : MaintainCall} {r : Store}

theorem Live.rotated_same (live : Live s newest) (early : s.due call.now = false) :
    Rotated s call s newest where
  live := live
  isNewest := by rw [early, if_neg Bool.false_ne_true, live.newestSpk]
  size := by rw [Store.count, early, if_neg Bool.false_ne_true]
  slots i inside := Or.inr ⟨i, inside, by rw [Store.source, early, if_neg Bool.false_ne_true], rfl⟩
  others j _ beyond := ⟨rfl, beyond⟩
  kept j inside _ := ⟨j, inside, rfl⟩
  older j inside := by
    rw [early, Bool.false_or, bne_iff_ne, Ne, live.is_newest inside]

/-- A new prekey goes behind the others, or behind the five that are left when the last one has
taken the oldest one's place. -/
theorem rotated_new {k : Spk} (due : s.due call.now = true)
    (isNew : k = ⟨s.nextId, call.now.toNat, call.priv⟩)
    (small : s.nspk ≤ maxSpk) (earlier : ∀ j < s.nspk, s.spk j ≠ some k)
    (live : Live (s.makeRoom.append k) k) : Rotated s call (s.makeRoom.append k) k := by
  have six : maxSpk = 6 := rfl
  obtain ⟨room, roomy⟩ : s.makeRoom.nspk = min s.nspk (maxSpk - 1) ∧ ∀ j, s.makeRoom.spk j =
      if s.nspk = maxSpk ∧ j = oldestOf s (s.nspk - 1) then s.spk (s.nspk - 1) else s.spk j := by
    unfold Store.makeRoom
    split
    next full =>
      refine ⟨show s.nspk - 1 = _ by omega, fun j => ?_⟩
      simp only [Store.replaceByLast, update_apply, full, true_and]
    next less => exact ⟨by omega, fun j => by rw [if_neg fun both => less both.1]⟩
  have size : (s.makeRoom.append k).nspk = min s.nspk (maxSpk - 1) + 1 := congrArg (· + 1) room
  have slot (j : Nat) : (s.makeRoom.append k).spk j = if j = min s.nspk (maxSpk - 1) then some k
      else if s.nspk = maxSpk ∧ j = oldestOf s (s.nspk - 1) then s.spk (s.nspk - 1) else s.spk j := by
    simp only [Store.append, update_apply, room, roomy]
  refine ⟨live, by rw [if_pos due, isNew], by rw [size, Store.count, if_pos due], fun i inside => ?_, fun j inStore beyond => ?_,
    fun j inside room => ⟨j, by omega, ?_⟩, fun j inside => ?_⟩
  · rw [size] at inside
    rw [slot, Store.source, if_pos due]
    split
    next => exact Or.inl ⟨rfl, rfl⟩
    next before =>
      right
      split
      next full => exact ⟨s.nspk - 1, by rw [full.1, maxSpk]; decide, rfl, rfl⟩
      next => exact ⟨i, by omega, rfl, rfl⟩
  · rw [size] at beyond
    rw [slot, if_neg (by omega), if_neg (by omega)]
    exact ⟨rfl, by omega⟩
  · rw [size] at room
    rw [slot, if_neg (by omega), if_neg (by omega)]
  · rw [due, Bool.true_or]
    exact ⟨fun _ => earlier j inside, fun _ => rfl⟩

theorem Sound.rotate (sound : Sound s)
    (enough : s.due call.now = true → ∀ b ∈ s.newest, s.id b + 1 < 2 ^ 32) :
    ∃ newest, Rotated s call (s.rotate call.now call.priv) newest := by
  rcases sound.used with empty | ⟨newest, live⟩
  · have none : s.newest = none := by rw [Store.newest, empty, newestOf]
    have isDue : s.due call.now = true := by rw [Store.due, none]
    rw [Store.rotate, if_pos isDue]
    refine ⟨_, rotated_new isDue rfl (by omega) (fun j inside => by omega) ?_⟩
    have same : s.makeRoom = s := by rw [Store.makeRoom, if_neg (by rw [empty]; decide)]
    rw [same]
    refine ⟨?_, ?_, ?_, ⟨0, ?_, ?_⟩⟩
    · simp [Store.append, empty, maxSpk]
    · intro j small
      simp only [Store.append, empty] at small ⊢
      exact ⟨_, by rw [show j = 0 by omega, update_self], Nat.le_refl _⟩
    · intro j small j' small' _
      simp only [Store.append, empty] at small small'
      omega
    · simp [Store.append]
    · simp [Store.append, empty]
  · obtain ⟨b, -, isNewest, here⟩ := live.newest_some
    rw [Store.rotate]
    by_cases isDue : s.due call.now = true
    · have small := enough isDue b isNewest
      have next : s.nextId = newest.id + 1 := by
        rw [Store.nextId, isNewest]
        dsimp only
        rw [Nat.mod_eq_of_lt small, id_eq here]
      rw [if_pos isDue]
      obtain ⟨roomy, room⟩ := live.makeRoom
      refine ⟨_, rotated_new isDue rfl live.size (fun j inside same => ?_) (roomy.append room ?_)⟩
      · obtain ⟨k, isK, below⟩ := live.filled j inside
        have ids := congrArg Spk.id (Option.some.inj (isK.symm.trans same))
        dsimp only at ids
        omega
      · dsimp only
        omega
    · rw [if_neg isDue]
      exact ⟨newest, live.rotated_same (Bool.eq_false_iff.mpr isDue)⟩

theorem Rotated.old_iff {j : Nat} (rotated : Rotated s call r newest) (inside : j < s.nspk)
    (here : s.spk j = some k) :
    s.old call.now j = true ↔ k ≠ newest ∧ (k.created + keepSeconds) % 2 ^ 32 < call.now.toNat := by
  have created : s.created j = k.created := by
    rw [Store.created, here, Option.map_some, Option.getD_some]
  rw [Store.old, Bool.and_eq_true, rotated.older j inside, here, Ne, Option.some.injEq, created,
    decide_eq_true_eq, and_comm]

theorem Rotated.expires_iff (rotated : Rotated s call r newest) (inside : i < r.nspk) :
    s.expires call.now i = true ↔ r.Expired call.now newest i := by
  obtain ⟨k, isK, -⟩ := rotated.live.filled i inside
  rw [Store.expires, Store.Expired, isK]
  rcases rotated.slots i inside with ⟨isNew, isNewest⟩ | ⟨j, inS, isOld, same⟩
  · rw [isNew, Option.any_none]
    rw [isK, Option.some.injEq] at isNewest
    exact ⟨(by rintro ⟨⟩), fun ⟨_, same, other, _⟩ => absurd (Option.some.inj same ▸ isNewest) other⟩
  · rw [isOld, Option.any_some, rotated.old_iff inS (same ▸ isK)]
    exact ⟨fun both => ⟨k, rfl, both⟩, fun ⟨_, same, both⟩ => Option.some.inj same ▸ both⟩

theorem Rotated.copiesOnly (rotated : Rotated s call r newest) (sound : Sound s)
    (copies : ∀ j < maxSpk, s.count call.now ≤ j → ∀ i < s.nspk, s.old call.now i = true →
    s.spk j ≠ s.spk i) : CopiesOnly call.now newest r := by
  intro j inStore beyond
  obtain ⟨same, unused⟩ := rotated.others j inStore beyond
  rw [Store.Expired, same]
  obtain none | ⟨x, inS, copy⟩ := sound.copies j inStore unused
  · refine ⟨?_, Or.inl none⟩
    rintro ⟨k, isK, -⟩
    rw [none] at isK
    cases isK
  · obtain ⟨i, inside, kept⟩ := rotated.kept x inS (by omega)
    refine ⟨?_, Or.inr ⟨i, inside, copy.trans kept.symm⟩⟩
    rintro ⟨k, isK, late⟩
    exact copies j inStore (rotated.size ▸ beyond) x inS ((rotated.old_iff inS (copy ▸ isK)).mpr late) copy

theorem Sound.maintain (sound : Sound s) (condition : maintainCondition s call) :
    Maintained s call (maintain s call) ∧ Sound (maintain s call) := by
  obtain ⟨enough, copies, moves⟩ := condition
  obtain ⟨newest, rotated⟩ := sound.rotate enough
  have passed : Passed call.now newest (s.expires call.now) (s.count call.now)
    (s.rotate call.now call.priv) 0 :=
    ⟨rotated.live, rotated.size, fun j inside _ => rotated.expires_iff inside,
      fun j _ before => absurd before (Nat.not_lt_zero j), rotated.copiesOnly sound copies⟩
  obtain ⟨after, only, clean⟩ := expire_clean passed (Or.inl rfl) (Nat.le_add_right _ 0) moves
  refine ⟨⟨after.size, fun i inside => ?_, after.unique, after.newestSpk.trans rotated.isNewest,
    fun i inStore _ k here late =>
    ?_⟩, Or.inr ⟨newest, after⟩, fun j inStore beyond => (only j inStore beyond).2⟩
  · obtain ⟨k, isK, -⟩ := after.filled i inside
    exact isK ▸ Option.some_ne_none k
  · rw [show (Prekeys.maintain s call).newestSpk = some newest from after.newestSpk] at late
    have expired := outdated_expired here late
    by_cases inUse : i < (Prekeys.maintain s call).nspk
    · exact clean i inUse expired
    · exact (only i inStore (Nat.le_of_not_lt inUse)).1 expired

theorem prekeys_maintained (reached : Reaches maintain maintainCondition emptyStore s)
    (condition : maintainCondition s call) : Maintained s call (maintain s call) :=
  have start : Sound emptyStore := ⟨Or.inl rfl, fun _ _ _ => Or.inl rfl⟩
  ((reached.invariant start fun _ _ sound condition => (sound.maintain condition).2).maintain condition).1

/-- A prekey is made each week and the first one is deleted after a month. -/
theorem prekeys_maintained_month : Maintained
    (runSteps maintain emptyStore [⟨1000, 11⟩, ⟨700000, 12⟩, ⟨1400000, 13⟩, ⟨2100000, 14⟩])
    ⟨2800000, 15⟩
    (runSteps maintain emptyStore [⟨1000, 11⟩, ⟨700000, 12⟩, ⟨1400000, 13⟩, ⟨2100000, 14⟩,
    ⟨2800000, 15⟩]) :=
  prekeys_maintained (Reaches.refl.runSteps (by decide)) (by decide)

/-- Three prekeys of three weeks and a gap: the third one is moved before it is deleted, and its old
slot keeps it. -/
theorem prekeys_linger : ¬ Maintained
    (runSteps maintain emptyStore [⟨1000, 11⟩, ⟨700000, 12⟩, ⟨1400000, 13⟩]) ⟨5000000, 14⟩
    (runSteps maintain emptyStore [⟨1000, 11⟩, ⟨700000, 12⟩, ⟨1400000, 13⟩, ⟨5000000, 14⟩]) := by
  intro maintained
  exact absurd maintained.clean (by decide)

end Cos.Prekeys
