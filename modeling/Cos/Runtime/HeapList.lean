import Cos.Lib.Tiling
import Cos.Runtime.Heap

/-! # The list of blocks -/

namespace Cos.Runtime

open Cos.Lib

variable {m m' : Memory} {cookie b c v head last size fuel : Nat} {f : Bool} {s : Span}

def hdrSpan (b : Nat) : Span := ⟨b, b + 32⟩

theorem sizeAt_frame (agree : Agree m m' (hdrSpan b)) : sizeAt m' b = sizeAt m b :=
  agree.loadWord (Nat.le_refl _) (by simp only [hdrSpan]; omega)

theorem nextAt_frame (agree : Agree m m' (hdrSpan b)) : nextAt m' b = nextAt m b :=
  agree.loadWord (Nat.le_add_right b 8) (by simp only [hdrSpan]; omega)

theorem freeAt_frame (agree : Agree m m' (hdrSpan b)) : freeAt m' b = freeAt m b := by
  unfold freeAt
  rw [agree.loadWord (Nat.le_add_right b 16) (by simp only [hdrSpan]; omega)]

theorem sealAt_frame (agree : Agree m m' (hdrSpan b)) : sealAt m' b = sealAt m b :=
  agree.loadWord (Nat.le_add_right b 24) (by simp only [hdrSpan]; omega)

theorem agree_setSize (apart : (hdrSpan b).Apart s) : Agree m (setSize m b v) s :=
  .storeWord (apart.shrink (Nat.le_refl _) (by simp only [hdrSpan]; omega))

theorem agree_setNext (apart : (hdrSpan b).Apart s) : Agree m (setNext m b v) s :=
  .storeWord (apart.shrink (by simp only [hdrSpan]; omega) (by simp only [hdrSpan]; omega))

theorem agree_setFree (apart : (hdrSpan b).Apart s) : Agree m (setFree m b f) s :=
  .storeWord (apart.shrink (by simp only [hdrSpan]; omega) (by simp only [hdrSpan]; omega))

theorem agree_blkSeal (apart : (hdrSpan b).Apart s) : Agree m (blkSeal cookie m b) s :=
  .storeWord (apart.shrink (by simp only [hdrSpan]; omega) (by simp only [hdrSpan]; omega))

section

variable (m b v f)

@[simp] theorem sizeAt_setSize : sizeAt (setSize m b v) b = v % 2 ^ 64 := loadWord_storeWord
@[simp] theorem freeAt_setSize : freeAt (setSize m b v) b = freeAt m b := by
  unfold freeAt setSize
  rw [loadWord_storeWord_of_apart (.inr (by omega))]
@[simp] theorem sizeAt_setNext : sizeAt (setNext m b v) b = sizeAt m b :=
  loadWord_storeWord_of_apart (.inl (Nat.le_refl _))
@[simp] theorem nextAt_setNext : nextAt (setNext m b v) b = v % 2 ^ 64 := loadWord_storeWord
@[simp] theorem freeAt_setNext : freeAt (setNext m b v) b = freeAt m b := by
  unfold freeAt setNext
  rw [loadWord_storeWord_of_apart (.inr (by omega))]
@[simp] theorem sizeAt_setFree : sizeAt (setFree m b f) b = sizeAt m b :=
  loadWord_storeWord_of_apart (.inl (by omega))
@[simp] theorem nextAt_setFree : nextAt (setFree m b f) b = nextAt m b :=
  loadWord_storeWord_of_apart (.inl (by omega))
@[simp] theorem freeAt_setFree : freeAt (setFree m b f) b = f := by
  unfold freeAt setFree
  rw [loadWord_storeWord]
  cases f <;> rfl
@[simp] theorem sizeAt_blkSeal : sizeAt (blkSeal cookie m b) b = sizeAt m b :=
  loadWord_storeWord_of_apart (.inl (by omega))
@[simp] theorem nextAt_blkSeal : nextAt (blkSeal cookie m b) b = nextAt m b :=
  loadWord_storeWord_of_apart (.inl (by omega))
@[simp] theorem freeAt_blkSeal : freeAt (blkSeal cookie m b) b = freeAt m b := by
  unfold freeAt blkSeal setSeal
  rw [loadWord_storeWord_of_apart (.inl (by omega))]

end

theorem blkValue_lt (secret : cookie < 2 ^ 64) (address : b < 2 ^ 64) :
    blkValue cookie b size f < 2 ^ 64 := by
  have product : size * 0x9E3779B97F4A7C15 % 2 ^ 64 < 2 ^ 64 := Nat.mod_lt _ (by decide)
  have state : (if f = true then 0xF5EE0000 else 0xA11C0000) < 2 ^ 64 := by split <;> decide
  exact Nat.xor_lt_two_pow (Nat.xor_lt_two_pow (Nat.xor_lt_two_pow secret address) product) state

theorem sealAt_blkSeal (secret : cookie < 2 ^ 64) (address : b < 2 ^ 64) :
    sealAt (blkSeal cookie m b) b = blkValue cookie b (sizeAt m b) (freeAt m b) := by
  unfold sealAt blkSeal setSeal
  rw [loadWord_storeWord]
  exact Nat.mod_eq_of_lt (blkValue_lt secret address)

structure Blk where
  addr : Nat
  size : Nat
  free : Bool

def Blk.extent (b : Blk) : Span := ⟨b.addr, b.addr + 32 + b.size⟩

def Blk.payload (b : Blk) : Span := ⟨b.addr + 32, b.addr + 32 + b.size⟩

variable {blk other : Blk} {bs pre post mid seg : List Blk}

/-- The header in memory is that of the block, and its seal is valid. -/
structure Sealed (cookie : Nat) (m : Memory) (b : Blk) : Prop where
  size : sizeAt m b.addr = b.size
  free : freeAt m b.addr = b.free
  value : sealAt m b.addr = blkValue cookie b.addr b.size b.free

theorem Sealed.frame (holds : Sealed cookie m blk) (agree : Agree m m' (hdrSpan blk.addr)) :
    Sealed cookie m' blk :=
  ⟨(sizeAt_frame agree).trans holds.size, (freeAt_frame agree).trans holds.free,
    (sealAt_frame agree).trans holds.value⟩

theorem Sealed.check (holds : Sealed cookie m blk) (secret : cookie ≠ 0) :
    blkCheck cookie m blk.addr = true := by
  unfold blkCheck
  rw [holds.size, holds.free, holds.value]
  simp [secret]

theorem sealed_blkSeal (secret : cookie < 2 ^ 64) (address : b < 2 ^ 64) :
    Sealed cookie (blkSeal cookie m b) ⟨b, sizeAt m b, freeAt m b⟩ :=
  ⟨sizeAt_blkSeal m b, freeAt_blkSeal m b, sealAt_blkSeal secret address⟩

/-- The blocks from `head` on, up to the link that holds `last`. -/
def Linked (cookie : Nat) (m : Memory) (last : Nat) : Nat → List Blk → Prop
  | head, [] => head = last
  | head, b :: rest =>
    head = b.addr ∧ b.addr ≠ 0 ∧ Sealed cookie m b ∧ Linked cookie m last (nextAt m b.addr) rest

theorem Linked.frame (linked : Linked cookie m last head bs)
    (agree : ∀ b ∈ bs, Agree m m' (hdrSpan b.addr)) : Linked cookie m' last head bs := by
  induction bs generalizing head with
  | nil => exact linked
  | cons first rest ih =>
      obtain ⟨atHead, nonzero, holds, tail⟩ := linked
      have here := agree first List.mem_cons_self
      refine ⟨atHead, nonzero, holds.frame here, ?_⟩
      rw [nextAt_frame here]
      exact ih tail fun b member => agree b (List.mem_cons_of_mem _ member)

theorem linked_append : Linked cookie m last head (pre ++ post) ↔
    ∃ middle, Linked cookie m middle head pre ∧ Linked cookie m last middle post := by
  induction pre generalizing head with
  | nil => exact ⟨fun linked => ⟨head, rfl, linked⟩, fun ⟨_, same, linked⟩ => by rw [same]; exact linked⟩
  | cons first rest ih =>
      constructor
      · rintro ⟨atHead, nonzero, holds, tail⟩
        obtain ⟨middle, before, after⟩ := ih.mp tail
        exact ⟨middle, ⟨atHead, nonzero, holds, before⟩, after⟩
      · rintro ⟨middle, ⟨atHead, nonzero, holds, before⟩, after⟩
        exact ⟨atHead, nonzero, holds, ih.mpr ⟨middle, before, after⟩⟩

theorem Linked.sealed (linked : Linked cookie m last head bs) (member : blk ∈ bs) :
    Sealed cookie m blk := by
  induction bs generalizing head with
  | nil => cases member
  | cons first rest ih =>
      obtain ⟨-, -, holds, tail⟩ := linked
      rcases List.mem_cons.mp member with rfl | member
      · exact holds
      · exact ih tail member

theorem findFit_spec (linked : Linked cookie m 0 head bs) (secret : bs ≠ [] → cookie ≠ 0)
    (enough : bs.length < fuel) : findFit cookie m size fuel head = .none ∨
    ∃ pre blk post, bs = pre ++ blk :: post ∧ blk.free = true ∧ size ≤ blk.size ∧
      findFit cookie m size fuel head = .found blk.addr := by
  induction bs generalizing head fuel with
  | nil =>
      obtain ⟨fuel, rfl⟩ := Nat.exists_eq_succ_of_ne_zero (Nat.ne_of_gt (Nat.zero_lt_of_lt enough))
      refine .inl ?_
      have ended : head = 0 := linked
      rw [findFit, if_pos ended]
  | cons first rest ih =>
      obtain ⟨fuel, rfl⟩ := Nat.exists_eq_succ_of_ne_zero (Nat.ne_of_gt (Nat.zero_lt_of_lt enough))
      obtain ⟨rfl, nonzero, holds, tail⟩ := linked
      have passes := holds.check (secret (List.cons_ne_nil _ _))
      rw [findFit, if_neg nonzero, passes, holds.free, holds.size]
      by_cases skip : (!first.free || decide (first.size < size)) = true
      · rw [if_neg (by simp), if_pos skip]
        have enough : rest.length < fuel := Nat.lt_of_succ_lt_succ enough
        rcases ih tail (fun _ => secret (List.cons_ne_nil _ _)) enough with none | ⟨pre, blk, post, rfl, free, fits, found⟩
        · exact .inl none
        · exact .inr ⟨first :: pre, blk, post, rfl, free, fits, found⟩
      · rw [if_neg (by simp), if_neg skip]
        simp only [Bool.or_eq_true, Bool.not_eq_true', decide_eq_true_eq, not_or, Bool.not_eq_false, Nat.not_lt] at skip
        exact .inr ⟨[], first, rest, rfl, skip.1, skip.2, rfl⟩

/-- What a block of `value` bytes becomes when `size` of them are asked for. -/
def carved (b value size : Nat) : List Blk :=
  if size + 48 ≤ value then [⟨b, size, false⟩, ⟨b + 32 + size, value - size - 32, true⟩]
    else [⟨b, value, false⟩]

theorem carve_small (small : sizeAt m b < size + 48) (fits : size + 48 < 2 ^ 64) :
    carve cookie m b size = m := by
  exact if_neg (by simp only [blockHdr, mallocAlign]; omega)

theorem carve_large (secret : cookie < 2 ^ 64) (large : size + 48 ≤ sizeAt m b)
    (address : b + 32 + sizeAt m b < 2 ^ 64) :
    sizeAt (carve cookie m b size) b = size ∧ freeAt (carve cookie m b size) b = freeAt m b ∧
    nextAt (carve cookie m b size) b = b + 32 + size ∧
    Sealed cookie (carve cookie m b size) ⟨b + 32 + size, sizeAt m b - size - 32, true⟩ ∧
    nextAt (carve cookie m b size) (b + 32 + size) = nextAt m b ∧
    ∀ s, (hdrSpan b).Apart s → (hdrSpan (b + 32 + size)).Apart s →
    Agree m (carve cookie m b size) s := by
  have next : nextAt m b < 2 ^ 64 := loadWord_lt
  have rest : (b + blockHdr + size) % 2 ^ 64 = b + 32 + size :=
    Nat.mod_eq_of_lt (by simp only [blockHdr]; omega)
  have left : (sizeAt m b + 2 ^ 64 - size + 2 ^ 64 - blockHdr) % 2 ^ 64 =
    sizeAt m b - size - 32 := by
    simp only [blockHdr]
    omega
  unfold carve
  rw [if_pos (by simp only [blockHdr, mallocAlign]; omega), rest, left]
  have clear : (hdrSpan b).Apart (hdrSpan (b + 32 + size)) := Or.inl (by simp only [hdrSpan]; omega)
  have link : nextAt (setFree (setSize m (b + 32 + size) (sizeAt m b - size - 32)) (b + 32 + size) true) b = nextAt m b :=
    nextAt_frame ((agree_setSize clear.symm).trans (agree_setFree clear.symm))
  simp only [link]
  generalize atRest : blkSeal cookie
    (setNext (setFree (setSize m (b + 32 + size) (sizeAt m b - size - 32))
    (b + 32 + size) true) (b + 32 + size) (nextAt m b)) (b + 32 + size) = m1
  have keeps : ∀ s, (hdrSpan (b + 32 + size)).Apart s → Agree m m1 s := by
    intro s apart
    rw [← atRest]
    exact (((agree_setSize apart).trans (agree_setFree apart)).trans (agree_setNext apart)).trans (agree_blkSeal apart)
  have restSealed : Sealed cookie m1 ⟨b + 32 + size, sizeAt m b - size - 32, true⟩ := by
    have holds := @sealed_blkSeal (setNext (setFree (setSize m (b + 32 + size) (sizeAt m b - size - 32))
      (b + 32 + size) true) (b + 32 + size) (nextAt m b)) cookie (b + 32 + size) secret (by omega)
    rw [sizeAt_setNext, sizeAt_setFree, sizeAt_setSize, freeAt_setNext, freeAt_setFree, atRest,
      Nat.mod_eq_of_lt (by omega)] at holds
    exact holds
  have restNext : nextAt m1 (b + 32 + size) = nextAt m b := by
    rw [← atRest, nextAt_blkSeal, nextAt_setNext, Nat.mod_eq_of_lt next]
  have later : ∀ s, (hdrSpan b).Apart s →
    Agree m1 (setNext (setSize m1 b size) b (b + 32 + size)) s := fun s apart =>
    (agree_setSize apart).trans (agree_setNext apart)
  refine ⟨?_, ?_, ?_, restSealed.frame (later _ clear), ?_,
    fun s own new => (keeps s new).trans (later s own)⟩
  · rw [sizeAt_setNext, sizeAt_setSize, Nat.mod_eq_of_lt (by omega)]
  · rw [freeAt_setNext, freeAt_setSize, freeAt_frame (keeps _ clear.symm)]
  · rw [nextAt_setNext, Nat.mod_eq_of_lt (by omega)]
  · rw [nextAt_frame (later _ clear), restNext]

theorem linked_carved {m2 : Memory} (secret : cookie < 2 ^ 64) (positive : 16 ≤ b)
    (address : b + 32 + sizeAt m b < 2 ^ 64) (fits : size ≤ sizeAt m b)
    (sameSize : sizeAt m2 b = sizeAt (carve cookie m b size) b)
    (sameNext : nextAt m2 b = nextAt (carve cookie m b size) b) (used : freeAt m2 b = false)
    (same : ∀ s, (hdrSpan b).Apart s → Agree (carve cookie m b size) m2 s) :
    Linked cookie (blkSeal cookie m2 b) (nextAt m b) b (carved b (sizeAt m b) size) ∧
    ∀ s, (⟨b, b + 32 + sizeAt m b⟩ : Span).Apart s → Agree m (blkSeal cookie m2 b) s := by
  have own := @sealed_blkSeal m2 cookie b secret (by omega)
  have hdr : ∀ {s : Span}, (⟨b, b + 32 + sizeAt m b⟩ : Span).Apart s →
    (hdrSpan b).Apart s := fun apart =>
    apart.shrink (Nat.le_refl _) (by simp only [hdrSpan]; omega)
  unfold carved
  by_cases large : size + 48 ≤ sizeAt m b
  · obtain ⟨value, free, next, rest, restNext, keeps⟩ := carve_large secret large address
    rw [if_pos large]
    rw [sameSize, used, value] at own
    have clear : (hdrSpan b).Apart (hdrSpan (b + 32 + size)) := Or.inl (by simp only [hdrSpan]; omega)
    have after : Agree (carve cookie m b size) (blkSeal cookie m2 b) (hdrSpan (b + 32 + size)) :=
      (same _ clear).trans (agree_blkSeal clear)
    refine ⟨⟨rfl, by simp only; omega, own, ?_⟩, ?_⟩
    · rw [nextAt_blkSeal, sameNext, next]
      refine ⟨rfl, by simp only; omega, rest.frame after, ?_⟩
      rw [nextAt_frame after, restNext]
      rfl
    · intro s apart
      have new : (hdrSpan (b + 32 + size)).Apart s :=
        apart.shrink (by simp only [hdrSpan]; omega) (by simp only [hdrSpan]; omega)
      exact ((keeps s (hdr apart) new).trans (same s (hdr apart))).trans (agree_blkSeal (hdr apart))
  · have small : carve cookie m b size = m := carve_small (Nat.lt_of_not_le large) (by omega)
    rw [if_neg large]
    rw [small] at sameSize sameNext same
    rw [sameSize, used] at own
    refine ⟨⟨rfl, by simp only; omega, own, ?_⟩, ?_⟩
    · rw [nextAt_blkSeal, sameNext]
      rfl
    · intro s apart
      exact (same s (hdr apart)).trans (agree_blkSeal (hdr apart))

end Cos.Runtime
