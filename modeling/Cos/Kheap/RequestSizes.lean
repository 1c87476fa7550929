import Cos.Kheap.HeapRuns

/-! # The sizes of requests

A request is rounded up to 16 bytes before the limit is looked at.  Within 15 bytes of the
largest size this wraps, and a pointer to next to nothing is given out.
-/

namespace Cos.Kheap

open Cos.Lib Heap

variable {P : HeapPlace} {h h' : Heap} {size flags alignment given charged ptr cap : Nat}
  {piece : Piece} {m : Memory} {w : World}

/-- The bytes from the pointer on lie inside the payload of the block that has come into use. -/
def InNewBlock (h h' : Heap) (ptr size : Nat) : Prop :=
  ∃ piece, Live h' piece ∧ ¬ Live h piece ∧ piece.user ≤ ptr ∧ ptr + size ≤ piece.stop

/-- A pointer from `kmalloc_flags` has the bytes that were asked for. -/
def KmallocFits (P : HeapPlace) (h : Heap) (size flags given : Nat) : Prop :=
  (h.kmallocFlags P size flags given).2 ≠ 0 →
    InNewBlock h (h.kmallocFlags P size flags given).1 (h.kmallocFlags P size flags given).2 size

/-- A pointer from `kmalloc_aligned` has the bytes that were asked for, and is aligned. -/
def AlignedFits (P : HeapPlace) (h : Heap) (size alignment given : Nat) : Prop :=
  (h.kmallocAligned P size alignment given).2 ≠ 0 →
    InNewBlock h (h.kmallocAligned P size alignment given).1
      (h.kmallocAligned P size alignment given).2 size ∧
      alignment ∣ (h.kmallocAligned P size alignment given).2

theorem Granted.inNewBlock (granted : Granted P h h' piece charged) :
    InNewBlock h h' ptr size ↔ piece.user ≤ ptr ∧ ptr + size ≤ piece.stop := by
  constructor
  · rintro ⟨q, live, unused, within⟩
    obtain rfl := ((granted.live q).mp live).resolve_right unused
    exact within
  · intro within
    exact ⟨piece, (granted.live piece).mpr (.inl rfl), fun live => granted.fresh piece live rfl,
      within⟩

theorem kmallocFits_iff (sound : Sound P h) (word : size < 2 ^ 64) :
    KmallocFits P h size flags given ↔ size ≤ 2 ^ 64 - 16 ∨ Refused P h size given := by
  unfold KmallocFits
  by_cases refused : Refused P h size given
  · rw [kmallocFlags_refused sound refused]
    exact ⟨fun _ => .inr refused, fun _ notNull => absurd rfl notNull⟩
  obtain ⟨piece, charged, isUser, enough, most, -, -, granted⟩ :=
    @kmallocFlags_spec P h size flags given sound refused
  have notNull : piece.user ≠ 0 := Nat.succ_ne_zero _
  rw [isUser, granted.inNewBlock]
  simp only [Nat.le_refl, true_and, refused, or_false, ne_eq, notNull, not_false_eq_true,
    true_implies]
  unfold Piece.stop Piece.user
  constructor
  · omega
  · intro fits
    have rounded := (@alignUp_bounds size 16 (by omega) (by omega)).1
    omega

theorem alignedFits_iff (sound : Sound P h) (small : alignment < 2 ^ 64)
    (isPower : ∃ k, alignment = 2 ^ k) : AlignedFits P h size alignment given ↔
      alignedTotal size alignment ≤ 2 ^ 64 - 16 ∨
      Refused P h (alignedTotal size alignment % 2 ^ 64) given := by
  unfold AlignedFits
  have largest := leastAlignment_le isPower small
  by_cases zero : size = 0
  · have isNull : h.kmallocAligned P size alignment given = (h, 0) := if_pos zero
    rw [isNull]
    unfold alignedTotal
    omega
  by_cases refused : Refused P h (alignedTotal size alignment % 2 ^ 64) given
  · rw [kmallocAligned_refused sound zero isPower refused]
    exact ⟨fun _ => .inr refused, fun _ notNull => absurd rfl notNull⟩
  simp only [refused, or_false]
  by_cases fits : alignedTotal size alignment ≤ 2 ^ 64 - 16
  · obtain ⟨piece, charged, h', user, isResult, granted, low, high, divides, -⟩ :=
      kmallocAligned_spec sound zero isPower small fits (by rwa [Nat.mod_eq_of_lt (by omega)] at refused)
    rw [isResult, granted.inNewBlock]
    exact ⟨fun _ => fits, fun _ _ => ⟨⟨by omega, high⟩, divides⟩⟩
  · -- the block is far too small for a request of which the total wraps
    obtain ⟨piece, charged, h', user, granted, -, most, isResult, above, -, -⟩ :=
      kmallocAligned_served sound zero isPower small refused
    rw [isResult]
    refine ⟨fun claimed => ?_, fun fits' => absurd fits' fits⟩
    have notNull : user ≠ 0 := by omega
    obtain ⟨q, live, unused, within⟩ := (claimed notNull).1
    obtain rfl := ((granted.live q).mp (live_mem.mp live)).resolve_right unused
    unfold Piece.user at above
    unfold Piece.stop at within
    unfold alignedTotal at fits
    omega

/-- A pointer that is given has its bytes, and its alignment, exactly when the rounded request does
not wrap or when the heap has no room for what it wraps to. -/
theorem request_sizes_iff (reached : Reached P cap m w) :
    (∀ size flags given, size < 2 ^ 64 →
      (KmallocFits P w.heap size flags given ↔ size ≤ 2 ^ 64 - 16 ∨ Refused P w.heap size given)) ∧
      ∀ size alignment given, size < 2 ^ 64 → alignment < 2 ^ 64 → (∃ k, alignment = 2 ^ k) →
        (AlignedFits P w.heap size alignment given ↔
          alignedTotal size alignment ≤ 2 ^ 64 - 16 ∨ Refused P w.heap (alignedTotal size alignment % 2 ^ 64) given) := by
  have sound := (reached_sound reached).sound
  exact ⟨fun _ _ _ word => kmallocFits_iff sound word,
    fun _ _ _ _ small isPower => alignedFits_iff sound small isPower⟩

/-- A page on a page boundary, from the heap as it is at first. -/
theorem request_sizes_page :
    AlignedFits smallPlace (World.start smallPlace 0 fun _ => 0).heap 4096 4096 0 :=
  ((request_sizes_iff (@Reaches.refl _ _ (World.step smallPlace) World.Permitted (World.start smallPlace 0 fun _ => 0))).2 4096 4096 0 (by decide)
    (by decide) ⟨12, rfl⟩).mpr (.inl (by decide))

/-- `kmalloc(SIZE_MAX)` gives out a block of no bytes. -/
theorem request_of_all_bytes :
    ¬ KmallocFits smallPlace (World.start smallPlace 0 fun _ => 0).heap (2 ^ 64 - 1) 0 0 := by
  have sound := (@WorldSound.start smallPlace 0 fun _ => 0).sound
  rw [kmallocFits_iff sound (by decide)]
  have served : ¬ Refused smallPlace (World.start smallPlace 0 fun _ => 0).heap (2 ^ 64 - 1) 0 := by
    unfold Refused
    push Not
    refine ⟨by decide, by decide, .inr (.inl ⟨_, List.mem_singleton_self _, rfl, by decide⟩)⟩
  exact fun either => either.elim (by decide) served

end Cos.Kheap
