import Cos.Kheap.HeapRuns

/-! # `krealloc`

It compares the new size with the payload of the whole block.  An aligned pointer is further
into the block, and has fewer bytes.
-/

namespace Cos.Kheap

open Cos.Lib Heap

variable {P : HeapPlace} {h : Heap} {g : Handle} {size given cap : Nat} {m : Memory} {w : World}

/-- What `krealloc` returns has the new size and the old bytes; where it is NULL the old pointer
keeps its block and its bytes. -/
def ReallocKeeps (P : HeapPlace) (h : Heap) (g : Handle) (size given : Nat) : Prop :=
  let result := h.krealloc P g.ptr size given
  if result.2 = 0 then Holds result.1 g ∧
    ∀ i < g.usable, result.1.mem (g.ptr + i) = h.mem (g.ptr + i)
  else
    (∃ piece, Live result.1 piece ∧ piece.user ≤ result.2 ∧ result.2 + size ≤ piece.stop) ∧
      ∀ i < min g.usable size, result.1.mem (result.2 + i) = h.mem (g.ptr + i)

/-- The heap does not find the block, the bytes from the pointer on are enough, or the pointer has
to move and the request does not wrap. -/
def KeepsCapacity (P : HeapPlace) (h : Heap) (g : Handle) (size given : Nat) : Prop :=
  Unknown P g ∨ size ≤ g.usable ∨ g.piece.size < size ∧
    (size ≤ 2 ^ 64 - 16 ∨ Refused P h size given)

theorem Holds.usable_le (holds : Holds h g) : g.usable ≤ g.piece.size := by
  have inside := holds.inside
  unfold Handle.usable
  unfold Piece.user Piece.stop at *
  omega

theorem ReallocKeeps.null (holds : Holds h g) (isNull : h.krealloc P g.ptr size given = (h, 0)) :
    ReallocKeeps P h g size given := by
  rw [ReallocKeeps, isNull]
  simp only [if_true]
  exact ⟨holds, fun _ _ => trivial⟩

theorem reallocKeeps_iff (sound : Sound P h) (holds : Holds h g) (nonzero : size ≠ 0)
    (word : size < 2 ^ 64) : ReallocKeeps P h g size given ↔ KeepsCapacity P h g size given := by
  have inside := holds.inside
  have usable := holds.usable_le
  have pointer : g.ptr ≠ 0 := by
    unfold Piece.user at inside
    omega
  unfold KeepsCapacity
  obtain ⟨unknown, isNull⟩ | ⟨known, smaller, isSame⟩ | ⟨known, larger, flags, isMove⟩ :=
    @krealloc_cases P h size given g sound holds nonzero
  · exact ⟨fun _ => .inl unknown, fun _ => .null holds isNull⟩
  · -- the pointer stays where it is
    rw [ReallocKeeps, isSame]
    simp only [pointer, if_false, known, false_or, Nat.not_lt.mpr smaller, false_and, or_false]
    constructor
    · rintro ⟨⟨piece, live, low, high⟩, -⟩
      obtain rfl | apart := sound.live_apart live holds.live
      · unfold Handle.usable
        omega
      · unfold Piece.user at low inside
        omega
    · intro enough
      unfold Handle.usable at enough
      exact ⟨⟨g.piece, holds.live, inside.1, by omega⟩, fun _ _ => trivial⟩
  · by_cases refused : Refused P h size given
    · rw [reallocMove_refused sound refused] at isMove
      exact ⟨fun _ => .inr (.inr ⟨larger, .inr refused⟩), fun _ => .null holds isMove⟩
    have tooMany : ¬ size ≤ g.usable := by omega
    simp only [known, tooMany, larger, refused, false_or, true_and, or_false]
    by_cases fits : size ≤ 2 ^ 64 - 16
    · obtain ⟨piece, isUser, moved⟩ := @reallocMove_moved P h size flags given g sound holds known larger fits refused
      have notNull : piece.user ≠ 0 := Nat.succ_ne_zero _
      rw [← isMove] at isUser moved
      rw [ReallocKeeps]
      simp only [isUser, notNull, if_false, fits, iff_true]
      refine ⟨⟨piece, (moved.live piece).mpr (.inl rfl), Nat.le_refl _, Nat.add_le_add_left moved.enough _⟩, fun i less => ?_⟩
      exact moved.copied i (Nat.lt_of_lt_of_le less (Nat.min_le_left _ _)) (Nat.lt_of_lt_of_le less (Nat.min_le_right _ _))
    · -- the block that serves a request that wraps has fewer bytes than the old one
      obtain ⟨piece, charged, h', granted, -, most, isResult⟩ := @reallocMove_served P h size flags given g.ptr sound g.piece.size refused
      have notNull : piece.user ≠ 0 := Nat.succ_ne_zero _
      rw [isResult] at isMove
      rw [ReallocKeeps, isMove]
      simp only [notNull, if_false, fits, iff_false]
      rintro ⟨⟨q, live, low, high⟩, -⟩
      have before := live_mem.mp (kfree_live live)
      obtain rfl | apart := granted.sound.live_apart before ((granted.live piece).mpr (.inl rfl))
      · unfold Piece.stop Piece.user at high
        omega
      · unfold Piece.user at low high
        unfold Piece.stop at apart high
        omega

/-- `krealloc` of a pointer that the program has been given keeps its bytes and gives it room
exactly under `KeepsCapacity`. -/
theorem realloc_keeps_iff (reached : Reached P cap m w) (member : g ∈ w.handles)
    (nonzero : size ≠ 0) (word : size < 2 ^ 64) : ReallocKeeps P w.heap g size given ↔
    KeepsCapacity P w.heap g size given :=
  reallocKeeps_iff (reached_sound reached).sound ((reached_sound reached).holds g member) nonzero
    word

/-- 16 bytes on a page boundary: the block has 4128 bytes, and 120 of them are behind the
pointer. -/
def pagePointer : Handle := ⟨0x401000, ⟨0x400000, 4128, flagAligned⟩⟩

/-- The world after `kmalloc_aligned(16, 4096)`. -/
def pageWorld : World :=
  (World.start smallPlace 0 fun _ => 0).step smallPlace (.allocAligned 16 4096 0)

theorem pageWorld_reached : Reached smallPlace 0 (fun _ => 0) pageWorld :=
  Reaches.refl.next (show alignedTotal 16 4096 ≤ 2 ^ 64 - 16 by decide)

theorem pagePointer_given : pagePointer ∈ pageWorld.handles := by
  decide

/-- A hundred bytes are there. -/
theorem realloc_keeps_hundred : ReallocKeeps smallPlace pageWorld.heap pagePointer 100 0 :=
  (realloc_keeps_iff pageWorld_reached pagePointer_given (by decide) (by decide)).mpr
    (Or.inr (.inl (by decide)))

/-- All bytes of the block are not: the pointer is returned for 4128. -/
theorem realloc_of_whole_block : ¬ ReallocKeeps smallPlace pageWorld.heap pagePointer 4128 0 := by
  have worldSound := reached_sound pageWorld_reached
  rw [reallocKeeps_iff worldSound.sound (worldSound.holds _ pagePointer_given) (by decide) (by decide)]
  rintro (⟨-, before | behind | atEnd⟩ | enough | ⟨larger, -⟩)
  · exact absurd before (by decide)
  · exact absurd behind (by decide)
  · exact absurd atEnd (by decide)
  · exact absurd enough (by decide)
  · exact absurd larger (by decide)

end Cos.Kheap
