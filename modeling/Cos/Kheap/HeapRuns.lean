import Cos.Kheap.Pointers
import Cos.Lib.Run

/-! # Runs of the kernel heap

The program keeps the pointers that it has been given and not yet released, and writes to
the bytes from a pointer to the end of its block.  In every run the heap stays as its
blocks need it, and each pointer keeps its block.
-/

namespace Cos.Kheap

open Cos.Lib Heap

variable {P : HeapPlace} {h h' : Heap} {size flags alignment given charged ptr cap : Nat}
  {block : Block} {before after : List Block}
variable {piece : Piece} {g : Handle} {m : Memory}

theorem mergeForward_mem {b : Block} {free : List Nat}
    (member : b ∈ (mergeForward block after free).2.1) : b ∈ after := by
  unfold mergeForward at member
  split at member
  · split at member
    · exact List.mem_cons_of_mem _ member
    · exact member
  · exact member

theorem mergeBackward_mem {b : Block} {free : List Nat} (isFree : block.isFree = true)
    (member : b ∈ (mergeBackward before block after free).1) :
    b ∈ before ∨ b ∈ after ∨ b.isFree = true := by
  unfold mergeBackward at member
  split at member
  · split at member
    · next prevFree =>
      simp only [List.mem_append, List.mem_cons] at member
      rcases member with inBefore | rfl | inAfter
      · exact .inl (List.dropLast_subset _ inBefore)
      · exact .inr (.inr prevFree)
      · exact .inr (.inl inAfter)
    · simp only [List.mem_append, List.mem_cons] at member
      rcases member with inBefore | rfl | inAfter
      · exact .inl inBefore
      · exact .inr (.inr isFree)
      · exact .inr (.inl inAfter)
  · simp only [List.mem_append, List.mem_cons] at member
    rcases member with inBefore | rfl | inAfter
    · exact .inl inBefore
    · exact .inr (.inr isFree)
    · exact .inr (.inl inAfter)

theorem freeBlock_live {q : Piece} (isChain : h.chain = before ++ block :: after)
    (live : Live (h.freeBlock before block after) q) : Live h q := by
  obtain ⟨poisoned, isPoisoned⟩ :
    ∃ p, (h.poisoned block.flags (block.addr + headerSize) block.size).updateMemoryStats block.size
    false = p :=
    ⟨_, rfl⟩
  have sameCached : poisoned.cached = h.cached := by simp [← isPoisoned]
  have sameExt : poisoned.ext = h.ext := by simp [← isPoisoned]
  have beside : ∀ {b : Block}, b ∈ before ∨ b ∈ after → b ∈ h.chain := by
    intro b side
    rw [isChain]
    exact side.elim (List.mem_append_left _) fun later => List.mem_append_right _ (List.mem_cons_of_mem _ later)
  unfold freeBlock at live
  simp only [isPoisoned] at live
  rcases isIndex : poisoned.cacheIndex block with _ | index
  · simp only [isIndex] at live
    rcases live with ⟨member, taken, uncached⟩ | member
    · refine .main ⟨?_, taken, by simpa only [sameCached] using uncached⟩
      have isFree : (mergeForward { block with isFree := true, flags := 0, allocId := 0 } after poisoned.free).1.isFree = true := by
        unfold mergeForward
        split
        · split <;> rfl
        · rfl
      obtain inBefore | inAfter | nowFree := mergeBackward_mem isFree member
      · exact beside (.inl inBefore)
      · exact beside (.inr (mergeForward_mem inAfter))
      · rw [taken] at nowFree
        cases nowFree
    · simp only [sameExt] at member
      exact .ext member
  · simp only [isIndex] at live
    rcases live with ⟨member, taken, uncached⟩ | member
    · simp only [List.mem_append, List.mem_cons] at member
      have away : ∀ i, ∀ a ∈ h.cached i, a ∈ Function.update poisoned.cached index (block.addr :: poisoned.cached index) i := by
        intro i a on
        rw [← sameCached] at on
        by_cases same : i = index
        · subst same
          rw [Function.update_self]
          exact List.mem_cons_of_mem _ on
        · rw [Function.update_of_ne same]
          exact on
      rcases member with inBefore | rfl | inAfter
      · exact .main ⟨beside (.inl inBefore), taken, fun i on => uncached i (away i _ on)⟩
      · refine absurd ?_ (uncached index)
        simp only [Function.update_self]
        exact List.mem_cons_self
      · exact .main ⟨beside (.inr inAfter), taken, fun i on => uncached i (away i _ on)⟩
    · simp only [sameExt] at member
      exact .ext member

theorem freeExt_live {e : ExtBlock} {q : Piece} (live : Live (h.freeExt e) q) : Live h q := by
  obtain ⟨poisoned, isPoisoned⟩ :
    ∃ p, (h.poisoned e.flags (e.base + headerSize) e.size).updateMemoryStats e.size false = p :=
    ⟨_, rfl⟩
  have sameChain : poisoned.chain = h.chain := by simp [← isPoisoned]
  have sameCached : poisoned.cached = h.cached := by simp [← isPoisoned]
  have sameExt : poisoned.ext = h.ext := by simp [← isPoisoned]
  unfold freeExt at live
  simp only [isPoisoned] at live
  rcases live with ⟨member, taken, uncached⟩ | member
  · exact .main ⟨by simpa only [sameChain] using member, taken, by simpa only [sameCached] using uncached⟩
  · simp only [sameExt] at member
    exact .ext (List.mem_of_mem_filter member)

theorem validateBlock_chain {addr : Nat}
    (isFound : h.validateBlock P addr = .block before block after) :
    h.chain = before ++ block :: after := by
  unfold validateBlock at isFound
  split at isFound
  · split at isFound
    · next isLocated =>
      cases isFound
      exact (locate_some isLocated).1
    · split at isFound <;> cases isFound
  · cases isFound

theorem findBlockFromUserPtr_chain (isFound :
    h.findBlockFromUserPtr P ptr =
    .block before block after) : h.chain = before ++ block :: after := by
  unfold findBlockFromUserPtr at isFound
  split at isFound
  · cases isFound
  split at isFound
  · split at isFound
    · simp only at isFound
      split at isFound
      · cases isFound
      · exact validateBlock_chain isFound
    · cases isFound
  · exact validateBlock_chain isFound

theorem kfree_live {q : Piece} (live : Live (h.kfree P ptr) q) : Live h q := by
  unfold kfree at live
  split at live
  · exact live
  split at live
  · exact freeExt_live live
  split at live
  · exact live
  · exact (@live_congr h { h with damaged := true } rfl rfl rfl q).mp live
  · next before block after isFound =>
    split at live
    · exact live
    · exact freeBlock_live (findBlockFromUserPtr_chain isFound) live

/-- What a move does: `piece` comes into use with the bytes of the old block from the pointer on,
and the old block is released. -/
structure Moved (P : HeapPlace) (h h' : Heap) (g : Handle) (piece : Piece) (size : Nat) : Prop where
  sound : Sound P h'
  live : ∀ q, Live h' q ↔ q = piece ∨ Live h q ∧ q.addr ≠ g.piece.addr
  apart : ∀ q, Live h q → q.stop ≤ piece.addr ∨ piece.stop ≤ q.addr
  enough : size ≤ piece.size
  copied : ∀ i < g.usable, i < size → h'.mem (piece.user + i) = h.mem (g.ptr + i)
  same : ∀ q, Live h q → q.addr ≠ g.piece.addr → ∀ x, q.user ≤ x → x < q.stop → h'.mem x = h.mem x

theorem reallocMove_refused (sound : Sound P h) {old : Nat} (refused : Refused P h size given) :
    h.reallocMove P ptr old flags size given = (h, 0) := by
  rw [reallocMove, kmallocFlags_refused sound refused]
  exact if_pos rfl

theorem reallocMove_served (sound : Sound P h) {old : Nat} (served : ¬ Refused P h size given) :
    ∃ piece charged h', Granted P h h' piece charged ∧ alignUp size 16 ≤ piece.size ∧ piece.size ≤ 0xAAAA9000 ∧ h.reallocMove P ptr old flags size given =
      ({ h' with mem := copyBytes h'.mem piece.user ptr (if old < size then old else size) }.kfree P ptr, piece.user) := by
  obtain ⟨piece, charged, isUser, enough, most, -, -, granted⟩ :=
    @kmallocFlags_spec P h _ flags given sound served
  refine ⟨piece, charged, _, granted, enough, most, ?_⟩
  have nonzero : piece.user ≠ 0 := Nat.succ_ne_zero _
  rw [reallocMove]
  simp only [isUser, nonzero, if_false]

theorem reallocMove_moved (sound : Sound P h) (holds : Holds h g) (known : ¬ Unknown P g)
    (larger : g.piece.size < size)
    (fits : size ≤ 2 ^ 64 - 16) (served : ¬ Refused P h size given) : ∃ piece, (h.reallocMove P g.ptr g.piece.size flags size given).2 = piece.user ∧
      Moved P h (h.reallocMove P g.ptr g.piece.size flags size given).1 g piece size := by
  obtain ⟨piece, charged, h', granted, enough, -, isResult⟩ :=
    @reallocMove_served P h size flags given g.ptr sound g.piece.size served
  rw [if_pos larger] at isResult
  rw [isResult]
  have rounded := (@alignUp_bounds size 16 (by omega) (by omega)).1
  have copied : ∀ x, ¬ (piece.user ≤ x ∧ x < piece.stop) →
    copyBytes h'.mem piece.user g.ptr g.piece.size x = h'.mem x := by
    intro x outside
    unfold Piece.stop Piece.user at outside
    exact if_neg (by unfold Piece.user; omega)
  have written := granted.write copied
  have released := kfree_known written.sound (written.holds holds) known
  have isLive : Live { h' with mem := copyBytes h'.mem piece.user g.ptr g.piece.size } g.piece :=
    (written.live _).mpr (.inr holds.live)
  refine ⟨piece, rfl, released.sound, fun q => ?_,
    fun q => granted.apart, by omega, fun i usable less => ?_, fun q live differs x low high => ?_⟩
  · rw [released.live, written.live]
    constructor
    · rintro ⟨rfl | live, differs⟩
      · exact .inl rfl
      · exact .inr ⟨live, differs⟩
    · rintro (rfl | ⟨live, differs⟩)
      · exact ⟨.inl rfl, (granted.fresh _ holds.live).symm⟩
      · exact ⟨.inr live, differs⟩
  · have inside := holds.inside
    have within : g.ptr + i < g.piece.stop := by
      unfold Handle.usable at usable
      omega
    have fewer : i < g.piece.size := by
      unfold Piece.user at inside
      unfold Piece.stop at within
      omega
    rw [released.same written.sound isLive ((written.live piece).mpr (.inl rfl)) (granted.fresh _ holds.live).symm (Nat.le_add_right _ _)
      (by unfold Piece.stop Piece.user; omega)]
    show copyBytes h'.mem piece.user g.ptr g.piece.size (piece.user + i) = _
    unfold copyBytes
    rw [if_pos ⟨by omega, by omega⟩, Nat.add_sub_cancel_left, granted.same holds.live (by omega) within]
  · rw [released.same written.sound isLive ((written.live q).mpr (.inr live)) differs low high, written.same live low high]

theorem krealloc_cases (sound : Sound P h) (holds : Holds h g) (nonzero : size ≠ 0) :
    (Unknown P g ∧ h.krealloc P g.ptr size given = (h, 0)) ∨
      (¬ Unknown P g ∧ size ≤ g.piece.size ∧ h.krealloc P g.ptr size given = (h, g.ptr)) ∨
      (¬ Unknown P g ∧ g.piece.size < size ∧ ∃ flags,
        h.krealloc P g.ptr size given = h.reallocMove P g.ptr g.piece.size flags size given) := by
  have pointer : g.ptr ≠ 0 := by
    have inside := holds.inside
    unfold Piece.user at inside
    omega
  rw [krealloc, if_neg pointer, if_neg nonzero]
  obtain ⟨unknown, noExt, isNone⟩ |
    ⟨known, ⟨e, member, isPiece, isFound⟩ |
    ⟨noExt, before, block, after, isChain, inUse, isPiece, isFound⟩⟩ :=
    holds.find sound
  · rw [noExt, isNone]
    exact .inl ⟨unknown, rfl⟩
  · rw [isFound, isPiece]
    by_cases fits : size ≤ e.size
    · exact .inr (.inl ⟨known, fits, if_pos fits⟩)
    · exact .inr (.inr ⟨known, Nat.not_le.mp fits, _, if_neg fits⟩)
  · rw [noExt, isFound, isPiece]
    by_cases fits : size ≤ block.size
    · exact .inr (.inl ⟨known, fits, if_pos fits⟩)
    · exact .inr (.inr ⟨known, Nat.not_le.mp fits, _, if_neg fits⟩)

/-- The heap, and the pointers that have been given and not yet released. -/
structure World where
  heap : Heap
  handles : List Handle

/-- What the program does.  `given` is the answer of `paging_alloc_pages`. -/
inductive HeapCall
  | alloc (size flags given : Nat)
  | allocAligned (size alignment given : Nat)
  | realloc (ptr size given : Nat)
  | free (ptr : Nat)
  | write (addr : Nat) (byte : UInt8)

namespace World

def give (w : World) : Heap × Nat → World
  | (h, ptr) =>
      match (usedPieces h).find? fun q => q.user ≤ ptr ∧ ptr ≤ q.stop with
      | some piece => ⟨h, ⟨ptr, piece⟩ :: w.handles⟩
      | none => ⟨h, w.handles⟩

def giveUp (w : World) (ptr : Nat) : World :=
  { w with handles := w.handles.filter fun g => g.ptr ≠ ptr }

def step (P : HeapPlace) (w : World) : HeapCall → World
  | .alloc size flags given => w.give (w.heap.kmallocFlags P size flags given)
  | .allocAligned size alignment given => w.give (w.heap.kmallocAligned P size alignment given)
  | .realloc ptr size given =>
      let result := w.heap.krealloc P ptr size given
      if result.2 = 0 ∨ result.2 = ptr then { w with heap := result.1 } else (w.giveUp ptr).give result
  | .free ptr => { w.giveUp ptr with heap := w.heap.kfree P ptr }
  | .write addr byte =>
    { w with heap := { w.heap with mem := Function.update w.heap.mem addr byte } }

/-- The calls that the runs are made of.  A request for a pointer that moves or is aligned is small
enough not to wrap: one that does has the heap write outside of the block. -/
def Permitted (w : World) : HeapCall → Prop
  | .alloc _ _ _ => True
  | .allocAligned size alignment _ => alignedTotal size alignment ≤ 2 ^ 64 - 16
  | .realloc ptr size _ => size ≠ 0 ∧ size ≤ 2 ^ 64 - 16 ∧ ∃ g ∈ w.handles, g.ptr = ptr
  | .free ptr => ∃ g ∈ w.handles, g.ptr = ptr
  | .write addr _ => ∃ g ∈ w.handles, g.ptr ≤ addr ∧ addr < g.piece.stop

instance (w : World) : (call : HeapCall) → Decidable (w.Permitted call)
  | .alloc _ _ _ => isTrue trivial
  | .allocAligned size alignment _ =>
    inferInstanceAs (Decidable (alignedTotal size alignment ≤ 2 ^ 64 - 16))
  | .realloc ptr size _ =>
    inferInstanceAs (Decidable (size ≠ 0 ∧ size ≤ 2 ^ 64 - 16 ∧ ∃ g ∈ w.handles, g.ptr = ptr))
  | .free ptr => inferInstanceAs (Decidable (∃ g ∈ w.handles, g.ptr = ptr))
  | .write addr _ => inferInstanceAs (Decidable (∃ g ∈ w.handles, g.ptr ≤ addr ∧ addr < g.piece.stop))

/-- The heap after `init_heap_once`. -/
def start (P : HeapPlace) (cap : Nat) (m : Memory) : World where
  heap :=
    { chain := [⟨P.start, P.limit - headerSize, true, 0, 0⟩]
      free := [P.start]
      cached := fun _ => []
      ext := []
      extTotal := 0
      extCap := cap
      nextAllocId := 1
      currentUsage := 0
      mem := m
      damaged := false }
  handles := []

end World

/-- The heap is as its blocks need it, and the pointers have blocks of their own. -/
structure WorldSound (P : HeapPlace) (w : World) : Prop where
  sound : Sound P w.heap
  holds : ∀ g ∈ w.handles, Holds w.heap g
  apart : w.handles.Pairwise fun one two => one.piece.addr ≠ two.piece.addr

variable {w : World}

theorem give_eq (sound : Sound P h') (live : Live h' piece) (low : piece.user ≤ ptr)
    (high : ptr ≤ piece.stop) : w.give (h', ptr) = ⟨h', ⟨ptr, piece⟩ :: w.handles⟩ := by
  have isFound : (usedPieces h').find? (fun q => q.user ≤ ptr ∧ ptr ≤ q.stop) = some piece := by
    rcases isFound : (usedPieces h').find? (fun q => q.user ≤ ptr ∧ ptr ≤ q.stop) with _ | q
    · have missing := List.find?_eq_none.mp isFound piece ((mem_usedPieces sound).mpr live)
      simp [low, high] at missing
    · have inside := List.find?_some isFound
      rw [decide_eq_true_eq] at inside
      have isLive := (mem_usedPieces sound).mp (List.mem_of_find?_eq_some isFound)
      obtain same | apart := sound.live_apart isLive live
      · exact isFound.trans (congrArg some same)
      · unfold Piece.user at low inside
        omega
  unfold World.give
  simp only [isFound]

theorem give_null : w.give (h', 0) = ⟨h', w.handles⟩ := by
  have isNone : (usedPieces h').find? (fun q => q.user ≤ 0 ∧ 0 ≤ q.stop) = none :=
    List.find?_eq_none.mpr fun q _ => by simp [Piece.user]
  unfold World.give
  simp only [isNone]

namespace WorldSound

theorem unique (worldSound : WorldSound P w) {one two : Handle} (member : one ∈ w.handles)
    (also : two ∈ w.handles) (same : one.piece.addr = two.piece.addr) : one = two := by
  by_contra differ
  have symm : Std.Symm fun one two : Handle => one.piece.addr ≠ two.piece.addr :=
    ⟨fun _ _ differs => differs.symm⟩
  exact worldSound.apart.forall member also differ same

theorem others (worldSound : WorldSound P w) (member : g ∈ w.handles) {other : Handle}
    (left : other ∈ (w.giveUp g.ptr).handles) :
    other ∈ w.handles ∧ other.piece.addr ≠ g.piece.addr := by
  obtain ⟨also, differs⟩ := List.mem_filter.mp left
  refine ⟨also, fun same => ?_⟩
  rw [worldSound.unique also member same] at differs
  simp at differs

theorem granted (worldSound : WorldSound P w) (granted : Granted P w.heap h' piece charged)
    (place : ptr = piece.user ∨ piece.user + 8 ≤ ptr ∧ ptr ≤ piece.stop ∧
    loadWord h'.mem (ptr - 8) 8 = piece.user) : WorldSound P (w.give (h', ptr)) := by
  have holds : Holds h' ⟨ptr, piece⟩ := ⟨(granted.live piece).mpr (.inl rfl), place⟩
  rw [give_eq granted.sound holds.live holds.inside.1 holds.inside.2]
  refine ⟨granted.sound,
    List.forall_mem_cons.mpr ⟨holds, fun g member => granted.holds (worldSound.holds g member)⟩, ?_⟩
  exact List.pairwise_cons.mpr
    ⟨fun g member => (granted.fresh _ (worldSound.holds g member).live).symm, worldSound.apart⟩

theorem null (worldSound : WorldSound P w) : WorldSound P (w.give (w.heap, 0)) := by
  rw [give_null]
  exact worldSound

theorem alloc (worldSound : WorldSound P w) (size flags given : Nat) :
    WorldSound P (w.step P (.alloc size flags given)) := by
  rw [World.step]
  by_cases refused : Refused P w.heap size given
  · rw [kmallocFlags_refused worldSound.sound refused]
    exact worldSound.null
  · obtain ⟨piece, charged, isUser, -, -, -, -, granted⟩ := @kmallocFlags_spec P w.heap size flags given worldSound.sound refused
    rw [← Prod.mk.eta (p := w.heap.kmallocFlags P size flags given), isUser]
    exact worldSound.granted granted (.inl rfl)

theorem allocAligned (worldSound : WorldSound P w)
    (permitted : w.Permitted (.allocAligned size alignment given)) :
    WorldSound P (w.step P (.allocAligned size alignment given)) := by
  have fits : alignedTotal size alignment ≤ 2 ^ 64 - 16 := permitted
  rw [World.step]
  by_cases refuse : size = 0 ∨ alignment = 0 ∨ alignment &&& (alignment - 1) ≠ 0
  · have isNull : w.heap.kmallocAligned P size alignment given = (w.heap, 0) := by
      rw [kmallocAligned]
      by_cases zero : size = 0
      · exact if_pos zero
      · rw [if_neg zero, if_pos (refuse.resolve_left zero)]
    rw [isNull]
    exact worldSound.null
  push Not at refuse
  obtain ⟨nonzero, positive, power⟩ := refuse
  have isPower : ∃ k, alignment = 2 ^ k :=
    (Nat.and_sub_one_eq_zero_iff_isPowerOfTwo positive).mp power
  have small : alignment < 2 ^ 64 := by
    have : alignment ≤ leastAlignment alignment := by
      unfold leastAlignment
      split <;> omega
    unfold alignedTotal at fits
    omega
  by_cases refused : Refused P w.heap (alignedTotal size alignment) given
  · rw [kmallocAligned_refused worldSound.sound nonzero isPower (by rw [Nat.mod_eq_of_lt (by omega)]; exact refused)]
    exact worldSound.null
  · obtain ⟨piece, charged, h', user, isResult, granted, low, high, -, raw⟩ :=
      kmallocAligned_spec worldSound.sound nonzero isPower small fits refused
    rw [isResult]
    exact worldSound.granted granted (.inr ⟨low, by omega, raw⟩)

theorem realloc (worldSound : WorldSound P w) (permitted : w.Permitted (.realloc ptr size given)) :
    WorldSound P (w.step P (.realloc ptr size given)) := by
  obtain ⟨nonzero, fits, g, member, rfl⟩ := permitted
  have sound := worldSound.sound
  have holds := worldSound.holds g member
  rw [World.step]
  obtain ⟨-, isResult⟩ | ⟨-, -, isResult⟩ | ⟨known, larger, flags, isResult⟩ :=
    @krealloc_cases P w.heap size given g sound holds nonzero
  · simp only [isResult, true_or, if_true]
    exact worldSound
  · simp only [isResult, or_true, if_true]
    exact worldSound
  rw [isResult]
  by_cases refused : Refused P w.heap size given
  · rw [reallocMove_refused sound refused]
    exact worldSound
  obtain ⟨piece, isUser, moved⟩ :=
    @reallocMove_moved P w.heap size flags given g sound holds known larger fits refused
  obtain ⟨result, isMove⟩ :
    ∃ result, w.heap.reallocMove P g.ptr g.piece.size flags size given = result := ⟨_, rfl⟩
  rw [isMove] at isUser moved ⊢
  have live := (moved.live piece).mpr (.inl rfl)
  have elsewhere : piece.user ≠ g.ptr := by
    have apart := moved.apart _ holds.live
    have inside := holds.inside
    unfold Piece.user at inside ⊢
    unfold Piece.stop at apart inside
    omega
  have notNull : piece.user ≠ 0 := Nat.succ_ne_zero _
  have isGiven : (w.giveUp g.ptr).give result =
    ⟨result.1, ⟨piece.user, piece⟩ :: (w.giveUp g.ptr).handles⟩ := by
    rw [← isUser]
    exact give_eq moved.sound live (Nat.le_of_eq isUser.symm) (isUser ▸ Nat.le_add_right _ _)
  simp only [isUser, notNull, elsewhere, or_self, if_false, isGiven]
  refine ⟨moved.sound, List.forall_mem_cons.mpr ⟨⟨live, .inl rfl⟩, fun other left => ?_⟩,
    List.pairwise_cons.mpr ⟨fun other left => ?_, ?_⟩⟩
  · obtain ⟨also, differs⟩ := worldSound.others member left
    have held := worldSound.holds other also
    exact held.keep ((moved.live _).mpr (.inr ⟨held.live, differs⟩)) fun x low high =>
      moved.same _ held.live differs x low (Nat.lt_of_lt_of_le high held.inside.2)
  · have apart := moved.apart _ (worldSound.holds other (worldSound.others member left).1).live
    unfold Piece.stop at apart
    simp only
    omega
  · exact worldSound.apart.filter _

theorem free (worldSound : WorldSound P w) (permitted : w.Permitted (.free ptr)) :
    WorldSound P (w.step P (.free ptr)) := by
  obtain ⟨g, member, rfl⟩ := permitted
  have sound := worldSound.sound
  have holds := worldSound.holds g member
  rw [World.step]
  by_cases unknown : Unknown P g
  · rw [kfree_unknown sound holds unknown]
    exact ⟨sound, fun other left => worldSound.holds other (worldSound.others member left).1, worldSound.apart.filter _⟩
  · have released := kfree_known sound holds unknown
    refine ⟨released.sound, fun other left => ?_, worldSound.apart.filter _⟩
    obtain ⟨also, differs⟩ := worldSound.others member left
    exact released.holds sound holds.live (worldSound.holds other also) differs

theorem write (worldSound : WorldSound P w) {addr : Nat} {byte : UInt8}
    (permitted : w.Permitted (.write addr byte)) : WorldSound P (w.step P (.write addr byte)) := by
  obtain ⟨g, member, low, high⟩ := permitted
  refine ⟨worldSound.sound.congr rfl rfl rfl rfl, fun other also => ?_, worldSound.apart⟩
  have held := worldSound.holds other also
  refine held.keep (live_mem.mpr held.live) fun x below above =>
    Function.update_of_ne (fun isAddr => ?_) _ _
  -- the bytes before a pointer are written by no program
  by_cases same : other.piece.addr = g.piece.addr
  · obtain rfl := worldSound.unique also member same
    omega
  · have inside := held.inside
    have inside' := (worldSound.holds g member).inside
    obtain equal | apart := worldSound.sound.live_apart held.live (worldSound.holds g member).live
    · exact same (congrArg Piece.addr equal)
    · unfold Piece.user at below inside'
      omega

theorem step (worldSound : WorldSound P w) {call : HeapCall} (permitted : w.Permitted call) :
    WorldSound P (w.step P call) := by
  cases call with
  | alloc size flags given => exact worldSound.alloc size flags given
  | allocAligned size alignment given => exact worldSound.allocAligned permitted
  | realloc ptr size given => exact worldSound.realloc permitted
  | free ptr => exact worldSound.free permitted
  | write addr byte => exact worldSound.write permitted

theorem start : WorldSound P (World.start P cap m) := by
  have room := P.room
  refine ⟨⟨⟨rfl, ?_⟩, List.nodup_singleton _, fun addr => ?_, fun _ => List.nodup_nil,
    fun _ _ on => (nomatch on), fun _ on => (nomatch on), fun _ on => (nomatch on),
    List.Pairwise.nil⟩, fun _ on => (nomatch on), List.Pairwise.nil⟩
  · show P.start + 88 + (P.limit - 88) = P.start + P.limit
    omega
  · simp only [World.start, List.mem_singleton, exists_eq_left, and_true]
    exact eq_comm

end WorldSound

abbrev Reached (P : HeapPlace) (cap : Nat) (m : Memory) (w : World) : Prop :=
  Reaches (World.step P) World.Permitted (World.start P cap m) w

theorem reached_sound (reached : Reached P cap m w) : WorldSound P w :=
  reached.invariant WorldSound.start fun _ _ worldSound permitted => worldSound.step permitted

def smallPlace : HeapPlace where
  start := 0x400000
  limit := 0x1000000
  positive := by decide
  room := by decide
  low := by decide

end Cos.Kheap
