import Cos.Kheap.Releases
import Mathlib.Algebra.BigOperators.Group.List.Basic

/-! # Blocks in use and their pointers

A pointer is to the payload of its block or, from `kmalloc_aligned`, further into it, with the
address of the payload in the word before.  `kfree` and `krealloc` find the block again,
but for two kinds of aligned pointers: `Unknown`.
-/

namespace Cos.Kheap

open Cos.Lib Heap

variable {P : HeapPlace} {h h' : Heap} {size flags alignment given charged ptr cap low high : Nat}
  {block : Block} {chain : List Block}
variable {piece : Piece} {m : Memory}

def Block.toPiece (block : Block) : Piece := ⟨block.addr, block.size, block.flags⟩

def ExtBlock.toPiece (e : ExtBlock) : Piece := ⟨e.base, e.size, e.flags⟩

theorem live_mem {q : Piece} : Live { h with mem := m } q ↔ Live h q :=
  @live_congr h { h with mem := m } rfl rfl rfl q

def usedPieces (h : Heap) : List Piece :=
  (h.chain.filter fun block => !block.isFree &&
    (List.range smallClassSizes.length).all fun index =>
    !(h.cached index).contains block.addr).map Block.toPiece ++ h.ext.map ExtBlock.toPiece

theorem mem_usedPieces (sound : Sound P h) {q : Piece} : q ∈ usedPieces h ↔ Live h q := by
  have uncached_iff : ∀ block : Block,
    (∀ index < smallClassSizes.length, block.addr ∉ h.cached index) ↔
    ∀ index, block.addr ∉ h.cached index := by
    refine fun block => ⟨fun some index on => some index ?_ on, fun all index _ => all index⟩
    obtain ⟨other, -, -, -, isSize⟩ := sound.cached index _ on
    exact (List.getElem?_eq_some_iff.mp isSize).1
  rw [usedPieces, List.mem_append, List.mem_map, List.mem_map]
  simp only [List.mem_filter, Bool.and_eq_true, Bool.not_eq_true', List.all_eq_true, List.mem_range,
    List.contains_eq_mem, decide_eq_false_iff_not, uncached_iff]
  constructor
  · rintro (⟨block, ⟨member, taken, uncached⟩, rfl⟩ | ⟨e, member, rfl⟩)
    · exact .main ⟨member, taken, uncached⟩
    · exact .ext member
  · rintro (⟨member, taken, uncached⟩ | member)
    · exact .inl ⟨_, ⟨member, taken, uncached⟩, rfl⟩
    · exact .inr ⟨_, member, rfl⟩

theorem Contiguous.pairwise (contiguous : Contiguous low chain high) :
    chain.Pairwise fun one two => one.addr < two.addr := by
  induction chain generalizing low with
  | nil => exact .nil
  | cons first rest ih =>
      obtain ⟨isLow, contiguous⟩ := contiguous
      refine .cons (fun other member => ?_) (ih contiguous)
      have := (contiguous.inside member).1
      omega

theorem usedPieces_apart (sound : Sound P h) :
    (usedPieces h).Pairwise fun one two => one.addr ≠ two.addr := by
  rw [usedPieces, List.pairwise_append]
  refine ⟨?_, ?_, ?_⟩
  · exact (sound.contiguous.pairwise.filter _).map _ fun _ _ less => Nat.ne_of_lt less
  · refine List.pairwise_map.mpr (List.Pairwise.imp_of_mem ?_ sound.extApart)
    intro e f member also apart same
    have size := (sound.extSize e member).1
    have size' := (sound.extSize f also).1
    have same : e.base = f.base := same
    omega
  · intro one isMain two isExt same
    obtain ⟨block, member, rfl⟩ := List.mem_map.mp isMain
    obtain ⟨e, also, rfl⟩ := List.mem_map.mp isExt
    have within := sound.contiguous.inside (List.mem_of_mem_filter member)
    have outside := sound.extOutside e also
    have size := (sound.extSize e also).1
    have same : block.addr = e.base := same
    omega

theorem usedPieces_nodup (sound : Sound P h) : (usedPieces h).Nodup :=
  (usedPieces_apart sound).imp fun differs same => differs (congrArg Piece.addr same)

def usedBytes (h : Heap) : Nat := ((usedPieces h).map Piece.size).sum

theorem Granted.usedBytes (granted : Granted P h h' piece charged) (sound : Sound P h) :
    usedBytes h' = piece.size + usedBytes h := by
  have notLive : piece ∉ usedPieces h :=
    fun member => granted.fresh piece ((mem_usedPieces sound).mp member) rfl
  have same : (usedPieces h').Perm (piece :: usedPieces h) := by
    refine (List.perm_ext_iff_of_nodup (usedPieces_nodup granted.sound) (List.nodup_cons.mpr ⟨notLive, usedPieces_nodup sound⟩)).mpr fun q => ?_
    rw [mem_usedPieces granted.sound, List.mem_cons, mem_usedPieces sound, granted.live]
  rw [Kheap.usedBytes, (same.map _).sum_eq, List.map_cons, List.sum_cons, Kheap.usedBytes]

theorem Released.usedBytes (released : Released P h h' piece) (sound : Sound P h)
    (live : Live h piece) : usedBytes h = piece.size + usedBytes h' := by
  have notLive : piece ∉ usedPieces h' :=
    fun member => ((released.live piece).mp ((mem_usedPieces released.sound).mp member)).2 rfl
  have same : (usedPieces h).Perm (piece :: usedPieces h') := by
    refine (List.perm_ext_iff_of_nodup (usedPieces_nodup sound) (List.nodup_cons.mpr ⟨notLive, usedPieces_nodup released.sound⟩)).mpr fun q => ?_
    rw [mem_usedPieces sound, List.mem_cons, mem_usedPieces released.sound, released.live]
    constructor
    · intro isLive
      by_cases isPiece : q.addr = piece.addr
      · obtain same | apart := sound.live_apart isLive live
        · exact .inl same
        · simp only [Piece.stop] at apart
          omega
      · exact .inr ⟨isLive, isPiece⟩
    · rintro (rfl | ⟨isLive, -⟩)
      · exact live
      · exact isLive
  rw [Kheap.usedBytes, (same.map _).sum_eq, List.map_cons, List.sum_cons, Kheap.usedBytes]

theorem Granted.write (granted : Granted P h h' piece charged)
    (inside : ∀ x, ¬ (piece.user ≤ x ∧ x < piece.stop) → m x = h'.mem x) :
    Granted P h { h' with mem := m } piece charged := by
  refine ⟨granted.sound.congr rfl rfl rfl rfl, fun q => ?_, granted.fresh, granted.usage,
    fun x outside => ?_⟩
  · rw [← granted.live]
    exact live_mem
  · rw [← granted.mem x outside]
    exact inside x outside

/-- What `kmalloc_aligned` aligns to. -/
def leastAlignment (alignment : Nat) : Nat := if alignment < 8 then 8 else alignment

theorem alignUp_bounds {x a : Nat} (positive : 0 < a) (fits : x + (a - 1) < 2 ^ 64) :
    x ≤ alignUp x a ∧ alignUp x a ≤ x + (a - 1) ∧ a ∣ alignUp x a := by
  rw [alignUp_eq fits]
  have whole := Nat.div_add_mod (x + (a - 1)) a
  have rest := Nat.mod_lt (x + (a - 1)) positive
  rw [Nat.mul_comm] at whole
  exact ⟨by omega, by omega, Nat.dvd_mul_left _ _⟩

/-- What `kmalloc_aligned` asks `kmalloc_flags` for, before it wraps. -/
def alignedTotal (size alignment : Nat) : Nat := size + leastAlignment alignment + 7

theorem leastAlignment_ge : 8 ≤ leastAlignment alignment := by
  unfold leastAlignment
  split <;> omega

theorem dvd_leastAlignment (isPower : ∃ k, alignment = 2 ^ k) :
    alignment ∣ leastAlignment alignment := by
  obtain ⟨k, rfl⟩ := isPower
  unfold leastAlignment
  split
  · next small =>
    have : k < 3 := (Nat.pow_lt_pow_iff_right (by decide)).mp (show 2 ^ k < 2 ^ 3 from small)
    exact pow_dvd_pow 2 (show k ≤ 3 by omega)
  · exact Nat.dvd_refl _

theorem kmallocAligned_eq (nonzero : size ≠ 0) (isPower : ∃ k, alignment = 2 ^ k) :
    h.kmallocAligned P size alignment given =
    if (h.kmallocFlags P (alignedTotal size alignment % 2 ^ 64) flagAligned given).2 = 0 then
      ((h.kmallocFlags P (alignedTotal size alignment % 2 ^ 64) flagAligned given).1, 0)
    else
      ({ (h.kmallocFlags P (alignedTotal size alignment % 2 ^ 64) flagAligned given).1 with
          mem := storeWord (h.kmallocFlags P (alignedTotal size alignment % 2 ^ 64) flagAligned given).1.mem
            (alignUp ((h.kmallocFlags P (alignedTotal size alignment % 2 ^ 64) flagAligned given).2 + 8) (leastAlignment alignment) - 8) 8
            (h.kmallocFlags P (alignedTotal size alignment % 2 ^ 64) flagAligned given).2 },
        alignUp ((h.kmallocFlags P (alignedTotal size alignment % 2 ^ 64) flagAligned given).2 + 8) (leastAlignment alignment)) := by
  obtain ⟨k, rfl⟩ := isPower
  have power : ¬ (2 ^ k = 0 ∨ 2 ^ k &&& (2 ^ k - 1) ≠ 0) := by
    simp
  have total : size + leastAlignment (2 ^ k) - 1 + 8 = alignedTotal size (2 ^ k) := by
    unfold alignedTotal
    omega
  rw [kmallocAligned, if_neg nonzero, if_neg power]
  unfold leastAlignment at total ⊢
  simp only [total]

theorem leastAlignment_le (isPower : ∃ k, alignment = 2 ^ k) (small : alignment < 2 ^ 64) :
    leastAlignment alignment ≤ 2 ^ 63 := by
  obtain ⟨k, rfl⟩ := isPower
  have : k < 64 := (Nat.pow_lt_pow_iff_right (by decide)).mp small
  unfold leastAlignment
  split
  · omega
  · exact Nat.pow_le_pow_right (by decide) (by omega)

theorem kmallocAligned_refused (sound : Sound P h) (nonzero : size ≠ 0)
    (isPower : ∃ k, alignment = 2 ^ k)
    (refused : Refused P h (alignedTotal size alignment % 2 ^ 64) given) :
    h.kmallocAligned P size alignment given = (h, 0) := by
  rw [kmallocAligned_eq nonzero isPower, kmallocFlags_refused sound refused]
  exact if_pos rfl

theorem kmallocAligned_served (sound : Sound P h) (nonzero : size ≠ 0)
    (isPower : ∃ k, alignment = 2 ^ k) (small : alignment < 2 ^ 64)
    (served : ¬ Refused P h (alignedTotal size alignment % 2 ^ 64) given) :
      ∃ piece charged h' user, Granted P h h' piece charged ∧
      alignUp (alignedTotal size alignment % 2 ^ 64) 16 ≤ piece.size ∧ piece.size ≤ 0xAAAA9000 ∧
      h.kmallocAligned P size alignment given =
      ({ h' with mem := storeWord h'.mem (user - 8) 8 piece.user }, user) ∧
      piece.user + 8 ≤ user ∧ user < piece.user + 8 + leastAlignment alignment ∧
      alignment ∣ user := by
  obtain ⟨piece, charged, isUser, enough, most, -, -, granted⟩ :=
    @kmallocFlags_spec P h _ flagAligned given sound served
  have least := @leastAlignment_ge alignment
  have largest := leastAlignment_le isPower small
  have low := granted.sound.live_low ((granted.live piece).mpr (.inl rfl))
  have user : 0 < piece.user ∧ piece.user ≤ 2 ^ 47 := by
    unfold Piece.stop at low
    unfold Piece.user
    omega
  obtain ⟨above, below, divides⟩ :=
    @alignUp_bounds (piece.user + 8) (leastAlignment alignment) (by omega) (by omega)
  refine ⟨piece, charged, _, alignUp (piece.user + 8) (leastAlignment alignment), granted, enough,
    most, ?_, above, by omega, (dvd_leastAlignment isPower).trans divides⟩
  rw [kmallocAligned_eq nonzero isPower, isUser, if_neg (by omega)]

theorem kmallocAligned_spec (sound : Sound P h) (nonzero : size ≠ 0)
    (isPower : ∃ k, alignment = 2 ^ k) (small : alignment < 2 ^ 64)
    (fits : alignedTotal size alignment ≤ 2 ^ 64 - 16)
    (served : ¬ Refused P h (alignedTotal size alignment) given) :
    ∃ piece charged h' user, h.kmallocAligned P size alignment given = (h', user) ∧
      Granted P h h' piece charged ∧ piece.user + 8 ≤ user ∧ user + size ≤ piece.stop ∧
      alignment ∣ user ∧ loadWord h'.mem (user - 8) 8 = piece.user := by
  have unwrapped : alignedTotal size alignment % 2 ^ 64 = alignedTotal size alignment :=
    Nat.mod_eq_of_lt (by omega)
  obtain ⟨piece, charged, h', user, granted, enough, -, isResult, above, below, divides⟩ :=
    kmallocAligned_served sound nonzero isPower small (unwrapped.symm ▸ served)
  have low := granted.sound.live_low ((granted.live piece).mpr (.inl rfl))
  rw [unwrapped] at enough
  have rounded := (@alignUp_bounds (alignedTotal size alignment) 16 (by omega) (by omega)).1
  have within : user + size ≤ piece.stop := by
    unfold alignedTotal at enough rounded
    unfold Piece.user at below
    unfold Piece.stop
    omega
  refine ⟨piece, charged, _, user, isResult, granted.write fun x outside => if_neg (by omega),
    above, within, divides, ?_⟩
  have : piece.user < 256 ^ 8 := by
    unfold Piece.stop at low
    unfold Piece.user
    omega
  rw [loadWord_storeWord, Nat.mod_eq_of_lt this]

structure Handle where
  ptr : Nat
  piece : Piece
deriving DecidableEq

def Handle.usable (g : Handle) : Nat := g.piece.stop - g.ptr

/-- The block of a pointer is in use, and the pointer is to its payload or is an aligned one, with
the address of the payload before it. -/
structure Holds (h : Heap) (g : Handle) : Prop where
  live : Live h g.piece
  place : g.ptr = g.piece.user ∨
    g.piece.user + 8 ≤ g.ptr ∧ g.ptr ≤ g.piece.stop ∧ loadWord h.mem (g.ptr - 8) 8 = g.piece.user

variable {g : Handle}

theorem Holds.inside (holds : Holds h g) : g.piece.user ≤ g.ptr ∧ g.ptr ≤ g.piece.stop := by
  obtain same | ⟨low, high, -⟩ := holds.place
  · rw [same]
    exact ⟨Nat.le_refl _, Nat.le_add_right _ _⟩
  · exact ⟨Nat.le_of_add_right_le low, high⟩

theorem Holds.keep (holds : Holds h g) (live : Live h' g.piece)
    (same : ∀ x, g.piece.user ≤ x → x < g.ptr → h'.mem x = h.mem x) : Holds h' g := by
  refine ⟨live, holds.place.imp_right fun ⟨low, high, raw⟩ => ⟨low, high, ?_⟩⟩
  have agree : Agree h.mem h'.mem ⟨g.piece.user, g.ptr⟩ := same
  rw [agree.loadWord (by simp only; omega) (by simp only; omega), raw]

theorem Granted.apart (granted : Granted P h h' piece charged) {q : Piece} (live : Live h q) :
    q.stop ≤ piece.addr ∨ piece.stop ≤ q.addr := by
  obtain same | apart :=
    granted.sound.live_apart ((granted.live q).mpr (.inr live))
      ((granted.live piece).mpr (.inl rfl))
  · exact absurd (congrArg Piece.addr same) (granted.fresh q live)
  · exact apart

theorem Granted.same (granted : Granted P h h' piece charged) {q : Piece} (live : Live h q)
    {x : Nat} (low : q.user ≤ x) (high : x < q.stop) : h'.mem x = h.mem x := by
  refine granted.mem x fun inside => ?_
  have apart := granted.apart live
  unfold Piece.user at low inside
  omega

theorem Granted.holds (granted : Granted P h h' piece charged) (holds : Holds h g) : Holds h' g :=
  holds.keep ((granted.live g.piece).mpr (.inr holds.live)) fun _ low high =>
    granted.same holds.live low (Nat.lt_of_lt_of_le high holds.inside.2)

theorem Released.same (released : Released P h h' piece) (sound : Sound P h) (isLive : Live h piece)
    {q : Piece} (live : Live h q) (differs : q.addr ≠ piece.addr) {x : Nat} (low : q.user ≤ x)
    (high : x < q.stop) : h'.mem x = h.mem x := by
  refine released.mem x fun inside => ?_
  obtain same | apart := sound.live_apart live isLive
  · exact differs (congrArg Piece.addr same)
  · unfold Piece.user at low inside
    omega

theorem Released.holds (released : Released P h h' piece) (sound : Sound P h)
    (isLive : Live h piece) (holds : Holds h g) (differs : g.piece.addr ≠ piece.addr) :
    Holds h' g :=
  holds.keep ((released.live g.piece).mpr ⟨holds.live, differs⟩) fun _ low high =>
    released.same sound isLive holds.live differs low (Nat.lt_of_lt_of_le high holds.inside.2)

/-- The heap does not know the pointer: it is an aligned one into an extension block, or to the very
end of the array. -/
def Unknown (P : HeapPlace) (g : Handle) : Prop :=
  g.ptr ≠ g.piece.user ∧
    (g.piece.addr < P.start ∨ P.start + P.limit ≤ g.piece.addr ∨ g.ptr = P.start + P.limit)

theorem Holds.find (holds : Holds h g) (sound : Sound P h) :
    (Unknown P g ∧ h.cosExtFindBlock g.ptr = none ∧ h.findBlockFromUserPtr P g.ptr = .none) ∨
      (¬ Unknown P g ∧ ((∃ e ∈ h.ext, g.piece = e.toPiece ∧ h.cosExtFindBlock g.ptr = some e) ∨
        h.cosExtFindBlock g.ptr = none ∧ ∃ before block after, h.chain = before ++ block :: after ∧ InUse h block ∧ g.piece = block.toPiece ∧
          h.findBlockFromUserPtr P g.ptr = .block before block after)) := by
  obtain ⟨ptr, piece⟩ := g
  obtain ⟨live, place⟩ := holds
  simp only at live place ⊢
  rcases live with ⟨inUse⟩ | ⟨member⟩
  · next block =>
    obtain rfl | ⟨low, high, raw⟩ := place
    · obtain ⟨noExt, before, after, isChain, isFound⟩ := find_user sound inUse.member
      exact .inr ⟨fun unknown => unknown.1 rfl, .inr ⟨noExt, before, block, after, isChain, inUse, rfl, isFound⟩⟩
    · have low : block.addr + 96 ≤ ptr := low
      have plain : ptr ≠ Piece.user ⟨block.addr, block.size, block.flags⟩ := by
        unfold Piece.user
        simp only
        omega
      have within := sound.contiguous.inside inUse.member
      obtain ⟨noExt, ⟨atEnd, isNone⟩ | ⟨notEnd, before, after, isChain, isFound⟩⟩ := find_aligned sound inUse.member low high raw
      · exact .inl ⟨⟨plain, .inr (.inr atEnd)⟩, noExt, isNone⟩
      · refine .inr ⟨fun unknown => ?_, .inr ⟨noExt, before, block, after, isChain, inUse, rfl, isFound⟩⟩
        have outside := unknown.2
        simp only at outside
        omega
  · next e =>
    obtain rfl | ⟨low, high, -⟩ := place
    · exact .inr ⟨fun unknown => unknown.1 rfl, .inl ⟨e, member, rfl, cosExtFindBlock_ext sound member⟩⟩
    · have low : e.base + 96 ≤ ptr := low
      obtain ⟨noExt, isNone⟩ := find_aligned_ext sound member low high
      have outside := sound.extOutside e member
      have size := (sound.extSize e member).1
      refine .inl ⟨⟨?_, ?_⟩, noExt, isNone⟩
      · simp only
        omega
      · simp only
        omega

theorem kfree_known (sound : Sound P h) (holds : Holds h g) (known : ¬ Unknown P g) :
    Released P h (h.kfree P g.ptr) g.piece := by
  have nonzero : g.ptr ≠ 0 := by
    have inside := holds.inside
    unfold Piece.user at inside
    omega
  rw [kfree, if_neg nonzero]
  obtain ⟨unknown, -⟩ |
    ⟨-, ⟨e, member, isPiece, isFound⟩ |
    ⟨noExt, before, block, after, isChain, inUse, isPiece, isFound⟩⟩ := holds.find sound
  · exact absurd unknown known
  · rw [isFound, isPiece]
    exact freeExt_spec sound member
  · rw [noExt, isFound, isPiece]
    simp only [inUse.taken, Bool.false_eq_true, if_false]
    exact freeBlock_spec sound isChain inUse

theorem kfree_unknown (sound : Sound P h) (holds : Holds h g) (unknown : Unknown P g) :
    h.kfree P g.ptr = h := by
  unfold kfree
  split
  · rfl
  obtain ⟨-, noExt, isNone⟩ | ⟨known, -⟩ := holds.find sound
  · rw [noExt, isNone]
  · exact absurd unknown known

end Cos.Kheap
