import Cos.Kheap.Heap

/-! # The blocks of the kernel heap

The chain covers the array, the free list has the free blocks and the caches have blocks of
their sizes.  What is left, with the extension blocks, is in use: `Piece`.
-/

namespace Cos.Kheap

open Cos.Lib Heap

variable {P : HeapPlace} {h h' : Heap} {addr size flags given low high index : Nat}
  {block other : Block}
variable {before after chain : List Block}

def Contiguous : Nat → List Block → Nat → Prop
  | low, [], high => low = high
  | low, block :: rest, high => block.addr = low ∧ Contiguous (low + 88 + block.size) rest high

theorem contiguous_append : Contiguous low (before ++ after) high ↔
    ∃ middle, Contiguous low before middle ∧ Contiguous middle after high := by
  induction before generalizing low with
  | nil => exact ⟨fun rest => ⟨low, rfl, rest⟩, fun ⟨middle, same, rest⟩ => by rw [show low = middle from same]; exact rest⟩
  | cons first before ih =>
      rw [List.cons_append, Contiguous, ih]
      exact ⟨fun ⟨isLow, middle, one, two⟩ => ⟨middle, ⟨isLow, one⟩, two⟩, fun ⟨middle, ⟨isLow, one⟩, two⟩ => ⟨isLow, middle, one, two⟩⟩

theorem Contiguous.le (contiguous : Contiguous low chain high) : low ≤ high := by
  induction chain generalizing low with
  | nil => exact Nat.le_of_eq contiguous
  | cons first rest ih => exact Nat.le_trans (by omega) (ih contiguous.2)

theorem Contiguous.inside (contiguous : Contiguous low chain high) (member : block ∈ chain) :
    low ≤ block.addr ∧ block.addr + 88 + block.size ≤ high := by
  obtain ⟨before, after, rfl⟩ := List.append_of_mem member
  obtain ⟨middle, one, isLow, two⟩ := contiguous_append.mp contiguous
  rw [isLow]
  exact ⟨one.le, two.le⟩

theorem Contiguous.parts (contiguous : Contiguous low (before ++ block :: after) high) :
    (∀ other ∈ before, other.addr + 88 + other.size ≤ block.addr) ∧
      ∀ other ∈ after, block.addr + 88 + block.size ≤ other.addr := by
  obtain ⟨middle, one, isLow, two⟩ := contiguous_append.mp contiguous
  rw [isLow]
  exact ⟨fun other member => (one.inside member).2, fun other member => (two.inside member).1⟩

theorem Contiguous.apart (contiguous : Contiguous low chain high) (member : block ∈ chain)
    (also : other ∈ chain) :
    block = other ∨ block.addr + 88 + block.size ≤ other.addr ∨
    other.addr + 88 + other.size ≤ block.addr := by
  obtain ⟨before, after, rfl⟩ := List.append_of_mem member
  obtain ⟨below, above⟩ := contiguous.parts
  rcases List.mem_append.mp also with earlier | later
  · exact .inr (.inr (below other earlier))
  · rcases List.mem_cons.mp later with rfl | later
    · exact .inl rfl
    · exact .inr (.inl (above other later))

theorem Contiguous.unique (contiguous : Contiguous low chain high) (member : block ∈ chain)
    (also : other ∈ chain) (same : block.addr = other.addr) : block = other := by
  obtain equal | less | less := contiguous.apart member also
  · exact equal
  · omega
  · omega

theorem locate_some (found : locate addr chain = some (before, block, after)) :
    chain = before ++ block :: after ∧ block.addr = addr := by
  induction chain generalizing before with
  | nil => cases found
  | cons first rest ih =>
      rw [locate] at found
      split at found
      · next isAddr =>
        cases found
        exact ⟨rfl, isAddr⟩
      · obtain ⟨⟨before', block', after'⟩, inner, same⟩ := Option.map_eq_some_iff.mp found
        cases same
        obtain ⟨isRest, isAddr⟩ := ih inner
        exact ⟨by rw [isRest]; rfl, isAddr⟩

theorem locate_none (missing : locate addr chain = none) : ∀ block ∈ chain, block.addr ≠ addr := by
  induction chain with
  | nil => exact fun _ member => nomatch member
  | cons first rest ih =>
      rw [locate] at missing
      split at missing
      · cases missing
      · next differs =>
        intro block member
        rcases List.mem_cons.mp member with rfl | member
        · exact differs
        · exact ih (Option.map_eq_none_iff.mp missing) block member

theorem Contiguous.locate (contiguous : Contiguous low chain high) (member : block ∈ chain) :
    ∃ before after, Kheap.locate block.addr chain = some (before, block, after) ∧
    chain = before ++ block :: after := by
  rcases isFound : Kheap.locate block.addr chain with _ | ⟨before, found, after⟩
  · exact absurd rfl (locate_none isFound block member)
  · obtain ⟨isChain, isAddr⟩ := locate_some isFound
    obtain rfl := contiguous.unique (isChain ▸ List.mem_append_right _ List.mem_cons_self) member isAddr
    exact ⟨before, after, rfl, isChain⟩

def ExtBlock.bytes (e : ExtBlock) : Nat := e.pages * pageSize

structure Sound (P : HeapPlace) (h : Heap) : Prop where
  contiguous : Contiguous P.start h.chain (P.start + P.limit)
  freeNodup : h.free.Nodup
  free : ∀ addr, addr ∈ h.free ↔ ∃ block ∈ h.chain, block.addr = addr ∧ block.isFree = true
  cachedNodup : ∀ index, (h.cached index).Nodup
  cached : ∀ index, ∀ addr ∈ h.cached index, ∃ block ∈ h.chain, block.addr = addr ∧
    block.isFree = false ∧ smallClassSizes[index]? = some block.size
  extSize : ∀ e ∈ h.ext, e.size + 88 = e.bytes ∧ e.base ≠ 0 ∧ e.base + e.bytes ≤ 2 ^ 47
  extOutside : ∀ e ∈ h.ext, e.base + e.bytes ≤ P.start ∨ P.start + P.limit ≤ e.base
  extApart : h.ext.Pairwise fun e f => e.base + e.bytes ≤ f.base ∨ f.base + f.bytes ≤ e.base

/-- A block that is in use: where its header is, the size of its payload and its flags. -/
structure Piece where
  addr : Nat
  size : Nat
  flags : Nat
deriving DecidableEq

def Piece.user (piece : Piece) : Nat := piece.addr + 88

def Piece.stop (piece : Piece) : Nat := piece.addr + 88 + piece.size

/-- A block of the chain is in use when it is neither free nor on the list of a cache. -/
structure InUse (h : Heap) (block : Block) : Prop where
  member : block ∈ h.chain
  taken : block.isFree = false
  uncached : ∀ index, block.addr ∉ h.cached index

inductive Live (h : Heap) : Piece → Prop
  | main {block : Block} (inUse : InUse h block) : Live h ⟨block.addr, block.size, block.flags⟩
  | ext {e : ExtBlock} (member : e ∈ h.ext) : Live h ⟨e.base, e.size, e.flags⟩

theorem Sound.ext_apart (sound : Sound P h) {e f : ExtBlock} (member : e ∈ h.ext)
    (also : f ∈ h.ext) : e = f ∨ e.base + e.bytes ≤ f.base ∨ f.base + f.bytes ≤ e.base := by
  by_cases same : e = f
  · exact .inl same
  · refine .inr ?_
    have symm : Std.Symm fun e f : ExtBlock => e.base + e.bytes ≤ f.base ∨ f.base + f.bytes ≤ e.base := ⟨fun _ _ apart => apart.symm⟩
    exact sound.extApart.forall member also same

theorem Sound.live_apart (sound : Sound P h) {one two : Piece} (live : Live h one)
    (live' : Live h two) : one = two ∨ one.stop ≤ two.addr ∨ two.stop ≤ one.addr := by
  rcases live with ⟨inUse⟩ | ⟨member⟩
  · rcases live' with ⟨inUse'⟩ | ⟨member'⟩
    · obtain rfl | apart := sound.contiguous.apart inUse.member inUse'.member
      · exact .inl rfl
      · exact .inr apart
    · next block e =>
      have within := sound.contiguous.inside inUse.member
      have size := (sound.extSize e member').1
      refine .inr ?_
      simp only [Piece.stop]
      obtain below | above := sound.extOutside e member'
      · omega
      · omega
  · rcases live' with ⟨inUse'⟩ | ⟨member'⟩
    · next e block =>
      have within := sound.contiguous.inside inUse'.member
      have size := (sound.extSize e member).1
      refine .inr ?_
      simp only [Piece.stop]
      obtain below | above := sound.extOutside e member
      · omega
      · omega
    · next e f =>
      have size := (sound.extSize e member).1
      have size' := (sound.extSize f member').1
      obtain rfl | apart := sound.ext_apart member member'
      · exact .inl rfl
      · simp only [Piece.stop]
        omega

theorem Sound.live_low (sound : Sound P h) {q : Piece} (live : Live h q) : q.stop ≤ 2 ^ 47 := by
  have low := P.low
  unfold Piece.stop
  rcases live with ⟨inUse⟩ | ⟨member⟩
  · have within := sound.contiguous.inside inUse.member
    simp only
    omega
  · obtain ⟨size, -, top⟩ := sound.extSize _ member
    simp only
    omega

theorem Sound.live_at (sound : Sound P h) (member : block ∈ h.chain) {q : Piece} (live : Live h q)
    (same : block.addr = q.addr) : InUse h block ∧ q = ⟨block.addr, block.size, block.flags⟩ := by
  rcases live with ⟨inUse⟩ | ⟨also⟩
  · obtain rfl := sound.contiguous.unique member inUse.member same
    exact ⟨inUse, rfl⟩
  · have within := sound.contiguous.inside member
    have size := (sound.extSize _ also).1
    have outside := sound.extOutside _ also
    simp only at same
    omega

theorem Sound.free_uncached (sound : Sound P h) (member : block ∈ h.chain)
    (isFree : block.isFree = true) : ∀ index, block.addr ∉ h.cached index := by
  intro index on
  obtain ⟨other, also, same, notFree, -⟩ := sound.cached index _ on
  obtain rfl := sound.contiguous.unique also member same
  rw [isFree] at notFree
  cases notFree

theorem Sound.taken_unlisted (sound : Sound P h) (member : block ∈ h.chain)
    (taken : block.isFree = false) : block.addr ∉ h.free := by
  intro on
  obtain ⟨other, also, same, isFree⟩ := (sound.free _).mp on
  obtain rfl := sound.contiguous.unique also member same
  rw [taken] at isFree
  cases isFree

theorem Sound.congr (sound : Sound P h) (chain : h'.chain = h.chain) (free : h'.free = h.free)
    (cached : h'.cached = h.cached) (ext : h'.ext = h.ext) : Sound P h' := by
  obtain ⟨contiguous, freeNodup, isFree, cachedNodup, isCached, extSize, extOutside, extApart⟩ :=
    sound
  rw [← chain] at contiguous isFree isCached
  rw [← free] at freeNodup isFree
  rw [← cached] at cachedNodup isCached
  rw [← ext] at extSize extOutside extApart
  exact ⟨contiguous, freeNodup, isFree, cachedNodup, isCached, extSize, extOutside, extApart⟩

theorem live_congr (chain : h'.chain = h.chain) (cached : h'.cached = h.cached)
    (ext : h'.ext = h.ext) (piece : Piece) : Live h' piece ↔ Live h piece := by
  have same : ∀ {one two : Heap}, two.chain = one.chain → two.cached = one.cached →
    two.ext = one.ext → Live one piece → Live two piece := by
    intro one two chain cached ext live
    rcases live with ⟨member, taken, uncached⟩ | member
    · exact .main ⟨by rw [chain]; exact member, taken, fun index => by rw [cached]; exact uncached index⟩
    · exact .ext (by rw [ext]; exact member)
  exact ⟨same chain.symm cached.symm ext.symm, same chain cached ext⟩

/-- A part of the chain is written anew: its free blocks are on the free list, and `added` says
which of its blocks are on the lists of the caches. -/
structure Rewrite (h h' : Heap) (before middle middle' after : List Block)
    (added : Nat → Nat → Prop) : Prop where
  chain : h.chain = before ++ (middle ++ after)
  chain' : h'.chain = before ++ (middle' ++ after)
  span : ∀ low high, Contiguous low middle high → Contiguous low middle' high
  ext : h'.ext = h.ext
  freeNodup : h'.free.Nodup
  free : ∀ addr, addr ∈ h'.free ↔ (∃ block ∈ middle', block.addr = addr ∧ block.isFree = true) ∨
    addr ∈ h.free ∧ ∀ block ∈ middle, block.addr ≠ addr
  cachedNodup : ∀ index, (h'.cached index).Nodup
  cached : ∀ index addr, addr ∈ h'.cached index ↔
    added index addr ∨ addr ∈ h.cached index ∧ ∀ block ∈ middle, block.addr ≠ addr
  sized : ∀ index addr, added index addr →
    ∃ block ∈ middle', block.addr = addr ∧ block.isFree = false ∧
    smallClassSizes[index]? = some block.size

variable {middle middle' : List Block} {added : Nat → Nat → Prop}

theorem mem_parts : block ∈ before ++ (middle ++ after) ↔
    (block ∈ before ∨ block ∈ after) ∨ block ∈ middle := by
  rw [List.mem_append, List.mem_append]
  tauto

namespace Rewrite

theorem beside (rewrite : Rewrite h h' before middle middle' after added) (sound : Sound P h)
    (side : block ∈ before ∨ block ∈ after) :
    (∀ other ∈ middle, other.addr ≠ block.addr) ∧ ∀ other ∈ middle', other.addr ≠ block.addr := by
  have contiguous := sound.contiguous
  rw [rewrite.chain] at contiguous
  obtain ⟨first, one, rest⟩ := contiguous_append.mp contiguous
  obtain ⟨last, two, three⟩ := contiguous_append.mp rest
  have apart : ∀ other : Block, first ≤ other.addr ∧ other.addr + 88 + other.size ≤ last →
    other.addr ≠ block.addr := by
    rcases side with earlier | later
    · have := one.inside earlier
      omega
    · have := three.inside later
      omega
  exact ⟨fun other member => apart other (two.inside member),
    fun other member => apart other ((rewrite.span _ _ two).inside member)⟩

theorem contiguous (rewrite : Rewrite h h' before middle middle' after added) (sound : Sound P h) :
    Contiguous P.start h'.chain (P.start + P.limit) := by
  have contiguous := sound.contiguous
  rw [rewrite.chain] at contiguous
  obtain ⟨first, one, rest⟩ := contiguous_append.mp contiguous
  obtain ⟨last, two, three⟩ := contiguous_append.mp rest
  rw [rewrite.chain']
  exact contiguous_append.mpr
    ⟨first, one, contiguous_append.mpr ⟨last, rewrite.span _ _ two, three⟩⟩

theorem sound (rewrite : Rewrite h h' before middle middle' after added) (sound : Sound P h) :
    Sound P h' := by
  have ext := rewrite.ext
  refine ⟨rewrite.contiguous sound, rewrite.freeNodup, fun addr => ?_, rewrite.cachedNodup,
    fun index addr on => ?_,
    by rw [ext]; exact sound.extSize, by rw [ext]; exact sound.extOutside, by rw [ext]; exact sound.extApart⟩
  · rw [rewrite.free, rewrite.chain']
    constructor
    · rintro (⟨block, member, isAddr, isFree⟩ | ⟨onFree, away⟩)
      · exact ⟨block, mem_parts.mpr (.inr member), isAddr, isFree⟩
      · obtain ⟨block, member, isAddr, isFree⟩ := (sound.free addr).mp onFree
        rw [rewrite.chain] at member
        obtain side | inner := mem_parts.mp member
        · exact ⟨block, mem_parts.mpr (.inl side), isAddr, isFree⟩
        · exact absurd isAddr (away block inner)
    · rintro ⟨block, member, isAddr, isFree⟩
      obtain side | inner := mem_parts.mp member
      · refine .inr ⟨(sound.free addr).mpr ⟨block, rewrite.chain ▸ mem_parts.mpr (.inl side), isAddr, isFree⟩, fun other inner => ?_⟩
        rw [← isAddr]
        exact (rewrite.beside sound side).1 other inner
      · exact .inl ⟨block, inner, isAddr, isFree⟩
  · rw [rewrite.chain']
    obtain new | ⟨onOld, away⟩ := (rewrite.cached index addr).mp on
    · obtain ⟨block, member, rest⟩ := rewrite.sized index addr new
      exact ⟨block, mem_parts.mpr (.inr member), rest⟩
    · obtain ⟨block, member, isAddr, rest⟩ := sound.cached index addr onOld
      rw [rewrite.chain] at member
      obtain side | inner := mem_parts.mp member
      · exact ⟨block, mem_parts.mpr (.inl side), isAddr, rest⟩
      · exact absurd isAddr (away block inner)

theorem live (rewrite : Rewrite h h' before middle middle' after added) (sound : Sound P h)
    (q : Piece) : Live h' q ↔
    (∃ block ∈ middle', block.isFree = false ∧ (∀ index, ¬ added index block.addr) ∧ q = ⟨block.addr, block.size, block.flags⟩) ∨
      Live h q ∧ ∀ block ∈ middle, block.addr ≠ q.addr := by
  constructor
  · rintro (⟨member, taken, uncached⟩ | member)
    · rw [rewrite.chain'] at member
      obtain side | inner := mem_parts.mp member
      · refine .inr ⟨.main ⟨rewrite.chain ▸ mem_parts.mpr (.inl side), taken, fun index on => ?_⟩, (rewrite.beside sound side).1⟩
        exact uncached index ((rewrite.cached index _).mpr (.inr ⟨on, (rewrite.beside sound side).1⟩))
      · exact .inl ⟨_, inner, taken, fun index new => uncached index ((rewrite.cached index _).mpr (.inl new)), rfl⟩
    · rw [rewrite.ext] at member
      refine .inr ⟨.ext member, fun block inner same => ?_⟩
      have within := sound.contiguous.inside (rewrite.chain ▸ mem_parts.mpr (.inr inner))
      obtain ⟨isBytes, -, -⟩ := sound.extSize _ member
      have outside := sound.extOutside _ member
      simp only at same
      omega
  · rintro (⟨block, inner, taken, notAdded, rfl⟩ | ⟨⟨member, taken, uncached⟩ | member, away⟩)
    · refine .main ⟨rewrite.chain' ▸ mem_parts.mpr (.inr inner), taken, fun index on => ?_⟩
      obtain new | ⟨onOld, gone⟩ := (rewrite.cached index _).mp on
      · exact notAdded index new
      · obtain ⟨other, member, isAddr, -⟩ := sound.cached index _ onOld
        rw [rewrite.chain] at member
        obtain side | inner' := mem_parts.mp member
        · exact (rewrite.beside sound side).2 block inner isAddr.symm
        · exact gone other inner' isAddr
    · rw [rewrite.chain] at member
      obtain side | inner := mem_parts.mp member
      · refine .main ⟨rewrite.chain' ▸ mem_parts.mpr (.inl side), taken, fun index on => ?_⟩
        obtain new | ⟨onOld, -⟩ := (rewrite.cached index _).mp on
        · obtain ⟨other, inner, isAddr, -⟩ := rewrite.sized index _ new
          exact (rewrite.beside sound side).2 other inner isAddr
        · exact uncached index onOld
      · exact absurd rfl (away _ inner)
    · exact .ext (rewrite.ext ▸ member)

end Rewrite

end Cos.Kheap
