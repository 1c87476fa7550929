import Cos.Kheap.HeapSound
import Mathlib.Data.List.Nodup

/-! # What an allocation gives

Each branch of `kmalloc_flags` makes one block of those that are not in use a block that is,
and leaves the others as they are.
-/

namespace Cos.Kheap

open Cos.Lib Heap

variable {P : HeapPlace} {h h' : Heap} {addr size flags given index user : Nat}
  {block other : Block}
variable {before after : List Block} {piece : Piece}

section Frame

variable {allocated : Bool}

@[simp] theorem updateMemoryStats_chain :
    (h.updateMemoryStats size allocated).chain = h.chain := by cases allocated <;> rfl
@[simp] theorem updateMemoryStats_free :
    (h.updateMemoryStats size allocated).free = h.free := by cases allocated <;> rfl
@[simp] theorem updateMemoryStats_cached :
    (h.updateMemoryStats size allocated).cached = h.cached := by cases allocated <;> rfl
@[simp] theorem updateMemoryStats_ext :
    (h.updateMemoryStats size allocated).ext = h.ext := by cases allocated <;> rfl
@[simp] theorem updateMemoryStats_mem :
    (h.updateMemoryStats size allocated).mem = h.mem := by cases allocated <;> rfl
@[simp] theorem updateMemoryStats_usage :
    (h.updateMemoryStats size true).currentUsage = h.currentUsage + size := rfl
@[simp] theorem updateMemoryStats_freed :
    (h.updateMemoryStats size false).currentUsage = h.currentUsage - size := rfl

@[simp] theorem zeroed_chain : (h.zeroed flags user size).chain = h.chain := by
  unfold zeroed; split <;> rfl
@[simp] theorem zeroed_free : (h.zeroed flags user size).free = h.free := by
  unfold zeroed; split <;> rfl
@[simp] theorem zeroed_cached : (h.zeroed flags user size).cached = h.cached := by
  unfold zeroed; split <;> rfl
@[simp] theorem zeroed_ext : (h.zeroed flags user size).ext = h.ext := by
  unfold zeroed; split <;> rfl
@[simp] theorem zeroed_usage : (h.zeroed flags user size).currentUsage = h.currentUsage := by
  unfold zeroed; split <;> rfl

@[simp] theorem poisoned_chain : (h.poisoned flags user size).chain = h.chain := by
  unfold poisoned; split <;> rfl
@[simp] theorem poisoned_free : (h.poisoned flags user size).free = h.free := by
  unfold poisoned; split <;> rfl
@[simp] theorem poisoned_cached : (h.poisoned flags user size).cached = h.cached := by
  unfold poisoned; split <;> rfl
@[simp] theorem poisoned_ext : (h.poisoned flags user size).ext = h.ext := by
  unfold poisoned; split <;> rfl
@[simp] theorem poisoned_usage : (h.poisoned flags user size).currentUsage = h.currentUsage := by
  unfold poisoned; split <;> rfl

theorem zeroed_mem {x : Nat} (outside : ¬ (user ≤ x ∧ x < user + size)) :
    (h.zeroed flags user size).mem x = h.mem x := by
  unfold zeroed
  split
  · exact if_neg outside
  · rfl

theorem poisoned_mem {x : Nat} (outside : ¬ (user ≤ x ∧ x < user + size)) :
    (h.poisoned flags user size).mem x = h.mem x := by
  unfold poisoned
  split
  · exact if_neg outside
  · rfl

end Frame

/-- What an allocation gives: `piece` comes into use, and `charged` bytes are added to the usage. -/
structure Granted (P : HeapPlace) (h h' : Heap) (piece : Piece) (charged : Nat) : Prop where
  sound : Sound P h'
  live : ∀ q, Live h' q ↔ q = piece ∨ Live h q
  fresh : ∀ q, Live h q → q.addr ≠ piece.addr
  usage : h'.currentUsage = h.currentUsage + charged
  mem : ∀ x, ¬ (piece.user ≤ x ∧ x < piece.stop) → h'.mem x = h.mem x

theorem smallClassIndex_le (isClass : smallClassIndex size = some index) :
    ∃ most, smallClassSizes[index]? = some most ∧ size ≤ most := by
  obtain ⟨within, fits, -⟩ := List.findIdx?_eq_some_iff_getElem.mp isClass
  exact ⟨_, List.getElem?_eq_getElem within, of_decide_eq_true fits⟩

theorem smallClass_unique {one two most : Nat} (isOne : smallClassSizes[one]? = some most)
    (isTwo : smallClassSizes[two]? = some most) : one = two := by
  have distinct : smallClassSizes.Nodup := by decide
  obtain ⟨within, isOne⟩ := List.getElem?_eq_some_iff.mp isOne
  obtain ⟨within', isTwo⟩ := List.getElem?_eq_some_iff.mp isTwo
  exact (List.Nodup.getElem_inj_iff distinct).mp (isOne.trans isTwo.symm)

theorem Sound.cached_unique (sound : Sound P h) {one two : Nat} (onOne : addr ∈ h.cached one)
    (onTwo : addr ∈ h.cached two) : one = two := by
  obtain ⟨block, member, isAddr, -, isSize⟩ := sound.cached one addr onOne
  obtain ⟨block', member', isAddr', -, isSize'⟩ := sound.cached two addr onTwo
  obtain rfl := sound.contiguous.unique member member' (isAddr.trans isAddr'.symm)
  exact smallClass_unique isSize isSize'

theorem takeCached_spec {result : Heap × Nat} (sound : Sound P h)
    (taken : h.takeCached size flags = some result) :
    ∃ piece, result.2 = piece.user ∧ size ≤ piece.size ∧ piece.size ≤ P.limit ∧
    Granted P h result.1 piece piece.size := by
  simp only [takeCached, Option.bind_eq_bind, Option.bind_eq_some_iff] at taken
  obtain ⟨index, isClass, addr, isHead, ⟨before, block, after⟩, isFound, isResult⟩ := taken
  obtain rfl := Option.some.inj isResult
  obtain ⟨isChain, rfl⟩ := locate_some isFound
  obtain ⟨rest, isList⟩ : ∃ rest, h.cached index = block.addr :: rest := by
    rcases isList : h.cached index with _ | ⟨first, rest⟩
    · rw [isList] at isHead
      cases isHead
    · rw [isList] at isHead
      cases isHead
      exact ⟨rest, rfl⟩
  have onList : block.addr ∈ h.cached index := by rw [isList]; exact List.mem_cons_self
  have member : block ∈ h.chain := isChain ▸ List.mem_append_right _ List.mem_cons_self
  obtain ⟨found, isMember, isAddr, isTaken, isSize⟩ := sound.cached index _ onList
  obtain rfl := sound.contiguous.unique isMember member isAddr
  obtain ⟨most, isMost, fits⟩ := smallClassIndex_le isClass
  obtain rfl := Option.some.inj (isMost.symm.trans isSize)
  have distinct := sound.cachedNodup index
  rw [isList] at distinct
  obtain ⟨notRest, distinct⟩ := List.nodup_cons.mp distinct
  obtain ⟨h', isLater⟩ : ∃ h', ((({ h with
      cached := Function.update h.cached index (h.cached index).tail
      chain := before ++ { found with isFree := false, flags, allocId := h.nextAllocId } :: after
      nextAllocId := h.nextAllocId + 1 } : Heap).zeroed flags (found.addr + headerSize) found.size).updateMemoryStats found.size true) = h' :=
    ⟨_, rfl⟩
  have rewrite : Rewrite h h' before [found]
    [{ found with isFree := false, flags, allocId := h.nextAllocId }] after fun _ _ => False := by
    subst isLater
    refine ⟨isChain, by simp, fun _ _ contiguous => contiguous, by simp, by simpa using sound.freeNodup, fun a => ?_, fun i => ?_,
      fun i a => ?_, fun _ _ no => no.elim⟩
    · have notFree := sound.taken_unlisted isMember isTaken
      simp only [updateMemoryStats_free, zeroed_free, List.mem_singleton, exists_eq_left,
        Bool.false_eq_true, and_false, false_or, forall_eq]
      refine ⟨fun on => ⟨on, ?_⟩, And.left⟩
      rintro rfl
      exact notFree on
    · simp only [updateMemoryStats_cached, zeroed_cached]
      by_cases same : i = index
      · subst same
        rw [Function.update_self, isList]
        exact distinct
      · rw [Function.update_of_ne same]
        exact sound.cachedNodup i
    · simp only [updateMemoryStats_cached, zeroed_cached, false_or, List.mem_singleton, forall_eq]
      -- only this block leaves the lists
      by_cases same : i = index
      · subst same
        rw [Function.update_self, isList, List.tail_cons, List.mem_cons]
        refine ⟨fun onRest => ⟨.inr onRest, ?_⟩, fun both => both.1.resolve_left both.2.symm⟩
        rintro rfl
        exact notRest onRest
      · rw [Function.update_of_ne same]
        refine ⟨fun on => ⟨on, ?_⟩, And.left⟩
        rintro rfl
        exact same (sound.cached_unique on onList)
  have gone : ∀ q, Live h q → found.addr ≠ q.addr :=
    fun q live same => (sound.live_at member live same).1.uncached index onList
  rw [isLater]
  have within := sound.contiguous.inside member
  refine ⟨⟨found.addr, found.size, flags⟩, rfl,
    fits, by simp only; omega, rewrite.sound sound, fun q => ?_, fun q live => (gone q live).symm, ?_, fun x outside => ?_⟩
  · rw [rewrite.live sound]
    simp only [List.mem_singleton, exists_eq_left, not_false_eq_true, implies_true, true_and, forall_eq]
    exact or_congr_right ⟨And.left, fun live => ⟨live, gone q live⟩⟩
  · rw [← isLater]
    simp
  · rw [← isLater, updateMemoryStats_mem]
    exact zeroed_mem outside

theorem firstFit_some (found : h.firstFit size = some (before, block, after)) :
    h.chain = before ++ block :: after ∧ block.isFree = true ∧ size ≤ block.size ∧
    block.addr ∈ h.free := by
  obtain ⟨addr, onFree, isFound⟩ := List.exists_of_findSome?_eq_some found
  obtain ⟨isLocated, fits⟩ := Option.filter_eq_some_iff.mp isFound
  obtain ⟨isChain, rfl⟩ := locate_some isLocated
  simp only [Bool.and_eq_true, decide_eq_true_eq] at fits
  exact ⟨isChain, fits.1, fits.2, onFree⟩

theorem splitBlock_cases (fits : size ≤ block.size) :
    (block.size < size + 120 ∧ splitBlock block size = (block, none)) ∨
      (size + 120 ≤ block.size ∧ splitBlock block size =
        ({ block with size }, some ⟨block.addr + 88 + size, block.size - size - 88, true, 0, 0⟩)) := by
  have header : headerSize + minSplitPayload = 120 := rfl
  have remaining : (if size < block.size then block.size - size else 0) = block.size - size := by
    split
    · rfl
    · omega
  rw [splitBlock]
  simp only [remaining, header]
  by_cases small : block.size - size < 120
  · exact .inl ⟨by omega, if_pos small⟩
  · exact .inr ⟨by omega, if_neg small⟩

/-- The bytes of the payload of a block that is taken from the free list. -/
def takenSize (block : Block) (size : Nat) : Nat := (splitBlock block size).1.size

theorem takenSize_cases (fits : size ≤ block.size) :
    (size + 120 ≤ block.size ∧ takenSize block size = size) ∨
    (block.size < size + 120 ∧ takenSize block size = block.size) := by
  rw [takenSize]
  obtain ⟨small, isSplit⟩ | ⟨large, isSplit⟩ := splitBlock_cases fits
  · exact .inr ⟨small, by rw [isSplit]⟩
  · exact .inl ⟨large, by rw [isSplit]⟩

theorem takeFree_spec (sound : Sound P h) (found : h.firstFit size = some (before, block, after))
    (flags : Nat) : (h.takeFree before block after size flags).2 = block.addr + 88 ∧
      Granted P h (h.takeFree before block after size flags).1 ⟨block.addr, takenSize block size, flags⟩ size := by
  obtain ⟨isChain, isFree, fits, onFree⟩ := firstFit_some found
  have member : block ∈ h.chain := isChain ▸ List.mem_append_right _ List.mem_cons_self
  -- the address of the new block, if there is one, is inside the old one
  have inner : ∀ other ∈ h.chain, size + 120 ≤ block.size →
    other.addr ≠ block.addr + 88 + size := by
    intro other also large
    obtain rfl | apart := sound.contiguous.apart member also
    · omega
    · omega
  obtain ⟨taken, rest, isSplit⟩ : ∃ taken rest, splitBlock block size = (taken, rest) := ⟨_, _, rfl⟩
  have isAddr : taken.addr = block.addr := by
    obtain ⟨-, same⟩ | ⟨-, same⟩ := splitBlock_cases fits
    · rw [isSplit] at same
      cases same
      rfl
    · rw [isSplit] at same
      cases same
      rfl
  have isSize : takenSize block size = taken.size := by rw [takenSize, isSplit]
  simp only [takeFree, isSplit]
  obtain ⟨h', isLater⟩ : ∃ h', ((({ h with
      chain := before ++ { taken with isFree := false, flags, allocId := h.nextAllocId } :: (rest.toList ++ after)
      free := (rest.map Block.addr).toList ++ h.free.erase block.addr
      nextAllocId := h.nextAllocId + 1 } : Heap).zeroed flags (taken.addr + headerSize) size).updateMemoryStats size true) = h' := ⟨_, rfl⟩
  have restFacts : ∀ c ∈ rest, c.isFree = true ∧ c.addr ∉ h.free ∧
    ∀ other ∈ h.chain, other.addr ≠ c.addr := by
    intro c isRest
    obtain ⟨-, same⟩ | ⟨large, same⟩ := splitBlock_cases fits
    · rw [isSplit] at same
      cases same
      cases isRest
    · rw [isSplit] at same
      cases same
      cases isRest
      refine ⟨rfl, fun on => ?_, fun other also => inner other also large⟩
      obtain ⟨other, also, same, -⟩ := (sound.free _).mp on
      exact inner other also large same
  have rewrite : Rewrite h h' before [block] ({ taken with isFree := false, flags, allocId := h.nextAllocId } :: rest.toList) after
      fun _ _ => False := by
    subst isLater
    refine ⟨isChain, by simp, fun low high contiguous => ?_, by simp, ?_, fun a => ?_, fun i => by simpa using sound.cachedNodup i,
      fun i a => ?_, fun _ _ no => no.elim⟩
    · obtain ⟨isLow, isHigh⟩ := contiguous
      have isHigh : low + 88 + block.size = high := isHigh
      obtain ⟨-, same⟩ | ⟨large, same⟩ := splitBlock_cases fits
      · rw [isSplit] at same
        cases same
        exact ⟨isLow, isHigh⟩
      · rw [isSplit] at same
        cases same
        refine ⟨isLow, ?_, ?_⟩
        · simp only
          omega
        · show low + 88 + size + 88 + (block.size - size - 88) = high
          omega
    · cases rest with
      | none => simpa using sound.freeNodup.erase block.addr
      | some c =>
          have fresh := (restFacts c rfl).2.1
          simpa using ⟨fun on => fresh (List.mem_of_mem_erase on), sound.freeNodup.erase block.addr⟩
    · rw [List.forall_mem_singleton]
      simp only [updateMemoryStats_free, zeroed_free, List.mem_append, sound.freeNodup.mem_erase_iff, List.mem_cons, exists_eq_or_imp,
        Bool.false_eq_true, and_false, false_or]
      refine or_congr ?_ (and_comm.trans (and_congr_right fun _ => ne_comm))
      cases rest with
      | none => simp
      | some c => simpa [(restFacts c rfl).1] using eq_comm
    · have notCached := sound.free_uncached member isFree i
      simp only [updateMemoryStats_cached, zeroed_cached, false_or, List.mem_singleton, forall_eq]
      refine ⟨fun on => ⟨on, ?_⟩, And.left⟩
      rintro rfl
      exact notCached on
  have gone : ∀ q, Live h q → block.addr ≠ q.addr := by
    intro q live same
    have taken := (sound.live_at member live same).1.taken
    rw [isFree] at taken
    cases taken
  rw [isLater, isSize]
  refine ⟨by rw [isAddr], rewrite.sound sound, fun q => ?_, fun q live => (gone q live).symm, ?_, fun x outside => ?_⟩
  · rw [rewrite.live sound]
    rw [List.forall_mem_singleton]
    simp only [List.mem_cons, exists_eq_or_imp, not_false_eq_true, implies_true, true_and, isAddr]
    have noRest : ¬ ∃ c ∈ rest.toList, c.isFree = false ∧ q = ⟨c.addr, c.size, c.flags⟩ := by
      rintro ⟨c, isRest, notFree, -⟩
      rw [(restFacts c (Option.mem_toList.mp isRest)).1] at notFree
      cases notFree
    simp only [noRest, or_false]
    exact or_congr_right ⟨And.left, fun live => ⟨live, gone q live⟩⟩
  · rw [← isLater]
    simp
  · rw [← isLater, updateMemoryStats_mem]
    refine zeroed_mem fun inside => outside ?_
    have upTo : size ≤ taken.size := by
      obtain ⟨large, isTaken⟩ | ⟨small, isTaken⟩ := takenSize_cases fits
      · omega
      · omega
    simp only [Piece.user, Piece.stop]
    simp only [headerSize] at inside
    omega

theorem alignUp_eq {x a : Nat} (fits : x + (a - 1) < 2 ^ 64) :
    alignUp x a = (x + (a - 1)) / a * a := by
  rw [alignUp, Nat.mod_eq_of_lt fits]

theorem neededBytes_bounds (fits : size ≤ 0xAAAA8000) :
    alignUp (size + headerSize) pageSize % pageSize = 0 ∧ size + 88 ≤ alignUp (size + headerSize)
      pageSize ∧ alignUp (size + headerSize) pageSize < size + 88 + 4096 := by
  simp only [headerSize, pageSize]
  rw [alignUp_eq (by omega)]
  omega

theorem cosExtAlloc_spec {result : Heap × Nat} (sound : Sound P h) (fits : size ≤ 0xAAAA8000)
    (granted : h.cosExtAlloc P size flags given = some result) :
    result.2 = given + 88 ∧ ∃ piece, piece.addr = given ∧ piece.size + 88 = alignUp (size + headerSize) pageSize ∧
      Granted P h (result.1.updateMemoryStats size true) piece size := by
  obtain ⟨aligned, enough, -⟩ := neededBytes_bounds fits
  unfold cosExtAlloc at granted
  simp only at granted
  split at granted
  · cases granted
  split at granted
  · cases granted
  split at granted
  · cases granted
  split at granted
  · cases granted
  next isFresh =>
  obtain ⟨needed, isNeeded⟩ : ∃ needed, alignUp (size + headerSize) pageSize = needed := ⟨_, rfl⟩
  rw [isNeeded] at aligned enough isFresh granted ⊢
  obtain ⟨nonzero, isInside, outside, apart⟩ := not_not.mp isFresh
  obtain rfl := Option.some.inj granted
  have isPages : needed / 4096 * 4096 = needed := by
    have : needed % 4096 = 0 := aligned
    omega
  have isSize : needed - 88 + 88 = needed := by omega
  refine ⟨rfl, ⟨given, needed - 88, flags ||| flagExtension⟩, rfl, isSize, ?_, fun q => ?_,
    ?_, by simp, fun x outside' => ?_⟩
  · refine ⟨by simpa using sound.contiguous, by simpa using sound.freeNodup, by simpa using sound.free, by simpa using sound.cachedNodup,
      by simpa using sound.cached, ?_, ?_, ?_⟩
    · simp only [updateMemoryStats_ext, zeroed_ext]
      refine List.forall_mem_cons.mpr ⟨⟨?_, nonzero, ?_⟩, sound.extSize⟩
      · exact isSize.trans isPages.symm
      · show given + needed / 4096 * 4096 ≤ 2 ^ 47
        rw [isPages]
        exact isInside
    · simp only [updateMemoryStats_ext, zeroed_ext]
      refine List.forall_mem_cons.mpr ⟨?_, sound.extOutside⟩
      show given + needed / 4096 * 4096 ≤ P.start ∨ P.start + P.limit ≤ given
      rw [isPages]
      exact outside
    · simp only [updateMemoryStats_ext, zeroed_ext]
      refine List.pairwise_cons.mpr ⟨fun e member => ?_, sound.extApart⟩
      show given + needed / 4096 * 4096 ≤ e.base ∨ e.base + e.bytes ≤ given
      rw [isPages]
      exact apart e member
  · constructor
    · rintro (⟨member, taken, uncached⟩ | member)
      · exact .inr (.main ⟨by simpa using member, taken, by simpa using uncached⟩)
      · simp only [updateMemoryStats_ext, zeroed_ext] at member
        rcases List.mem_cons.mp member with rfl | old
        · exact .inl rfl
        · exact .inr (.ext old)
    · rintro (rfl | ⟨member, taken, uncached⟩ | member)
      · refine .ext (e := ⟨given, needed / pageSize, needed - headerSize, flags ||| flagExtension, h.nextAllocId⟩) ?_
        simp
      · exact .main ⟨by simpa using member, taken, by simpa using uncached⟩
      · refine .ext ?_
        simp only [updateMemoryStats_ext, zeroed_ext]
        exact List.mem_cons_of_mem _ member
  · rintro q (⟨member, -, -⟩ | member)
    · have within := sound.contiguous.inside member
      simp only
      omega
    · next e =>
      have isBytes := (sound.extSize e member).1
      have : e.base + e.pages * 4096 ≤ given ∨ given + needed ≤ e.base := (apart e member).symm
      have : e.size + 88 = e.pages * 4096 := isBytes
      simp only
      omega
  · exact zeroed_mem outside'

def ExtRoom (P : HeapPlace) (h : Heap) (size given : Nat) : Prop :=
  h.extCap ≠ 0 ∧ h.extTotal + alignUp (size + headerSize) pageSize ≤ h.extCap ∧
    h.ext.length < extMaxAllocations ∧ FreshPages P h given (alignUp (size + headerSize) pageSize)

def CacheRoom (h : Heap) (size : Nat) : Prop :=
  ∃ index, smallClassIndex size = some index ∧ h.cached index ≠ []

def FreeRoom (h : Heap) (size : Nat) : Prop :=
  ∃ block ∈ h.chain, block.isFree = true ∧ size ≤ block.size

/-- `kmalloc_flags` cannot serve a request. -/
def Refused (P : HeapPlace) (h : Heap) (size given : Nat) : Prop :=
  size = 0 ∨ P.limit < alignUp size 16 ∨
    ¬ (CacheRoom h (alignUp size 16) ∨ FreeRoom h (alignUp size 16) ∨
    ExtRoom P h (alignUp size 16) given)

theorem takeCached_none (sound : Sound P h) :
    h.takeCached size flags = none ↔ ¬ CacheRoom h size := by
  rw [← Option.not_isSome_iff_eq_none, not_iff_not]
  constructor
  · intro isSome
    obtain ⟨result, taken⟩ := Option.isSome_iff_exists.mp isSome
    simp only [takeCached, Option.bind_eq_bind, Option.bind_eq_some_iff] at taken
    obtain ⟨index, isClass, addr, isHead, -⟩ := taken
    refine ⟨index, isClass, fun empty => ?_⟩
    rw [empty] at isHead
    cases isHead
  · rintro ⟨index, isClass, nonempty⟩
    obtain ⟨addr, rest, isList⟩ := List.exists_cons_of_ne_nil nonempty
    obtain ⟨block, member, rfl, -⟩ := sound.cached index addr (isList ▸ List.mem_cons_self)
    obtain ⟨before, after, isLocated, -⟩ := sound.contiguous.locate member
    simp [takeCached, isClass, isList, isLocated]

theorem firstFit_none (sound : Sound P h) : h.firstFit size = none ↔ ¬ FreeRoom h size := by
  rw [← Option.not_isSome_iff_eq_none, not_iff_not]
  constructor
  · intro isSome
    obtain ⟨⟨before, block, after⟩, found⟩ := Option.isSome_iff_exists.mp isSome
    obtain ⟨isChain, isFree, fits, -⟩ := firstFit_some found
    exact ⟨block, isChain ▸ List.mem_append_right _ List.mem_cons_self, isFree, fits⟩
  · rintro ⟨block, member, isFree, fits⟩
    obtain ⟨before, after, isLocated, -⟩ := sound.contiguous.locate member
    have onFree := (sound.free block.addr).mpr ⟨block, member, rfl, isFree⟩
    rw [firstFit, List.findSome?_isSome_iff]
    exact ⟨_, onFree, by simp [isLocated, Option.filter, isFree, fits]⟩

theorem cosExtAlloc_none : h.cosExtAlloc P size flags given = none ↔ ¬ ExtRoom P h size given := by
  unfold cosExtAlloc ExtRoom
  simp only
  split
  · next no => simp [no]
  split
  · next no => simp [Nat.not_le.mpr no]
  split
  · next no => simp [Nat.not_lt.mpr no]
  split
  · next no => simp [no]
  next one two three four =>
  simp [one, Nat.not_lt.mp two, Nat.not_le.mp three, not_not.mp four]

theorem kmallocFlags_refused (sound : Sound P h) (refused : Refused P h size given) :
    h.kmallocFlags P size flags given = (h, 0) := by
  unfold kmallocFlags
  split
  · rfl
  next nonzero =>
  simp only
  split
  · rfl
  next within =>
  have none := (refused.resolve_left nonzero).resolve_left within
  obtain ⟨noCache, noFree, noExt⟩ := (not_or.trans (and_congr_right fun _ => not_or)).mp none
  rw [(takeCached_none sound).mpr noCache, (firstFit_none sound).mpr noFree,
    cosExtAlloc_none.mpr noExt]

/-- A block of the free list fits or is split; where there is none, the request fills whole
pages. -/
def ServesExactly (size : Nat) : Option (List Block × Block × List Block) → Prop
  | some (_, block, _) => block.size = size ∨ size + 120 ≤ block.size
  | none => (size + 88) % 4096 = 0

instance : (found : Option (List Block × Block × List Block)) → Decidable (ServesExactly size found)
  | some _ => inferInstanceAs (Decidable (_ ∨ _))
  | none => inferInstanceAs (Decidable (_ = _))

/-- The block that serves a request is as large as the request is counted. -/
def ExactFit (h : Heap) (size : Nat) : Prop :=
  CacheRoom h (alignUp size 16) ∨ ServesExactly (alignUp size 16) (h.firstFit (alignUp size 16))

theorem kmallocFlags_spec (sound : Sound P h) (served : ¬ Refused P h size given) : ∃ piece charged,
    (h.kmallocFlags P size flags given).2 = piece.user ∧ alignUp size 16 ≤ piece.size ∧ piece.size ≤ 0xAAAA9000 ∧ charged ≤ piece.size ∧
      (charged = piece.size ↔ ExactFit h size) ∧ Granted P h (h.kmallocFlags P size flags given).1 piece charged := by
  have low := P.low
  have served' := served
  unfold Refused at served'
  push Not at served'
  obtain ⟨nonzero, within, room⟩ := served'
  obtain ⟨s, isRounded⟩ : ∃ s, alignUp size 16 = s := ⟨_, rfl⟩
  rw [kmallocFlags, if_neg nonzero]
  unfold ExactFit
  rw [isRounded] at within room ⊢
  rw [if_neg (Nat.not_lt.mpr within)]
  rcases isCached : h.takeCached s flags with _ | result
  · have noCache := (takeCached_none sound).mp isCached
    rcases isFound : h.firstFit s with _ | ⟨before, block, after⟩
    · rcases isExt : h.cosExtAlloc P s flags given with _ | ⟨h', user⟩
      · have noFree := (firstFit_none sound).mp isFound
        have noExt := cosExtAlloc_none.mp isExt
        exact absurd room (by tauto)
      · obtain ⟨isUser, piece, isAddr, isSize, granted⟩ := cosExtAlloc_spec sound (by omega) isExt
        obtain ⟨aligned, enough, most⟩ := @neededBytes_bounds s (by omega)
        simp only [pageSize] at aligned enough most isSize
        refine ⟨piece, s, ?_, by omega, by omega, by omega, ?_, granted⟩
        · rw [Piece.user, isAddr]
          exact isUser
        · simp only [noCache, false_or, ServesExactly]
          omega
    · obtain ⟨isChain, -, fits, -⟩ := firstFit_some isFound
      obtain ⟨isUser, granted⟩ := takeFree_spec sound isFound flags
      have inside := sound.contiguous.inside (isChain ▸ List.mem_append_right _ List.mem_cons_self)
      refine ⟨⟨block.addr, takenSize block s, flags⟩, s, isUser, ?_, ?_, ?_, ?_, granted⟩
      · obtain ⟨-, isTaken⟩ | ⟨-, isTaken⟩ := takenSize_cases fits
        · exact Nat.le_of_eq isTaken.symm
        · exact isTaken ▸ fits
      · show takenSize block s ≤ _
        obtain ⟨-, isTaken⟩ | ⟨-, isTaken⟩ := takenSize_cases fits
        · omega
        · omega
      · show s ≤ takenSize block s
        obtain ⟨-, isTaken⟩ | ⟨-, isTaken⟩ := takenSize_cases fits
        · omega
        · omega
      · simp only [noCache, false_or, ServesExactly]
        obtain ⟨large, isTaken⟩ | ⟨small, isTaken⟩ := takenSize_cases fits
        · exact ⟨fun _ => .inr large, fun _ => isTaken.symm⟩
        · omega
  · obtain ⟨piece, isUser, fits, most, granted⟩ := takeCached_spec sound isCached
    have cacheRoom : CacheRoom h s := by
      by_contra noCache
      rw [(takeCached_none sound).mpr noCache] at isCached
      cases isCached
    exact ⟨piece, piece.size, isUser, fits, by omega, Nat.le_refl _, ⟨fun _ => .inl cacheRoom, fun _ => rfl⟩, granted⟩

end Cos.Kheap
