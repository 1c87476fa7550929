import Cos.Kheap.Grants
import Mathlib.Algebra.Order.BigOperators.Group.List
import Mathlib.Algebra.Order.Group.Nat

/-! # What a release gives back

`kfree` puts the block of a pointer on the list of a cache or, with its free neighbours, on
the free list; an extension block goes back to the pages.  The other blocks are as before.
-/

namespace Cos.Kheap

open Cos.Lib Heap

variable {P : HeapPlace} {h h' : Heap} {ptr index low high : Nat} {block : Block}
  {before after : List Block} {piece : Piece}
variable {free : List Nat}

/-- What a release does: `piece` is no longer in use, and its size is taken from the usage. -/
structure Released (P : HeapPlace) (h h' : Heap) (piece : Piece) : Prop where
  sound : Sound P h'
  live : ∀ q, Live h' q ↔ Live h q ∧ q.addr ≠ piece.addr
  usage : h'.currentUsage = h.currentUsage - piece.size
  mem : ∀ x, ¬ (piece.user ≤ x ∧ x < piece.stop) → h'.mem x = h.mem x

theorem mergeForward_spec {merged : Block} {rest : List Block} {free' : List Nat}
    (distinct : free.Nodup) (isMerged : mergeForward block after free = (merged, rest, free')) :
    ∃ taken, after = taken ++ rest ∧ (∀ b ∈ taken, b.isFree = true) ∧ merged.addr = block.addr ∧
      merged.isFree = block.isFree ∧
      (∀ low high, Contiguous low (block :: taken) high → Contiguous low [merged] high) ∧
      free'.Nodup ∧ ∀ a, a ∈ free' ↔ a ∈ free ∧ ∀ b ∈ taken, b.addr ≠ a := by
  rcases after with _ | ⟨next, after⟩
  · cases isMerged
    exact ⟨[], rfl, by simp, rfl, rfl, fun _ _ same => same, distinct, by simp⟩
  · rw [mergeForward] at isMerged
    split at isMerged
    · next isFree =>
      cases isMerged
      refine ⟨[next], rfl, by simpa using isFree, rfl, rfl, fun low high contiguous => ?_, distinct.erase _, fun a => ?_⟩
      · obtain ⟨isLow, -, isHigh⟩ := contiguous
        have isHigh : low + 88 + block.size + 88 + next.size = high := isHigh
        refine ⟨isLow, ?_⟩
        show low + 88 + (block.size + (88 + next.size)) = high
        omega
      · rw [distinct.mem_erase_iff, List.forall_mem_singleton, and_comm, ne_comm]
    · cases isMerged
      exact ⟨[], rfl, by simp, rfl, rfl, fun _ _ same => same, distinct, by simp⟩

theorem mergeBackward_spec {chain : List Block} {free' : List Nat} (distinct : free.Nodup)
    (unlisted : block.addr ∉ free) (listed : ∀ b ∈ before, b.isFree = true → b.addr ∈ free)
    (isFree : block.isFree = true)
    (isMerged : mergeBackward before block after free = (chain, free')) :
    ∃ first taken merged, before = first ++ taken ∧ chain = first ++ merged :: after ∧
      merged.isFree = true ∧ (∀ b ∈ taken, b.isFree = true ∧ b.addr = merged.addr) ∧
      (∀ low high, Contiguous low (taken ++ [block]) high → Contiguous low [merged] high) ∧
      free'.Nodup ∧ ∀ a, a ∈ free' ↔ a = merged.addr ∨ a ∈ free := by
  rw [mergeBackward] at isMerged
  split at isMerged
  · next prev isLast =>
    have split : before = before.dropLast ++ [prev] :=
      (List.dropLast_append_getLast? prev isLast).symm
    split at isMerged
    · next prevFree =>
      cases isMerged
      refine ⟨before.dropLast, [prev], { prev with size := prev.size + (headerSize + block.size) }, split, rfl, prevFree,
        by simpa using prevFree, fun low high contiguous => ?_, distinct, fun a => ?_⟩
      · obtain ⟨isLow, -, isHigh⟩ := contiguous
        have isHigh : low + 88 + prev.size + 88 + block.size = high := isHigh
        refine ⟨isLow, ?_⟩
        show low + 88 + (prev.size + (88 + block.size)) = high
        omega
      · have onFree : prev.addr ∈ free := listed prev (split ▸ List.mem_append_right _ (List.mem_singleton_self _)) prevFree
        refine ⟨.inr, fun either => either.elim (fun same => ?_) id⟩
        rw [same]
        exact onFree
    · cases isMerged
      exact ⟨before, [], block, by simp, rfl, isFree, by simp, fun _ _ same => same, List.nodup_cons.mpr ⟨unlisted, distinct⟩,
        fun _ => List.mem_cons⟩
  · cases isMerged
    exact ⟨before, [], block, by simp, rfl, isFree, by simp, fun _ _ same => same, List.nodup_cons.mpr ⟨unlisted, distinct⟩,
      fun _ => List.mem_cons⟩

theorem cacheIndex_size (cached : h.cacheIndex block = some index) :
    smallClassSizes[index]? = some block.size := by
  unfold cacheIndex at cached
  split at cached
  · obtain ⟨-, fits⟩ := Option.filter_eq_some_iff.mp cached
    simp only [Bool.and_eq_true, decide_eq_true_eq] at fits
    exact fits.1
  · cases cached

theorem freeBlock_spec (sound : Sound P h) (isChain : h.chain = before ++ block :: after)
    (inUse : InUse h block) :
    Released P h (h.freeBlock before block after) ⟨block.addr, block.size, block.flags⟩ := by
  obtain ⟨member, taken, uncached⟩ := inUse
  have unlisted := sound.taken_unlisted member taken
  -- what is left in use lies at other addresses than the free blocks
  have away : ∀ {b : Block}, b ∈ h.chain → b.isFree = true → ∀ q, Live h q → b.addr ≠ q.addr := by
    intro b also isFree q live same
    have notFree := (sound.live_at also live same).1.taken
    rw [isFree] at notFree
    cases notFree
  obtain ⟨poisoned, isPoisoned⟩ :
    ∃ p, (h.poisoned block.flags (block.addr + headerSize) block.size).updateMemoryStats block.size
    false = p :=
    ⟨_, rfl⟩
  have sameFree : poisoned.free = h.free := by simp [← isPoisoned]
  have sameCached : poisoned.cached = h.cached := by simp [← isPoisoned]
  have sameExt : poisoned.ext = h.ext := by simp [← isPoisoned]
  have usage : poisoned.currentUsage = h.currentUsage - block.size := by simp [← isPoisoned]
  have mem : ∀ x, ¬ (block.addr + 88 ≤ x ∧ x < block.addr + 88 + block.size) →
    poisoned.mem x = h.mem x := by
    intro x outside
    rw [← isPoisoned, updateMemoryStats_mem]
    exact poisoned_mem outside
  unfold freeBlock
  simp only [isPoisoned]
  rcases isIndex : poisoned.cacheIndex block with _ | index
  · obtain ⟨merged, rest, free', isForward⟩ : ∃ merged rest free', mergeForward { block with isFree := true, flags := 0, allocId := 0 } after
        poisoned.free = (merged, rest, free') := ⟨_, _, _, rfl⟩
    obtain ⟨chain, free'', isBackward⟩ :
      ∃ chain free'', mergeBackward before merged rest free' = (chain, free'') := ⟨_, _, rfl⟩
    simp only [isForward, isBackward]
    rw [sameFree] at isForward
    obtain ⟨behind, rfl, behindFree, isAddr, isFree, spanForward, distinct, listForward⟩ :=
      mergeForward_spec sound.freeNodup isForward
    have apart := (isChain ▸ sound.contiguous).parts
    have listed : ∀ b ∈ before, b.isFree = true → b.addr ∈ free' := by
      intro b inBefore isFree
      refine (listForward _).mpr ⟨(sound.free _).mpr ⟨b, isChain ▸ List.mem_append_left _ inBefore, rfl, isFree⟩, fun other inBehind => ?_⟩
      have low := apart.1 b inBefore
      have high := apart.2 other (List.mem_append_left _ inBehind)
      omega
    have unlisted' : merged.addr ∉ free' := fun on => unlisted (isAddr ▸ ((listForward _).mp on).1)
    obtain ⟨first, ahead, whole, rfl, rfl, wholeFree, aheadFree, spanBackward, distinct',
      listBackward⟩ :=
      mergeBackward_spec distinct unlisted' listed isFree isBackward
    have inChain : ∀ {b : Block}, b ∈ ahead ++ block :: behind → b ∈ h.chain := by
      intro b inMiddle
      rw [isChain]
      simp only [List.mem_append, List.mem_cons] at inMiddle ⊢
      tauto
    have rewrite : Rewrite h { poisoned with chain := first ++ whole :: rest, free := free'' }
        first (ahead ++ block :: behind) [whole] rest fun _ _ => False := by
      refine ⟨by simpa using isChain, by simp, fun low high contiguous => ?_, sameExt, distinct', fun a => ?_,
        fun i => by simpa [sameCached] using sound.cachedNodup i, fun i a => ?_, fun _ _ no => no.elim⟩
      · obtain ⟨middle, one, two⟩ := contiguous_append.mp contiguous
        exact spanBackward low high (contiguous_append.mpr ⟨middle, one, spanForward middle high two⟩)
      · have isWhole : (∃ b ∈ [whole], b.addr = a ∧ b.isFree = true) ↔ whole.addr = a := by simp [wholeFree]
        rw [isWhole]
        simp only [listBackward, listForward, List.mem_append, List.mem_cons]
        constructor
        · rintro (rfl | ⟨on, notBehind⟩)
          · exact .inl rfl
          · by_cases same : whole.addr = a
            · exact .inl same
            · refine .inr ⟨on, ?_⟩
              rintro b (isAhead | rfl | isBehind) rfl
              · exact same (aheadFree b isAhead).2.symm
              · exact unlisted on
              · exact notBehind b isBehind rfl
        · rintro (rfl | ⟨on, notMiddle⟩)
          · exact .inl rfl
          · exact .inr ⟨on, fun b isBehind => notMiddle b (.inr (.inr isBehind))⟩
      · simp only [sameCached, false_or]
        refine ⟨fun on => ⟨on, fun b inMiddle => ?_⟩, And.left⟩
        rintro rfl
        simp only [List.mem_append, List.mem_cons] at inMiddle
        rcases inMiddle with isAhead | rfl | isBehind
        · exact sound.free_uncached (inChain (List.mem_append_left _ isAhead)) (aheadFree b isAhead).1 i on
        · exact uncached i on
        · exact sound.free_uncached (inChain (List.mem_append_right _ (List.mem_cons_of_mem _ isBehind))) (behindFree b isBehind) i on
    refine ⟨rewrite.sound sound, fun q => ?_, usage, mem⟩
    rw [rewrite.live sound]
    simp only [List.mem_singleton, exists_eq_left, wholeFree, Bool.true_eq_false, false_and,
      false_or]
    refine and_congr_right fun live =>
      ⟨fun notMiddle same => notMiddle block ?_ same.symm, fun differs b inMiddle => ?_⟩
    · exact List.mem_append_right _ List.mem_cons_self
    · rcases List.mem_append.mp inMiddle with isAhead | later
      · exact away (inChain inMiddle) (aheadFree b isAhead).1 q live
      · rcases List.mem_cons.mp later with rfl | isBehind
        · exact fun same => differs same.symm
        · exact away (inChain inMiddle) (behindFree b isBehind) q live
  · have isSize := cacheIndex_size isIndex
    have rewrite : Rewrite h { poisoned with
        chain := before ++ { block with isFree := false, flags := flagSmallCache, allocId := 0 } :: after
        cached := Function.update poisoned.cached index (block.addr :: poisoned.cached index) }
        before [block] [{ block with isFree := false, flags := flagSmallCache, allocId := 0 }] after
        fun i a => i = index ∧ a = block.addr := by
      refine ⟨isChain, by simp, fun _ _ contiguous => contiguous, sameExt, by simpa [sameFree] using sound.freeNodup, fun a => ?_,
        fun i => ?_, fun i a => ?_, ?_⟩
      · simp only [sameFree, List.mem_singleton, exists_eq_left, Bool.false_eq_true, and_false, false_or, forall_eq]
        refine ⟨fun on => ⟨on, ?_⟩, And.left⟩
        rintro rfl
        exact unlisted on
      · simp only [sameCached]
        by_cases same : i = index
        · subst same
          rw [Function.update_self]
          exact List.nodup_cons.mpr ⟨uncached i, sound.cachedNodup i⟩
        · rw [Function.update_of_ne same]
          exact sound.cachedNodup i
      · simp only [sameCached, List.forall_mem_singleton]
        by_cases same : i = index
        · subst same
          rw [Function.update_self, List.mem_cons]
          refine or_congr (by simp) ⟨fun on => ⟨on, ?_⟩, And.left⟩
          rintro rfl
          exact uncached i on
        · rw [Function.update_of_ne same]
          refine ⟨fun on => .inr ⟨on, ?_⟩, fun either => (either.resolve_left fun new => same new.1).1⟩
          rintro rfl
          exact uncached i on
      · rintro _ _ ⟨rfl, rfl⟩
        exact ⟨_, List.mem_singleton_self _, rfl, rfl, isSize⟩
    refine ⟨rewrite.sound sound, fun q => ?_, usage, mem⟩
    rw [rewrite.live sound]
    rw [List.forall_mem_singleton]
    simp only [List.mem_singleton, exists_eq_left, true_and]
    refine ⟨fun either => ?_, fun ⟨live, differs⟩ => .inr ⟨live, differs.symm⟩⟩
    rcases either with ⟨notAdded, -⟩ | ⟨live, differs⟩
    · exact (notAdded index ⟨rfl, trivial⟩).elim
    · exact ⟨live, differs.symm⟩

theorem freeExt_spec (sound : Sound P h) {e : ExtBlock} (member : e ∈ h.ext) :
    Released P h (h.freeExt e) ⟨e.base, e.size, e.flags⟩ := by
  obtain ⟨poisoned, isPoisoned⟩ :
    ∃ p, (h.poisoned e.flags (e.base + headerSize) e.size).updateMemoryStats e.size false = p :=
    ⟨_, rfl⟩
  have sameChain : poisoned.chain = h.chain := by simp [← isPoisoned]
  have sameFree : poisoned.free = h.free := by simp [← isPoisoned]
  have sameCached : poisoned.cached = h.cached := by simp [← isPoisoned]
  have sameExt : poisoned.ext = h.ext := by simp [← isPoisoned]
  have usage : poisoned.currentUsage = h.currentUsage - e.size := by simp [← isPoisoned]
  unfold freeExt
  simp only [isPoisoned]
  have left : ∀ {f}, f ∈ poisoned.ext.filter (fun other => other.base ≠ e.base) ↔
    f ∈ h.ext ∧ f.base ≠ e.base := by
    intro f
    rw [sameExt, List.mem_filter, decide_eq_true_eq]
  refine ⟨?_, fun q => ?_, usage, fun x outside => ?_⟩
  · refine ⟨by simpa [sameChain] using sound.contiguous, by simpa [sameFree] using sound.freeNodup,
      by simpa [sameChain, sameFree] using sound.free, by simpa [sameCached] using sound.cachedNodup,
      by simpa [sameChain, sameCached] using sound.cached, fun f on => sound.extSize f (left.mp on).1,
      fun f on => sound.extOutside f (left.mp on).1, ?_⟩
    simp only [sameExt]
    exact sound.extApart.filter _
  · constructor
    · rintro (⟨isMember, taken, uncached⟩ | isMember)
      · simp only [sameChain] at isMember
        simp only [sameCached] at uncached
        refine ⟨.main ⟨isMember, taken, uncached⟩, fun same => ?_⟩
        have within := sound.contiguous.inside isMember
        have outside := sound.extOutside e member
        have size := (sound.extSize e member).1
        simp only at same
        omega
      · exact ⟨.ext (left.mp isMember).1, (left.mp isMember).2⟩
    · rintro ⟨⟨isMember, taken, uncached⟩ | isMember, differs⟩
      · exact .main ⟨by simpa only [sameChain] using isMember, taken, by simpa only [sameCached] using uncached⟩
      · exact .ext (left.mpr ⟨isMember, differs⟩)
  · rw [← isPoisoned, updateMemoryStats_mem]
    exact poisoned_mem outside

theorem headerOf_eq (low : 88 ≤ ptr) (high : ptr < 2 ^ 64 + 88) : headerOf ptr = ptr - 88 := by
  unfold headerOf headerSize
  omega

theorem ext_base_lt (sound : Sound P h) {e : ExtBlock} (member : e ∈ h.ext) :
    e.base + e.size + 88 ≤ 2 ^ 64 := by
  obtain ⟨size, -, top⟩ := sound.extSize e member
  omega

theorem cosExtFindBlock_ext (sound : Sound P h) {e : ExtBlock} (member : e ∈ h.ext) :
    h.cosExtFindBlock (e.base + 88) = some e := by
  have top := ext_base_lt sound member
  unfold cosExtFindBlock
  rw [if_neg (by omega), headerOf_eq (by omega) (by omega), Nat.add_sub_cancel]
  rcases isFound : h.ext.find? (fun f => f.base = e.base) with _ | f
  · have missing := List.find?_eq_none.mp isFound e member
    simp at missing
  · have isBase := List.find?_some isFound
    have also := List.mem_of_find?_eq_some isFound
    rw [decide_eq_true_eq] at isBase
    obtain same | apart := sound.ext_apart member also
    · exact isFound.trans (congrArg some same.symm)
    · have size := (sound.extSize e member).1
      have size' := (sound.extSize f also).1
      omega

theorem cosExtFindBlock_none (low : 88 ≤ ptr) (high : ptr < 2 ^ 64 + 88)
    (away : ∀ e ∈ h.ext, e.base ≠ ptr - 88) : h.cosExtFindBlock ptr = none := by
  unfold cosExtFindBlock
  rw [headerOf_eq low high]
  split
  · rfl
  · refine List.find?_eq_none.mpr fun e member => ?_
    rw [decide_eq_true_eq]
    exact away e member

theorem validateBlock_block (sound : Sound P h) (member : block ∈ h.chain) :
    ∃ before after, h.chain = before ++ block :: after ∧
    h.validateBlock P block.addr = .block before block after := by
  obtain ⟨before, after, isLocated, isChain⟩ := sound.contiguous.locate member
  have within := sound.contiguous.inside member
  refine ⟨before, after, isChain, ?_⟩
  rw [validateBlock, if_pos ⟨within.1, by simp only [headerSize]; omega⟩, isLocated]

theorem calculateChecksum_ge (m : Memory) (addr : Nat) : 0xAAAA8000 ≤ calculateChecksum m addr := by
  have small : ((List.range 80).map fun i => (m (addr + i)).toNat).sum ≤ 80 * 255 := by
    refine Nat.le_trans (List.sum_le_card_nsmul _ 255 ?_) (by simp)
    intro x isByte
    obtain ⟨i, -, rfl⟩ := List.mem_map.mp isByte
    exact Nat.le_of_lt_succ (UInt8.toNat_lt _)
  unfold calculateChecksum
  obtain ⟨sum, isSum⟩ : ∃ sum, ((List.range 80).map fun i => (m (addr + i)).toNat).sum = sum :=
    ⟨_, rfl⟩
  rw [isSum] at small ⊢
  -- the bits from the fifteenth on are those of the mask
  have high : (sum ^^^ 0xAAAAAAAA) >>> 15 = 0x15555 := by
    rw [Nat.shiftRight_xor_distrib, Nat.shiftRight_eq_div_pow sum, Nat.div_eq_of_lt (by omega)]
    rfl
  omega

theorem not_looksValid {m : Memory} {addr : Nat} (low : loadWord m (addr + 80) 8 < 0xAAAA8000) :
    ¬ LooksValid m addr := by
  rintro ⟨-, -, isSum⟩
  have := calculateChecksum_ge m addr
  omega

theorem find_user (sound : Sound P h) (member : block ∈ h.chain) :
    h.cosExtFindBlock (block.addr + 88) = none ∧
    ∃ before after, h.chain = before ++ block :: after ∧
    h.findBlockFromUserPtr P (block.addr + 88) = .block before block after := by
  have low := P.low
  have within := sound.contiguous.inside member
  obtain ⟨before, after, isChain, isValid⟩ := validateBlock_block sound member
  refine ⟨cosExtFindBlock_none (by omega) (by omega) fun e isExt same => ?_, before, after, isChain,
    ?_⟩
  · have outside := sound.extOutside e isExt
    have size := (sound.extSize e isExt).1
    omega
  · rw [findBlockFromUserPtr, if_neg (by omega), headerOf_eq (by omega) (by omega),
      Nat.add_sub_cancel, isValid]

/-- A pointer into the payload of a block of the chain, with the address of the payload in the word
before it, finds the block, but not from the very end of the array. -/
theorem find_aligned (sound : Sound P h) (member : block ∈ h.chain) (low : block.addr + 96 ≤ ptr)
    (high : ptr ≤ block.addr + 88 + block.size)
      (raw : loadWord h.mem (ptr - 8) 8 = block.addr + 88) : h.cosExtFindBlock ptr = none ∧ ((ptr = P.start + P.limit ∧ h.findBlockFromUserPtr P ptr = .none) ∨
        ptr ≠ P.start + P.limit ∧ ∃ before after, h.chain = before ++ block :: after ∧ h.findBlockFromUserPtr P ptr = .block before block after) := by
  have placed := P.low
  have within := sound.contiguous.inside member
  obtain ⟨before, after, isChain, isValid⟩ := validateBlock_block sound member
  refine ⟨cosExtFindBlock_none (by omega) (by omega) fun e isExt same => ?_, ?_⟩
  · have outside := sound.extOutside e isExt
    omega
  -- no header lies right before the pointer, and what does is not taken for one
  have noHeader : h.validateBlock P (ptr - 88) = .none := by
    unfold validateBlock
    split
    · rcases isLocated : locate (ptr - 88) h.chain with _ | ⟨before', found, after'⟩
      · have isRaw : loadWord h.mem (ptr - 88 + 80) 8 = block.addr + 88 := by
          rw [show ptr - 88 + 80 = ptr - 8 by omega]
          exact raw
        exact if_neg (not_looksValid (by omega))
      · obtain ⟨isChain', isAddr⟩ := locate_some isLocated
        obtain rfl | apart := sound.contiguous.apart member (isChain' ▸ List.mem_append_right _ List.mem_cons_self)
        · omega
        · omega
    · rfl
  unfold findBlockFromUserPtr
  rw [if_neg (by omega), headerOf_eq (by omega) (by omega), noHeader]
  by_cases atEnd : ptr = P.start + P.limit
  · exact .inl ⟨atEnd, if_neg (by omega)⟩
  · refine .inr ⟨atEnd, before, after, isChain, ?_⟩
    rw [if_pos ⟨by omega, by omega⟩, raw, if_neg (by omega), headerOf_eq (by omega) (by omega),
      Nat.add_sub_cancel, isValid]

theorem find_aligned_ext (sound : Sound P h) {e : ExtBlock} (member : e ∈ h.ext)
    (low : e.base + 96 ≤ ptr) (high : ptr ≤ e.base + 88 + e.size) :
    h.cosExtFindBlock ptr = none ∧ h.findBlockFromUserPtr P ptr = .none := by
  have top := ext_base_lt sound member
  have outside := sound.extOutside e member
  have size := (sound.extSize e member).1
  refine ⟨cosExtFindBlock_none (by omega) (by omega) fun f isExt same => ?_, ?_⟩
  · obtain rfl | apart := sound.ext_apart member isExt
    · omega
    · omega
  · unfold findBlockFromUserPtr validateBlock
    rw [if_neg (by omega), headerOf_eq (by omega) (by omega), if_neg (by omega)]
    exact if_neg (by omega)

end Cos.Kheap
