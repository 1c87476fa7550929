import Cos.Paging.CloneRange

/-! # Taking clones back

When `paging_clone_user_range` fails it unmaps as many pages from the start of the range as
it has mapped, whichever pages these were.
-/

namespace Cos.Paging

open SpaceState CloneState

variable {offer frame : Nat → U64} {state later : CloneState} {dst src start size virt page : U64}
  {frames : Nat → U64}
variable {first count index last : Nat}

theorem lowBits_none (address : U64) (bits : Nat) (small : bits ≤ 64) :
    address &&& BitVec.ofNat 64 (2 ^ bits - 1) = 0#64 ↔ address.toNat % 2 ^ bits = 0 := by
  have down := toNat_and_not_mask address bits small
  obtain ⟨mask, isMask⟩ : ∃ mask, BitVec.ofNat 64 (2 ^ bits - 1) = mask := ⟨_, rfl⟩
  rw [isMask] at down ⊢
  have parts : address &&& mask ||| address &&& ~~~mask = address := by
    rw [← BitVec.and_or_distrib_left, BitVec.or_not_self, BitVec.and_allOnes]
  refine ⟨fun none => ?_, fun whole => ?_⟩
  · rw [none, BitVec.zero_or] at parts
    rw [parts] at down
    exact Nat.mod_eq_zero_of_dvd (Dvd.intro_left _ down.symm)
  · have same : address &&& ~~~mask = address := by
      refine BitVec.eq_of_toNat_eq ?_
      rw [down]
      exact Nat.div_mul_cancel (Nat.dvd_of_mod_eq_zero whole)
    rw [← same, BitVec.and_assoc, BitVec.not_and_self]
    exact BitVec.and_zero

theorem pageAt_offset (aligned : start.toNat % 4096 = 0) (index : Nat) :
    pageAt start index &&& pageOffsetMask = 0#64 := by
  refine (lowBits_none (pageAt start index) 12 (by decide)).mpr ?_
  rw [pageAt_toNat]
  omega

theorem cloned_translates (aligned : start.toNat % 4096 = 0) (isPage : PageAddress page) :
    leafPhys (pageAt start index) (some (false, pageEntry page cloneFlags)) = page := by
  have flags : (cloneFlags ||| fPresent) &&& fAddrMask = 0#64 := by decide
  have masks : ~~~pageOffsetMask &&& fAddrMask = fAddrMask := by decide
  rw [leafPhys, pageAt_offset aligned, BitVec.or_zero, pageEntry, pageDown,
    BitVec.and_or_distrib_right, flags, BitVec.or_zero, BitVec.and_assoc page, masks, isPage.2,
    isPage.2]

theorem rollbackPage_space (active : state.space.pagingRoot = dst)
    (trees : TreesSound state.space [dst])
    (small : ∀ entry, state.space.leafAt dst virt ≠ some (true, entry)) :
    state.rollbackPage virt = state ∨
    Unmapped offer dst virt 4 state.space (state.rollbackPage virt).space := by
  rw [rollbackPage]
  split
  · have spec := @pagingUnmapPage_spec offer state.space virt (by rw [active]; exact trees)
      (by rw [active]; exact small)
    rw [active] at spec
    exact .inr spec
  · exact .inl rfl

theorem rollback_keeps (active : state.space.pagingRoot = dst)
    (trees : TreesSound state.space [dst])
    (small : ∀ index, first ≤ index → index < first + count →
    ∀ entry, state.space.leafAt dst (pageAt start index) ≠
      some (true, entry)) : (rollback start first count state).space.pagingRoot = dst ∧
      ∀ address, (∀ index, first ≤ index → index < first + count → ¬ SamePath 4 (pageAt start index) address) →
        (rollback start first count state).space.leafAt dst address = state.space.leafAt dst address := by
  induction count generalizing first state with
  | zero => exact ⟨active, fun _ _ => rfl⟩
  | succ count ih =>
      rw [rollback]
      obtain same | unmapped := @rollbackPage_space (fun _ => 0#64) state dst (pageAt start first)
        active trees (small first (Nat.le_refl _) (by omega))
      · rw [same]
        obtain ⟨active', keeps⟩ := @ih state (first + 1) active trees fun index le lt => small index (by omega) (by omega)
        exact ⟨active', fun address away => keeps address fun index le lt => away index (by omega) (by omega)⟩
      · have small' : ∀ index, first + 1 ≤ index → index < first + 1 + count → ∀ entry,
            (state.rollbackPage (pageAt start first)).space.leafAt dst (pageAt start index) ≠ some (true, entry) := by
          intro index le lt entry
          by_cases here : SamePath 4 (pageAt start first) (pageAt start index)
          · rw [unmapped.leaf _ here]
            exact nofun
          · rw [unmapped.others _ here]
            exact small index (by omega) (by omega) entry
        obtain ⟨active', keeps⟩ := ih (unmapped.only.sameRoot.trans active) unmapped.trees small'
        refine ⟨active', fun address away => (keeps address fun index le lt => away index (by omega) (by omega)).trans ?_⟩
        exact unmapped.others address (away first (Nat.le_refl _) (by omega))

structure RolledBack (dst start : U64) (frames : Nat → U64) (first count : Nat)
    (state later : CloneState) : Prop where
  active : later.space.pagingRoot = dst
  kernelPml4 : later.space.kernelPml4 = state.space.kernelPml4
  others : ∀ address, (∀ index, first ≤ index → index < first + count →
    ¬ SamePath 4 (pageAt start index) address) →
    later.space.leafAt dst address = state.space.leafAt dst address
  gone : ∀ index, first ≤ index → index < first + count →
    ∀ address, SamePath 4 (pageAt start index) address → later.space.leafAt dst address = none
  held : ∀ page, later.held page = true → state.held page = true ∧ ∀ index, first ≤ index →
    index < first + count → frames index ≠ page

theorem rollback_spec (active : state.space.pagingRoot = dst) (trees : TreesSound state.space [dst])
    (aligned : start.toNat % 4096 = 0)
      (clones : ∀ index, first ≤ index → index < first + count → PageAddress (frames index) ∧
      ∀ address, SamePath 4 (pageAt start index) address →
        state.space.leafAt dst address = some (false, pageEntry (frames index) cloneFlags))
    (apart : ∀ one two, first ≤ one → one < two → two < first + count →
    ¬ SamePath 4 (pageAt start one) (pageAt start two)) :
    RolledBack dst start frames first count state (rollback start first count state) := by
  induction count generalizing first state with
  | zero => exact ⟨active, rfl, fun _ _ => rfl, fun _ le lt => absurd lt (by omega),
    fun _ isHeld => ⟨isHeld, fun _ le lt => absurd lt (by omega)⟩⟩
  | succ count ih =>
      obtain ⟨isPage, leaf⟩ := clones first (Nat.le_refl _) (by omega)
      have here := leaf _ (SamePath.refl 4 (pageAt start first))
      -- the page is mapped at its frame, which is freed
      have phys : state.space.pagingVirtToPhys (pageAt start first) = frames first := by
        rw [pagingVirtToPhys, active, virtToPhys_leaf (trees.rooted (List.mem_singleton_self dst)), here]
        exact cloned_translates aligned isPage
      have isRound : state.rollbackPage (pageAt start first) =
          { state with space := state.space.pagingUnmapPage (pageAt start first) }.pagingFreePhysical (frames first) := by
        rw [rollbackPage]
        simp only [phys]
        exact if_pos isPage.1
      have unmapped := @pagingUnmapPage_spec (fun _ => 0#64) state.space (pageAt start first)
        (by rw [active]; exact trees) fun entry isHuge => by
          rw [active, here] at isHuge
          cases isHuge
      rw [active] at unmapped
      rw [rollback, isRound]
      have rest := @ih ({ state with space := state.space.pagingUnmapPage (pageAt start first) }.pagingFreePhysical (frames first)) (first + 1)
        (unmapped.only.sameRoot.trans active) unmapped.trees (fun index le lt => ?_) fun one two le less lt => apart one two (by omega) less (by omega)
      · refine ⟨rest.active, rest.kernelPml4.trans unmapped.only.kernelPml4, fun address away => ?_,
          fun index le lt address same => ?_, fun page isHeld => ?_⟩
        · rw [rest.others address fun index le lt => away index (by omega) (by omega)]
          exact unmapped.others address (away first (Nat.le_refl _) (by omega))
        · by_cases later' : ∃ other, first + 1 ≤ other ∧ other < first + 1 + count ∧ SamePath 4 (pageAt start other) address
          · obtain ⟨other, le', lt', same'⟩ := later'
            exact rest.gone other le' lt' address same'
          · rw [rest.others address fun other le' lt' same' => later' ⟨other, le', lt', same'⟩]
            obtain rfl | after := Nat.eq_or_lt_of_le le
            · exact unmapped.leaf address same
            · exact absurd ⟨index, after, by omega, same⟩ later'
        · obtain ⟨before, apart'⟩ := rest.held page isHeld
          have before : Function.update state.held (frames first) false page = true := before
          rw [Function.update_apply] at before
          split at before
          · cases before
          · next differs =>
            refine ⟨before, fun index le lt => ?_⟩
            obtain rfl | after := Nat.eq_or_lt_of_le le
            · exact fun same => differs same.symm
            · exact apart' index after (by omega)
      · obtain ⟨isPage', leaf'⟩ := clones index (by omega) (by omega)
        refine ⟨isPage', fun address same => ?_⟩
        refine (unmapped.others address fun same' => ?_).trans (leaf' address same)
        exact apart first index (Nat.le_refl _) (by omega) (by omega) fun above lower => (same' above lower).trans (same above lower).symm

variable {p : Nat → Prop} [DecidablePred p]

theorem count_of_prefix (whole : ∀ one two, one < two → two < last → p two → p one) :
    ∀ index < last, p index ↔ index < Nat.count p last := by
  induction last with
  | zero => exact fun _ lt => absurd lt (Nat.not_lt_zero _)
  | succ last ih =>
      have before := ih fun one two less lt => whole one two less (Nat.lt_succ_of_lt lt)
      have bound := Nat.count_le (p := p) (n := last)
      intro index lt
      rw [Nat.count_succ]
      split
      · next here =>
        have all : Nat.count p last = last := by
          by_contra fewer
          have less : Nat.count p last < last := by omega
          exact absurd ((before _ less).mp (whole _ last less (Nat.lt_succ_self _) here)) (Nat.lt_irrefl _)
        rw [all]
        exact ⟨fun _ => lt, fun _ => by
          obtain less | rfl := Nat.lt_succ_iff_lt_or_eq.mp lt
          · exact whole index last less (Nat.lt_succ_self _) here
          · exact here⟩
      · next hole =>
        obtain less | rfl := Nat.lt_succ_iff_lt_or_eq.mp lt
        · exact before index less
        · exact ⟨fun here => absurd here hole, fun fewer => absurd fewer (by omega)⟩

theorem count_of_hole {one two : Nat} (less : one < two) (lt : two < last) (hole : ¬ p one)
    (here : p two) : ∃ index < last, Nat.count p last ≤ index ∧ p index := by
  by_contra none
  have within : ∀ index < last, p index → index < Nat.count p last := fun index lt' here' => by
    by_contra past
    exact none ⟨index, lt', by omega, here'⟩
  -- the counted pages are below their number and leave out the hole
  have fewer : Nat.count p (Nat.count p last) < Nat.count p last := by
    have lower := within two lt here
    have split' := Nat.count_add p (one + 1) (Nat.count p last - (one + 1))
    have sum : one + 1 + (Nat.count p last - (one + 1)) = Nat.count p last := by omega
    have upTo : Nat.count p (one + 1) = Nat.count p one := by rw [Nat.count_succ, if_neg hole]; rfl
    have bound := Nat.count_le (p := p) (n := one)
    have bound' := Nat.count_le (p := fun k => p (one + 1 + k)) (n := Nat.count p last - (one + 1))
    rw [sum, upTo] at split'
    omega
  have bound := Nat.count_le (p := p) (n := last)
  have rest : Nat.count (fun k => p (Nat.count p last + k)) (last - Nat.count p last) = 0 := by
    rw [Nat.count_iff_forall_not]
    intro index lt' here'
    have := within (Nat.count p last + index) (by omega) here'
    omega
  have split' := Nat.count_add p (Nat.count p last) (last - Nat.count p last)
  have sum : Nat.count p last + (last - Nat.count p last) = last := by omega
  rw [sum, rest] at split'
  omega

/-- The destination, the frames and the active directory are as they were. -/
structure CloneUndone (dst : U64) (state later : CloneState) : Prop where
  translation : ∀ address, later.space.pagingVirtToPhysInRoot dst address =
    state.space.pagingVirtToPhysInRoot dst address
  freed : ∀ page, later.held page = true → state.held page = true
  active : later.space.pagingRoot = state.space.pagingRoot

/-- Before the page at which the call ends, the source has no page after one that it has not. -/
def NoHoleBefore (offer frame : Nat → U64) (state : CloneState) (dst src start size : U64) : Prop :=
  ∀ one two, one < two → two * 4096 < (state.clonePages offer frame dst src start size).2.1.toNat →
    SourceMaps state.space src (pageStart start) two →
    SourceMaps state.space src (pageStart start) one

def SmallRange (state : CloneState) (dst start size : U64) : Prop :=
  ∀ index, index * 4096 < (wholePages size).toNat →
    ∀ entry, state.space.leafAt dst (pageAt (pageStart start) index) ≠ some (true, entry)

theorem wholeStart (address : U64) : (pageStart address).toNat % 4096 = 0 := by
  show address.toNat / 4096 * 4096 % 18446744073709551616 % 4096 = 0
  omega

theorem wholePages_mod (size : U64) : (wholePages size).toNat % 4096 = 0 :=
  wholeStart (size + 4096#64 - 1#64)

theorem switchTo_space (nonnull : dst ≠ 0#64) :
    (state.switchTo dst).space = { state.space with currentDirectory := dst } := by
  rw [switchTo, pagingSwitchDirectory, if_neg nonnull]

theorem clonePages_ends (nonnull : dst ≠ 0#64) (trees : TreesSound state.space [dst, src]) :
    LoopEnds dst src (pageStart start) (wholePages size) (state.switchTo dst)
    (state.clonePages offer frame dst src start size) := by
  have space := @switchTo_space state dst nonnull
  have cloning : Cloning dst src (pageStart start) 0 0 (fun _ => 0#64) (state.switchTo dst)
    (state.switchTo dst) := by
    obtain ⟨trees', -, -⟩ :=
      @frameWritten state.space (state.switchTo dst).space [dst, src] trees (by rw [space])
      fun _ _ => by rw [space]
    refine ⟨⟨trees'.one List.mem_cons_self, ?_, rfl, fun _ _ => rfl,
      fun _ lt => absurd lt (Nat.not_lt_zero _),
      fun _ _ _ lt => absurd lt (Nat.not_lt_zero _), rfl, fun _ isHeld =>
      .inl isHeld⟩, trees', fun _ => rfl, fun _ isHeld => isHeld⟩
    rw [space]
    exact if_neg nonnull
  exact @cloneLoop_spec offer frame _ _ dst src (pageStart start) _ 0 0 (wholePages size)
    _ (wholePages_mod size) (by omega) cloning

theorem translation_switch (nonnull : dst ≠ 0#64) (root : U64) :
    (state.switchTo dst).space.pagingVirtToPhysInRoot root virt =
    state.space.pagingVirtToPhysInRoot root virt := by
  rw [switchTo_space nonnull]
  rfl

theorem leafAt_switch (nonnull : dst ≠ 0#64) (root : U64) :
    (state.switchTo dst).space.leafAt root virt = state.space.leafAt root virt := by
  rw [switchTo_space nonnull]
  exact leafAt_congr fun _ _ _ _ => rfl

theorem sourceMaps_switch (nonnull : dst ≠ 0#64) :
    SourceMaps (state.switchTo dst).space src start index ↔
    SourceMaps state.space src start index := by
  rw [SourceMaps, SourceMaps, translation_switch nonnull]

theorem translation_samePath (aligned : start.toNat % 4096 = 0) {space : SpaceState} {root : U64}
    (rooted : root ≠ 0#64) {one two : Nat}
    (same : SamePath 4 (pageAt start one) (pageAt start two)) :
    space.pagingVirtToPhysInRoot root (pageAt start two) =
    space.pagingVirtToPhysInRoot root (pageAt start one) := by
  have slot : (idx1 (pageAt start one)).val = (idx1 (pageAt start two)).val :=
    congrArg Fin.val (same 3 (by omega))
  rw [idx1_val, idx1_val] at slot
  have whole : ∀ index, (pageAt start index).toNat % 4096 = 0 := fun index =>
    (lowBits_none (pageAt start index) 12 (by decide)).mp (pageAt_offset aligned index)
  have low : pageAt start two &&& (hugeSize - 1#64) = pageAt start one &&& (hugeSize - 1#64) := by
    refine BitVec.eq_of_toNat_eq ?_
    rw [BitVec.toNat_and, BitVec.toNat_and]
    have mask : (hugeSize - 1#64).toNat = 2 ^ 21 - 1 := by decide
    rw [mask, Nat.and_two_pow_sub_one_eq_mod, Nat.and_two_pow_sub_one_eq_mod]
    have wholeOne := whole one
    have wholeTwo := whole two
    omega
  rw [virtToPhys_leaf rooted, virtToPhys_leaf rooted, leafAt_samePath same]
  obtain - | ⟨_ | _, entry⟩ := space.leafAt root (pageAt start one)
  · rw [leafPhys, leafPhys]
  · rw [leafPhys, leafPhys, pageAt_offset aligned, pageAt_offset aligned]
  · rw [leafPhys, leafPhys, low]

theorem Clones.rollback_undone {began ended : CloneState}
    (clones : Clones dst src start last count frames began ended) (aligned : start.toNat % 4096 = 0)
    (whole : ∀ one two, one < two → two < last → SourceMaps began.space src start two →
    SourceMaps began.space src start one) : (rollback start 0 count ended).space.pagingRoot = dst ∧
      (∀ address, (rollback start 0 count ended).space.leafAt dst address =
      began.space.leafAt dst address) ∧
      ∀ page, (rollback start 0 count ended).held page = true → began.held page = true := by
  -- the clones are the first pages of the range
  have isFirst := count_of_prefix whole
  have few := Nat.count_le (p := SourceMaps began.space src start) (n := last)
  rw [← clones.counted] at isFirst few
  have maps : ∀ index, index < 0 + count →
    SourceMaps began.space src start index ∧ index < last := fun index lt =>
    ⟨(isFirst index (by omega)).mpr (by omega), by omega⟩
  have back := rollback_spec clones.active clones.treesDst aligned
    (fun index _ lt => by
      obtain ⟨isPage, -, cloned⟩ := clones.cloned index (maps index lt).2 (maps index lt).1
      exact ⟨isPage, fun address same => (cloned address same).2⟩)
    fun one two _ less lt =>
    clones.apart one two less (maps two lt).2 (maps one (by omega)).1 (maps two lt).1
  refine ⟨back.active, fun address => ?_, fun page isHeld => ?_⟩
  · by_cases isClone : ∃ index < count, SamePath 4 (pageAt start index) address
    · obtain ⟨index, lt, same⟩ := isClone
      rw [back.gone index (Nat.zero_le _) (by omega) address same]
      exact (((clones.cloned index (maps index (by omega)).2 (maps index (by omega)).1).2.2 address same).1).symm
    · rw [back.others address fun index _ lt same => isClone ⟨index, by omega, same⟩]
      exact clones.others address fun index lt here same => isClone ⟨index, (isFirst index lt).mp here, same⟩
  · obtain ⟨wasHeld, notClone⟩ := back.held page isHeld
    obtain before | ⟨index, lt, here, isFrame⟩ := clones.held page wasHeld
    · exact before
    · have := (isFirst index lt).mp here
      exact absurd isFrame (notClone index (Nat.zero_le _) (by omega))

theorem Clones.rollback_left {began ended : CloneState}
    (clones : Clones dst src start last count frames began ended) (rooted : src ≠ 0#64)
    (aligned : start.toNat % 4096 = 0)
    (small : ∀ index < last, ∀ entry, began.space.leafAt dst (pageAt start index) ≠
    some (true, entry)) :
    (rollback start 0 count ended).space.pagingRoot = dst ∧ ∀ one two, one < two → two < last →
      ¬ SourceMaps began.space src start one →
      SourceMaps began.space src start two → ∃ address, (rollback start 0 count ended).space.pagingVirtToPhysInRoot dst address ≠
        began.space.pagingVirtToPhysInRoot dst address := by
  have few := Nat.count_le (p := SourceMaps began.space src start) (n := last)
  rw [← clones.counted] at few
  have dstRooted := clones.treesDst.rooted (List.mem_singleton_self dst)
  obtain ⟨active, keeps⟩ :=
    @rollback_keeps ended dst start 0 count clones.active clones.treesDst fun index _ lt entry => by
    by_cases isClone : ∃ other < last, SourceMaps began.space src start other ∧
      SamePath 4 (pageAt start other) (pageAt start index)
    · obtain ⟨other, lt', here, same⟩ := isClone
      rw [((clones.cloned other lt' here).2.2 _ same).2]
      exact nofun
    · rw [clones.others _ fun other lt' here same => isClone ⟨other, lt', here, same⟩]
      exact small index (by omega) entry
  refine ⟨active, fun one two less lt hole here => ?_⟩
  obtain ⟨index, lt', past, maps⟩ := count_of_hole less lt hole here
  rw [← clones.counted] at past
  obtain ⟨isPage, -, cloned⟩ := clones.cloned index lt' maps
  obtain ⟨before, now⟩ := cloned _ (SamePath.refl 4 (pageAt start index))
  refine ⟨pageAt start index, ?_⟩
  rw [virtToPhys_leaf dstRooted, virtToPhys_leaf dstRooted, before,
    keeps _ fun other _ lt'' same => ?_, now, cloned_translates aligned isPage]
  · exact isPage.1
  · by_cases also : SourceMaps began.space src start other
    · exact clones.apart other index (by omega) lt' also maps same
    · refine also ?_
      rw [SourceMaps, ← translation_samePath aligned rooted same]
      exact maps

/-- A failed call takes everything back exactly when paging is set up and the clones are the first
pages of the range. -/
theorem clone_rollback_iff (trees : dst ≠ 0#64 → src ≠ 0#64 → TreesSound state.space [dst, src])
    (fails : (state.pagingCloneUserRange offer frame dst src start size).2 = false) :
    ((dst = 0#64 ∨ src = 0#64 ∨
      state.space.pagingRoot ≠ 0#64 ∧ NoHoleBefore offer frame state dst src start size) →
      CloneUndone dst state (state.pagingCloneUserRange offer frame dst src start size).1) ∧
    (SmallRange state dst start size →
      (CloneUndone dst state (state.pagingCloneUserRange offer frame dst src start size).1 ↔
        dst = 0#64 ∨ src = 0#64 ∨ state.space.pagingRoot ≠ 0#64 ∧ NoHoleBefore offer frame state dst src start size)) := by
  rw [pagingCloneUserRange] at fails ⊢
  by_cases missing : dst = 0#64 ∨ src = 0#64
  · rw [if_pos missing]
    have undone : CloneUndone dst state state := ⟨fun _ => rfl, fun _ isHeld => isHeld, rfl⟩
    exact ⟨fun _ => undone, fun _ => ⟨fun _ => missing.imp_right .inl, fun _ => undone⟩⟩
  rw [if_neg missing] at fails ⊢
  have nonnull : dst ≠ 0#64 := fun isNull => missing (.inl isNull)
  have rooted : src ≠ 0#64 := fun isNull => missing (.inr isNull)
  have only : (dst = 0#64 ∨ src = 0#64 ∨ state.space.pagingRoot ≠ 0#64 ∧
      NoHoleBefore offer frame state dst src start size) ↔
      state.space.pagingRoot ≠ 0#64 ∧ NoHoleBefore offer frame state dst src start size :=
    ⟨fun either => (either.resolve_left nonnull).resolve_left rooted, fun both => .inr (.inr both)⟩
  rw [only, NoHoleBefore]
  obtain ⟨last, frames, reached, within, clones⟩ :=
    @clonePages_ends offer frame state dst src start size nonnull (trees nonnull rooted)
  have reachedNat : (state.clonePages offer frame dst src start size).2.1.toNat = last * 4096 := by
    rw [reached, BitVec.toNat_ofNat]
    exact Nat.mod_eq_of_lt (Nat.lt_of_le_of_lt within (wholePages size).isLt)
  have upTo : ∀ index, index * 4096 < (state.clonePages offer frame dst src start size).2.1.toNat ↔
    index < last := fun index => by
    rw [reachedNat]
    exact Nat.mul_lt_mul_right (by decide)
  simp only [upTo]
  rcases isLoop : state.clonePages offer frame dst src start size with ⟨ended, off, count, ok⟩
  rw [isLoop] at clones fails
  have notOk : ok = false := fails
  subst notOk
  rw [if_neg Bool.false_ne_true]
  have aligned := wholeStart start
  obtain ⟨back, isBack⟩ : ∃ back, rollback (pageStart start) 0 count ended = back := ⟨_, rfl⟩
  have undone := clones.rollback_undone aligned
  have left := fun small => clones.rollback_left rooted aligned small
  simp only [sourceMaps_switch nonnull, leafAt_switch nonnull, translation_switch nonnull,
    isBack] at undone left ⊢
  have enough : (state.space.pagingRoot ≠ 0#64 ∧ ∀ one two, one < two → two < last →
      SourceMaps state.space src (pageStart start) two →
      SourceMaps state.space src (pageStart start) one) →
      CloneUndone dst state
      (if state.space.pagingRoot ≠ 0#64 then back.switchTo state.space.pagingRoot else back) := by
    rintro ⟨isRooted, whole⟩
    obtain ⟨-, leaves, held⟩ := undone whole
    rw [if_pos isRooted]
    refine ⟨fun address => ?_, held, ?_⟩
    · rw [translation_switch isRooted, virtToPhys_leaf nonnull, virtToPhys_leaf nonnull, leaves]
    · rw [switchTo_space isRooted]
      exact if_neg isRooted
  refine ⟨enough, fun small => ⟨fun isUndone => ?_, enough⟩⟩
  obtain ⟨active, changed⟩ := left fun index lt entry =>
    small index (Nat.lt_of_lt_of_le (Nat.mul_lt_mul_of_pos_right lt (by decide)) within) entry
  have isRooted : state.space.pagingRoot ≠ 0#64 := by
    intro isNull
    have same := isUndone.active
    rw [if_neg (not_not_intro isNull), active, isNull] at same
    exact nonnull same
  refine ⟨isRooted, fun one two less lt here => ?_⟩
  by_contra hole
  obtain ⟨address, differs⟩ := changed one two less lt hole here
  have same := isUndone.translation address
  rw [if_pos isRooted, translation_switch isRooted] at same
  exact differs same

def emptyRoots (roots : List U64) (active : U64) : SpaceState where
  mem := fun _ _ => 0#64
  level := fun page => if page ∈ roots then 4 else 0
  tick := 0
  kernelPml4 := active
  currentDirectory := 0#64
  dirs := roots

theorem emptyRoots_trees {active : U64} {roots : List U64}
    (pages : ∀ root ∈ roots, PageAddress root) : TreesSound (emptyRoots roots active) roots := by
  have short : ∀ root virt depth table, (emptyRoots roots active).walk root virt depth =
    some table → depth = 0 ∧ table = root := by
    intro root virt depth table found
    cases depth with
    | zero => exact ⟨rfl, (Option.some.inj found).symm⟩
    | succ depth =>
        have ended : (emptyRoots roots active).walk root virt 1 = none := by
          rw [walk, walk, Option.bind_some]
          exact descend_zero 0
        rw [walk_none_mono ended (by omega)] at found
        cases found
  refine ⟨fun root live virt depth table _ found => ?_,
    fun root _ root' _ virt virt' depth depth' table _ _ one two => ?_⟩
  · obtain ⟨rfl, rfl⟩ := short root virt depth table found
    refine ⟨?_, pages table live⟩
    have isTop : (emptyRoots roots active).level table = 4 := if_pos live
    omega
  · obtain ⟨rfl, -⟩ := short root virt depth table one
    obtain ⟨rfl, -⟩ := short root' virt' depth' table two
    exact ⟨rfl, fun _ lt => absurd lt (Nat.not_lt_zero _)⟩

/-- The heap's answers in the examples: the pages from 0x10000 on. -/
def heapPages (time : Nat) : U64 := BitVec.ofNat 64 ((time + 16) * 0x1000)

def holedSource : SpaceState :=
  ((((emptyRoots [0x1000#64, 0x2000#64] 0x2000#64).pagingMapPage heapPages 0x1000#64 0x100000#64 cloneFlags).1.pagingMapPage heapPages
    0x2000#64 0x101000#64 cloneFlags).1).pagingSwitchDirectory 0x1000#64

theorem holedSource_trees : TreesSound holedSource [0x1000#64, 0x2000#64] := by
  have trees : TreesSound (emptyRoots [0x1000#64, 0x2000#64] 0x2000#64) [0x1000#64, 0x2000#64] :=
    emptyRoots_trees fun root live => by
    obtain rfl | rfl : root = 0x1000#64 ∨ root = 0x2000#64 := by
      rwa [List.mem_cons, List.mem_singleton] at live
    · decide
    · decide
  have live : 0x2000#64 ∈ [0x1000#64, 0x2000#64] :=
    List.mem_cons_of_mem _ (List.mem_singleton_self _)
  have isRoot : (emptyRoots [0x1000#64, 0x2000#64] 0x2000#64).pagingRoot = 0x2000#64 := if_pos rfl
  have first := (@pagingMapPage_spec heapPages (emptyRoots [0x1000#64, 0x2000#64] 0x2000#64) 0x1000#64 0x100000#64 cloneFlags
    [0x1000#64, 0x2000#64] trees (by exact live) cloneFlags_plain).1 (by decide)
  obtain ⟨one, isOne⟩ :
    ∃ one, ((emptyRoots [0x1000#64, 0x2000#64] 0x2000#64).pagingMapPage heapPages 0x1000#64 0x100000#64
    cloneFlags).1 = one := ⟨_, rfl⟩
  have mapped : (one.pagingMapPage heapPages 0x2000#64 0x101000#64 cloneFlags).2 = true := by
    rw [← isOne]
    decide
  rw [isOne] at first
  have sameRoot : one.pagingRoot = 0x2000#64 := first.only.sameRoot.trans isRoot
  have second := (@pagingMapPage_spec heapPages one 0x2000#64 0x101000#64 cloneFlags [0x1000#64,
    0x2000#64] first.trees (by rw [sameRoot]; exact live) cloneFlags_plain).1 mapped
  rw [holedSource, isOne, pagingSwitchDirectory, if_neg (by decide)]
  obtain ⟨two, isTwo⟩ :
    ∃ two, (one.pagingMapPage heapPages 0x2000#64 0x101000#64 cloneFlags).1 = two := ⟨_, rfl⟩
  rw [isTwo] at second ⊢
  exact (@frameWritten two { two with currentDirectory := 0x1000#64 } [0x1000#64,
    0x2000#64] second.trees rfl fun _ _ => rfl).1

def oneFrame (time : Nat) : U64 := if time = 0 then 0x200000#64 else 0#64

def holedClone : CloneState := { space := holedSource, held := fun _ => false, asked := 0 }

/-- Two pages without a hole before them: the second finds no frame. -/
theorem clone_rollback_two : CloneUndone 0x1000#64 holedClone
    (holedClone.pagingCloneUserRange heapPages oneFrame 0x1000#64 0x2000#64 0x1000#64 0x2000#64).1 := by
  refine (clone_rollback_iff (fun _ _ => holedSource_trees) (by decide)).1
    (.inr (.inr ⟨by decide, fun one two less lt _ => ?_⟩))
  have reached : (holedClone.clonePages heapPages oneFrame 0x1000#64 0x2000#64 0x1000#64 0x2000#64).2.1.toNat = 4096 := by decide
  omega

/-- A hole before a page that is cloned: when the next page finds no frame, the clone stays. -/
theorem clone_not_rolled_back :
    ¬ ∀ (offer frame : Nat → U64) (state : CloneState) (dst src start size : U64),
    TreesSound state.space [dst, src] → state.space.pagingRoot ≠ 0#64 →
    (state.pagingCloneUserRange offer frame dst src start size).2 = false →
    CloneUndone dst state (state.pagingCloneUserRange offer frame dst src start size).1 := by
  intro always
  have undone := always heapPages oneFrame holedClone 0x1000#64 0x2000#64 0#64 0x3000#64
    holedSource_trees (by decide) (by decide)
  exact absurd (undone.translation 0x1000#64) (by decide)

end Cos.Paging
