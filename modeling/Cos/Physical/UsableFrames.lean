import Cos.Physical.FrameRuns

/-! # Frames in usable memory

`phys_memory_init` sorts the usable regions of the memory map and reserves what is
between them: a cursor goes over the regions, and the frames from it to the start of
the next region, rounded up, are reserved.
-/

namespace Cos.Physical

open PhysState

variable {state : PhysState} {region : Region} {regions : List Region} {page cursor limitEnd : Nat}

def Region.Holds (region : Region) (page : Nat) : Prop :=
  region.base ≤ frameAddr page ∧ frameAddr page + physPageSize ≤ region.base + region.len

def Region.Fits (region : Region) : Prop :=
  region.base + region.len < 2 ^ 64 ∧ region.base + physPageSize - 1 < 2 ^ 64

instance (region : Region) : Decidable region.Fits := inferInstanceAs (Decidable (_ ∧ _))

theorem mem_insertBack {other : Region} : region ∈ insertBack other regions ↔
    region = other ∨ region ∈ regions := by
  induction regions with
  | nil => simp [insertBack]
  | cons last before ih =>
      rw [insertBack]
      split
      · rw [List.mem_cons, ih, List.mem_cons]
        exact or_left_comm
      · rw [List.mem_cons]

theorem mem_foldl_insertBack (sorted : List Region) :
    region ∈ regions.foldl (fun sorted region => insertBack region sorted) sorted ↔
      region ∈ sorted ∨ region ∈ regions := by
  induction regions generalizing sorted with
  | nil => simp
  | cons first rest ih =>
      rw [List.foldl_cons, ih, mem_insertBack, List.mem_cons, or_assoc, or_left_comm]

theorem mem_sortRegions : region ∈ sortRegions regions ↔ region ∈ regions := by
  rw [sortRegions, List.mem_reverse, mem_foldl_insertBack]
  simp

theorem runtimeTotal_ge (map : MemoryMap) : physPageSize ≤ map.runtimeTotal := by
  have enough : physPageSize ≤ physMaxMemorySize := by decide
  unfold MemoryMap.runtimeTotal
  simp only
  split_ifs <;> omega

theorem clearBitmap_totalPages (map : MemoryMap) :
    (clearBitmap map.runtimeTotal).totalPages = map.runtimeTotal / physPageSize := by
  have enough := runtimeTotal_ge map
  have positive : map.runtimeTotal / physPageSize ≠ 0 := by
    simp only [physPageSize] at enough ⊢
    omega
  simp only [clearBitmap, if_neg positive]

/-- The managed range ends where the last page does, or less than a page later. -/
structure Managed (state : PhysState) (limitEnd : Nat) : Prop where
  limit : limitEnd = physMemoryBase + state.limitBytes
  total : state.totalPages = state.limitBytes / physPageSize

theorem Managed.reserves {later : PhysState} (managed : Managed state limitEnd)
    (reserves : Reserves state later) : Managed later limitEnd :=
  ⟨by rw [reserves.limitBytes]; exact managed.limit,
    by rw [reserves.totalPages, reserves.limitBytes]; exact managed.total⟩

/-- The free pages below the cursor lie in a region, and the cursor is at a page. -/
structure CursorAt (state : PhysState) (regions : List Region) (cursor : Nat) : Prop where
  aligned : cursor % physPageSize = 0
  above : physMemoryBase ≤ cursor
  usable : ∀ page, page < state.totalPages → state.bitmap page = false → frameAddr page < cursor →
    ∃ region ∈ regions, region.Holds page

theorem reserveGap_clear {last : Nat} (managed : Managed state limitEnd)
    (aligned : cursor % physPageSize = 0) (above : physMemoryBase ≤ cursor)
    (end_ok : last % physPageSize = 0 ∨ last = limitEnd) (inside : page < state.totalPages)
    (clear : (state.reserveGap cursor last).bitmap page = false) :
    state.bitmap page = false ∧ (frameAddr page < cursor ∨ last ≤ frameAddr page) := by
  have bits := (@reserveRange_bitmap state ((cursor - physMemoryBase) / physPageSize)
    ((last - cursor) / physPageSize) page).not
  rw [PhysState.reserveGap] at clear
  rw [clear] at bits
  have neither := bits.1 Bool.false_ne_true
  refine ⟨by simpa using fun set => neither (Or.inl set), ?_⟩
  by_contra within
  refine neither (Or.inr ?_)
  have limit := managed.limit
  have total := managed.total
  simp only [frameAddr, physMemoryBase, physPageSize] at within above aligned end_ok limit total ⊢
  omega

theorem start_cases (limitEnd : Nat) (fits : region.Fits) : region.start limitEnd = limitEnd ∨
    (region.start limitEnd ≤ limitEnd ∧ region.start limitEnd % physPageSize = 0 ∧
      region.base ≤ region.start limitEnd) := by
  have up : (region.base + physPageSize - 1) % 2 ^ 64 = region.base + physPageSize - 1 :=
    Nat.mod_eq_of_lt fits.2
  have rounded : region.base ≤ (region.base + physPageSize - 1) / physPageSize * physPageSize ∧
      (region.base + physPageSize - 1) / physPageSize * physPageSize % physPageSize = 0 := by
    simp only [physPageSize]
    omega
  unfold Region.start
  rw [up]
  generalize (region.base + physPageSize - 1) / physPageSize * physPageSize = start at rounded ⊢
  obtain ⟨base, aligned⟩ := rounded
  simp only
  by_cases low : start < physMemoryBase
  · rw [if_pos low]
    by_cases high : physMemoryBase > limitEnd
    · exact Or.inl (if_pos high)
    · rw [if_neg high]
      exact Or.inr ⟨not_lt.1 high, by decide, by omega⟩
  · rw [if_neg low]
    by_cases high : start > limitEnd
    · exact Or.inl (if_pos high)
    · rw [if_neg high]
      exact Or.inr ⟨not_lt.1 high, aligned, base⟩

theorem reserveGaps_usable (all : List Region) (managed : Managed state limitEnd)
    (fits : ∀ region ∈ regions, region.Fits ∧ region ∈ all)
    (at_cursor : CursorAt state all cursor) : CursorAt (reserveGaps limitEnd regions cursor state).1
      all (reserveGaps limitEnd regions cursor state).2 := by
  induction regions generalizing cursor state with
  | nil => exact at_cursor
  | cons region rest ih =>
      obtain ⟨aligned, above, usable⟩ := at_cursor
      obtain ⟨⟨noWrap, _⟩, member⟩ := fits region List.mem_cons_self
      rw [reserveGaps]
      have limit : region.limit = region.base + region.len := Nat.mod_eq_of_lt noWrap
      have bounds := start_cases limitEnd (fits region List.mem_cons_self).1
      generalize region.start limitEnd = start at bounds ⊢
      have reserves : Reserves state (if start > cursor then
          state.reserveGap cursor (start) else state) := by
        split
        · exact Reserves.range _ _ _
        · exact Reserves.refl state
      have cleared : ∀ page, page < state.totalPages →
          (if start > cursor then state.reserveGap cursor (start)
            else state).bitmap page = false →
          state.bitmap page = false ∧ (frameAddr page < cursor ∨ start ≤ frameAddr page) := by
        intro page inside clear
        split at clear
        · exact reserveGap_clear managed aligned above (by omega) inside clear
        · exact ⟨clear, by omega⟩
      refine ih (managed.reserves reserves) (fun other isOther => fits other (List.mem_cons_of_mem _ isOther)) ?_
      refine ⟨?_, ?_, ?_⟩
      · by_cases further : region.limit / physPageSize * physPageSize > cursor
        · rw [if_pos further]
          exact Nat.mul_mod_left _ _
        · rw [if_neg further]
          exact aligned
      · by_cases further : region.limit / physPageSize * physPageSize > cursor
        · rw [if_pos further]
          exact Nat.le_trans above (Nat.le_of_lt further)
        · rw [if_neg further]
          exact above
      · intro page inside clear below
        rw [reserves.totalPages] at inside
        obtain ⟨wasClear, old | beyond⟩ := cleared page inside clear
        · exact usable page inside wasClear old
        by_cases old : frameAddr page < cursor
        · exact usable page inside wasClear old
        -- the frame is at or after the start of this region and before its end
        have inRange : frameAddr page < limitEnd := by
          have limit := managed.limit
          have total := managed.total
          simp only [frameAddr, physMemoryBase, physPageSize] at limit total ⊢
          omega
        have before : frameAddr page < region.limit / physPageSize * physPageSize := by
          by_cases further : region.limit / physPageSize * physPageSize > cursor
          · rwa [if_pos further] at below
          · rw [if_neg further] at below
            exact absurd below old
        refine ⟨region, member, by omega, ?_⟩
        simp only [frameAddr, physMemoryBase, physPageSize] at before ⊢
        omega

theorem applyMemoryMap_usable {all : List Region} (managed : Managed state limitEnd)
    (few : all.length ≤ 32) (fits : ∀ region ∈ all, region.Fits)
    (inside : page < state.totalPages) (clear : (applyMemoryMap state all).bitmap page = false) :
    ∃ region ∈ all, region.Holds page := by
  have start : CursorAt state all physMemoryBase := by
    refine ⟨by decide, Nat.le_refl _, ?_⟩
    intro page _ _ below
    simp only [frameAddr] at below
    omega
  have sorted : ∀ region ∈ sortRegions (all.take 32), region.Fits ∧ region ∈ all := by
    intro region member
    rw [mem_sortRegions, List.take_of_length_le few] at member
    exact ⟨fits region member, member⟩
  have loop := reserveGaps_usable all managed sorted start
  have reserves := Reserves.gaps limitEnd (sortRegions (all.take 32)) physMemoryBase state
  unfold applyMemoryMap at clear
  simp only [← managed.limit] at clear
  generalize reserveGaps limitEnd (sortRegions (all.take 32)) physMemoryBase state = result
    at loop reserves clear
  obtain ⟨later, cursor⟩ := result
  have inside' : page < later.totalPages := by
    rw [reserves.totalPages]
    exact inside
  have inRange : frameAddr page < limitEnd := by
    have limit := managed.limit
    have total := managed.total
    simp only [frameAddr, physMemoryBase, physPageSize] at limit total ⊢
    omega
  split at clear
  · obtain ⟨wasClear, old | beyond⟩ := reserveGap_clear (managed.reserves reserves) loop.aligned
      loop.above (Or.inr rfl) inside' clear
    · exact loop.usable page inside' wasClear old
    · omega
  · exact loop.usable page inside' clear (by omega)

theorem reserveKernel_clear {kernelEnd : Nat}
    (low : ∀ page, page < physReservedPages → page < state.totalPages → state.bitmap page = true)
    (inside : page < state.totalPages)
    (clear : (reserveKernel state kernelEnd).bitmap page = false) :
    state.bitmap page = false ∧ kernelEnd ≤ frameAddr page := by
  have wasClear : state.bitmap page = false := by
    by_contra set
    have still := (Reserves.kernel state kernelEnd).bits page (by simpa using set)
    rw [clear] at still
    exact Bool.false_ne_true still
  refine ⟨wasClear, ?_⟩
  have managed : physReservedPages ≤ page := by
    by_contra below
    have set := low page (not_le.1 below) inside
    rw [wasClear] at set
    exact Bool.false_ne_true set
  unfold reserveKernel at clear
  simp only at clear
  split_ifs at clear with above image
  · have bits := (@reserveRange_bitmap state physReservedPages
      ((kernelEnd - physMemoryBase + physPageSize - 1) / physPageSize - physReservedPages) page).not
    rw [clear] at bits
    have neither := bits.1 Bool.false_ne_true
    simp only [frameAddr, physMemoryBase, physPageSize, physReservedPages] at *
    omega
  · simp only [frameAddr, physMemoryBase, physPageSize, physReservedPages] at *
    omega
  · simp only [frameAddr]
    omega

/-- After `phys_memory_init` with a memory map, every free frame lies in one of its regions
and above the kernel image. -/
theorem free_frames_usable (map : MemoryMap) (mapped : map.regions ≠ [])
    (few : map.regions.length ≤ 32) (fits : ∀ region ∈ map.regions, region.Fits) (page : Nat)
    (inside : page < (physMemoryInit map).totalPages)
    (clear : (physMemoryInit map).bitmap page = false) :
    (∃ region ∈ map.regions, region.Holds page) ∧ map.kernelEnd ≤ frameAddr page := by
  have reserves := Reserves.init map
  rw [reserves.totalPages] at inside
  unfold physMemoryInit at clear
  simp only [if_pos mapped] at clear
  have mapReserves := Reserves.memoryMap
    ((clearBitmap map.runtimeTotal).reserveRange 0 physReservedPages) map.regions
  have low : ∀ page, page < physReservedPages →
      page < ((clearBitmap map.runtimeTotal).reserveRange 0 physReservedPages).totalPages →
      ((clearBitmap map.runtimeTotal).reserveRange 0 physReservedPages).bitmap page = true := by
    intro page low inside
    rw [reserveRange_totalPages] at inside
    exact (reserveRange_bitmap page).2 (Or.inr ⟨Nat.zero_le _, by omega, inside⟩)
  have managed : Managed ((clearBitmap map.runtimeTotal).reserveRange 0 physReservedPages)
      (physMemoryBase + map.runtimeTotal) := by
    refine ⟨?_, ?_⟩
    · rw [reserveRange_limitBytes]
      rfl
    · rw [reserveRange_totalPages, reserveRange_limitBytes, clearBitmap_totalPages]
      rfl
  obtain ⟨wasClear, above⟩ := reserveKernel_clear (fun page isLow inside' => by
    rw [mapReserves.totalPages] at inside'
    exact mapReserves.bits page (low page isLow inside')) (by rw [mapReserves.totalPages]; exact inside) clear
  exact ⟨applyMemoryMap_usable managed few fits inside wasClear, above⟩

theorem addAvailRegion_few {regions : List Region} (few : regions.length ≤ 32) (base len : Nat) :
    (addAvailRegion regions base len).length ≤ 32 := by
  unfold addAvailRegion
  split
  · exact few
  · rw [List.length_append, List.length_singleton]
    omega

/-- Two regions that begin and end inside pages, the upper one first, with a gap below 0x300800. -/
def twoRegions : List Region :=
  addAvailRegion (addAvailRegion [] 0x300800 0x100900) 0x100200 0x1FF000

theorem free_frames_usable_small :
    (∃ region ∈ twoRegions, region.Holds 600) ∧ 0x250000 ≤ frameAddr 600 :=
  free_frames_usable ⟨0, twoRegions, 0x250000⟩ (by decide)
    (@addAvailRegion_few _ (@addAvailRegion_few [] (by decide) 0x300800 0x100900) 0x100200 0x1FF000)
    (by decide) 600
    (by set_option maxRecDepth 100000 in decide) (by set_option maxRecDepth 100000 in decide)

/-- Without a memory map the frames after the first 256 are taken to be usable. -/
theorem free_frames_unmapped :
    ¬∀ map : MemoryMap, map.regions.length ≤ 32 →
      (∀ region ∈ map.regions, region.base + region.len < 2 ^ 64) →
      ∀ page, page < (physMemoryInit map).totalPages → (physMemoryInit map).bitmap page = false →
        (∃ region ∈ map.regions, region.Holds page) ∧ map.kernelEnd ≤ frameAddr page := by
  intro claim
  obtain ⟨⟨region, member, _⟩, _⟩ :=
    claim ⟨0, [], 0⟩ (by decide) (fun _ member => nomatch member) 300
    (by set_option maxRecDepth 100000 in decide) (by set_option maxRecDepth 100000 in decide)
  exact nomatch member

-- the start of a region in the last page of the address space rounds up to 0
example : (physMemoryInit ⟨0, [⟨2 ^ 64 - 100, 50⟩], 0⟩).bitmap 300 = false := by
  set_option maxRecDepth 100000 in decide

end Cos.Physical
