import Cos.Lib.Tally
import Cos.Physical.Frames

/-! # Runs of the frame allocator

The counter is the number of set bits after every call.  What `phys_alloc_page` gives
out `phys_free_page` takes back, unless a call of `phys_memory_unreserve_range` has
cleared one of the first 256 bits, or that of a frame that was given out.
-/

namespace Cos.Physical

open Cos.Lib PhysState
open Function (update update_of_ne update_self)

variable {state : PhysState} {page start size count addr other : Nat}

/-- The number of set bits below `total_physical_pages`. -/
def setBits (state : PhysState) : Nat :=
  ((Finset.range state.totalPages).filter fun page => state.bitmap page = true).card

/-- `used_physical_pages` counts the set bits. -/
def Counted (state : PhysState) : Prop := state.usedPages = setBits state

theorem setBits_update (inside : page < state.totalPages) (bit : Bool) :
    setBits { state with bitmap := update state.bitmap page bit } +
        (if state.bitmap page = true then 1 else 0) =
      setBits state + (if bit = true then 1 else 0) :=
  tally_update (Finset.mem_range.2 inside) bit true

theorem setBits_set (inside : page < state.totalPages) (clear : state.bitmap page = false) :
    setBits { state with bitmap := update state.bitmap page true } = setBits state + 1 := by
  have change := setBits_update inside true
  rw [clear] at change
  simpa using change

theorem setBits_clear (inside : page < state.totalPages) (set : state.bitmap page = true) :
    setBits { state with bitmap := update state.bitmap page false } + 1 = setBits state := by
  have change := setBits_update inside false
  rw [set] at change
  simpa using change

theorem setBits_le (state : PhysState) : setBits state ≤ state.totalPages := by
  have bound := Finset.card_filter_le (Finset.range state.totalPages) fun page =>
    state.bitmap page = true
  rwa [Finset.card_range] at bound

theorem Counted.full (counted : Counted state) (full : state.totalPages ≤ state.usedPages)
    (inside : page < state.totalPages) : state.bitmap page = true := by
  by_contra clear
  rw [Bool.not_eq_true] at clear
  have more := setBits_set inside clear
  have bound := setBits_le { state with bitmap := update state.bitmap page true }
  rw [Counted] at counted
  change setBits { state with bitmap := update state.bitmap page true } ≤ state.totalPages at bound
  omega

@[simp] theorem reservePage_totalPages :
    (state.reservePage page).totalPages = state.totalPages := by
  unfold reservePage
  split_ifs <;> rfl

@[simp] theorem reservePage_limitBytes :
    (state.reservePage page).limitBytes = state.limitBytes := by
  unfold reservePage
  split_ifs <;> rfl

@[simp] theorem reservePage_handed : (state.reservePage page).handed = state.handed := by
  unfold reservePage
  split_ifs <;> rfl

theorem reservePage_bitmap (other : Nat) : (state.reservePage page).bitmap other = true ↔
    state.bitmap other = true ∨ (other = page ∧ other < state.totalPages) := by
  unfold reservePage
  split_ifs with outside set
  · simp only [iff_self_or, and_imp]
    omega
  · simp only [iff_self_or, and_imp]
    rintro rfl _
    exact set
  · by_cases same : other = page
    · subst same
      simp only [Function.update_self, true_and, true_iff]
      exact Or.inr (by omega)
    · simp [same]

theorem Counted.reservePage (counted : Counted state) : Counted (state.reservePage page) := by
  unfold PhysState.reservePage
  split_ifs with outside set
  · exact counted
  · exact counted
  · have more := setBits_set (not_le.1 outside) (Bool.not_eq_true _ ▸ set)
    rw [counted]
    exact more.symm

@[simp] theorem reserveRange_totalPages :
    (state.reserveRange start count).totalPages = state.totalPages := by
  induction count with
  | zero => rfl
  | succ count ih => rw [reserveRange, reservePage_totalPages, ih]

@[simp] theorem reserveRange_limitBytes :
    (state.reserveRange start count).limitBytes = state.limitBytes := by
  induction count with
  | zero => rfl
  | succ count ih => rw [reserveRange, reservePage_limitBytes, ih]

@[simp] theorem reserveRange_handed : (state.reserveRange start count).handed = state.handed := by
  induction count with
  | zero => rfl
  | succ count ih => rw [reserveRange, reservePage_handed, ih]

theorem reserveRange_bitmap (other : Nat) : (state.reserveRange start count).bitmap other = true ↔
    state.bitmap other = true ∨
    (start ≤ other ∧ other < start + count ∧ other < state.totalPages) := by
  induction count with
  | zero =>
      simp only [reserveRange, iff_self_or]
      omega
  | succ count ih =>
      rw [reserveRange, reservePage_bitmap, ih, reserveRange_totalPages, or_assoc]
      refine or_congr Iff.rfl ?_
      omega

structure Reserves (state later : PhysState) : Prop where
  totalPages : later.totalPages = state.totalPages
  limitBytes : later.limitBytes = state.limitBytes
  handed : later.handed = state.handed
  bits : ∀ page, state.bitmap page = true → later.bitmap page = true
  counted : Counted state → Counted later

theorem Reserves.refl (state : PhysState) : Reserves state state :=
  ⟨rfl, rfl, rfl, fun _ set => set, fun counted => counted⟩

theorem Reserves.trans {second third : PhysState} (one : Reserves state second)
    (two : Reserves second third) : Reserves state third :=
  ⟨two.totalPages.trans one.totalPages, two.limitBytes.trans one.limitBytes,
    two.handed.trans one.handed, fun page set => two.bits page (one.bits page set),
    fun counted => two.counted (one.counted counted)⟩

theorem Counted.reserveRange (counted : Counted state) :
    Counted (state.reserveRange start count) := by
  induction count with
  | zero => exact counted
  | succ count ih => exact ih.reservePage

theorem Reserves.range (state : PhysState) (start count : Nat) :
    Reserves state (state.reserveRange start count) :=
  ⟨reserveRange_totalPages, reserveRange_limitBytes, reserveRange_handed,
    fun page set => (reserveRange_bitmap page).2 (Or.inl set), fun counted => counted.reserveRange⟩

theorem Counted.clearPage (counted : Counted state) (inside : page < state.totalPages)
    (set : state.bitmap page = true) : Counted (state.clearPage page) := by
  have less := setBits_clear inside set
  have same : setBits (state.clearPage page) =
      setBits { state with bitmap := update state.bitmap page false } := rfl
  rw [Counted] at counted ⊢
  change (if state.usedPages > 0 then state.usedPages - 1 else state.usedPages) = _
  rw [if_pos (by omega)]
  omega

theorem unreservePages_spec (counted : Counted state) :
    Counted (state.unreservePages page count) ∧
      (state.unreservePages page count).totalPages = state.totalPages ∧
      (state.unreservePages page count).limitBytes = state.limitBytes ∧
      (state.unreservePages page count).handed = state.handed ∧
      ∀ other, (state.unreservePages page count).bitmap other = true ↔ state.bitmap other = true ∧
        ¬(page ≤ other ∧ other < page + count ∧ other < state.totalPages) := by
  induction count generalizing state page with
  | zero =>
      refine ⟨counted, rfl, rfl, rfl, fun other => ?_⟩
      simp only [unreservePages, iff_self_and]
      omega
  | succ count ih =>
      rw [unreservePages]
      by_cases outside : state.totalPages ≤ page
      · rw [if_pos outside]
        refine ⟨counted, rfl, rfl, rfl, fun other => ?_⟩
        simp only [iff_self_and]
        omega
      rw [if_neg outside]
      by_cases set : state.bitmap page = true
      · rw [if_pos set]
        obtain ⟨counted', total, limit, handed, bits⟩ :=
          @ih (state.clearPage page) (page + 1) (counted.clearPage (not_le.1 outside) set)
        refine ⟨counted', total, limit, handed, fun other => ?_⟩
        rw [bits]
        by_cases same : other = page
        · subst same
          simp only [PhysState.clearPage, update_self, Bool.false_eq_true, false_and, false_iff]
          omega
        · simp only [PhysState.clearPage, update_of_ne same]
          refine and_congr Iff.rfl (not_congr ?_)
          omega
      · rw [if_neg set]
        obtain ⟨counted', total, limit, handed, bits⟩ := @ih state (page + 1) counted
        refine ⟨counted', total, limit, handed, fun other => ?_⟩
        rw [bits]
        by_cases same : other = page
        · subst same
          simp [set]
        · refine and_congr Iff.rfl (not_congr ?_)
          omega

theorem firstClear_some (found : state.firstClear start = some page) :
    start ≤ page ∧ page < state.totalPages ∧ state.bitmap page = false := by
  have member := List.mem_range'_1.1 (List.mem_of_find?_eq_some found)
  have clear := List.find?_some found
  rw [Bool.not_eq_true'] at clear
  exact ⟨member.1, by omega, clear⟩

theorem firstClear_none (missing : state.firstClear start = none) (from_start : start ≤ page)
    (inside : page < state.totalPages) : state.bitmap page = true := by
  have all := List.find?_eq_none.1 missing page (List.mem_range'_1.2 ⟨from_start, by omega⟩)
  simpa using all

theorem physAllocPage_cases (counted : Counted state) :
    (state.physAllocPage = (state, 0) ∧
      ∀ page, physReservedPages ≤ page → page < state.totalPages → state.bitmap page = true) ∨
      ∃ page, page < state.totalPages ∧ state.bitmap page = false ∧
        state.physAllocPage = (state.takeFrame page, frameAddr page) := by
  unfold physAllocPage
  by_cases full : state.totalPages ≤ state.usedPages
  · rw [if_pos full]
    exact Or.inl ⟨rfl, fun page _ inside => counted.full full inside⟩
  rw [if_neg full]
  simp only
  generalize (if state.nextFreeHint < state.totalPages then state.nextFreeHint
    else physReservedPages) = start
  cases first : state.firstClear start with
  | some page =>
      obtain ⟨_, inside, clear⟩ := firstClear_some first
      exact Or.inr ⟨page, inside, clear, rfl⟩
  | none =>
      cases second : state.firstClear physReservedPages with
      | some page =>
          obtain ⟨_, inside, clear⟩ := firstClear_some second
          exact Or.inr ⟨page, inside, clear, rfl⟩
      | none => exact Or.inl ⟨rfl, fun page managed inside => firstClear_none second managed inside⟩

/-- The invariant: the first 256 pages and the pages given out have their bits set. -/
structure PhysSound (state : PhysState) : Prop where
  counted : Counted state
  low : ∀ page, page < physReservedPages → page < state.totalPages → state.bitmap page = true
  held : ∀ page ∈ state.handed, page < state.totalPages ∧ state.bitmap page = true

theorem PhysSound.managed (sound : PhysSound state) (inside : page < state.totalPages)
    (clear : state.bitmap page = false) : physReservedPages ≤ page := by
  by_contra low
  have set := sound.low page (not_le.1 low) inside
  rw [clear] at set
  exact Bool.false_ne_true set

theorem PhysSound.not_handed (sound : PhysSound state) (clear : state.bitmap page = false) :
    page ∉ state.handed := by
  intro given
  have set := (sound.held page given).2
  rw [clear] at set
  exact Bool.false_ne_true set

theorem takeFrame_counted (counted : Counted state) (inside : page < state.totalPages)
    (clear : state.bitmap page = false) : Counted (state.takeFrame page) := by
  have more := setBits_set inside clear
  have same : setBits (state.takeFrame page) =
      setBits { state with bitmap := update state.bitmap page true } := rfl
  rw [Counted] at counted ⊢
  rw [same, more, ← counted]
  rfl

theorem PhysSound.takeFrame (sound : PhysSound state) (inside : page < state.totalPages)
    (clear : state.bitmap page = false) : PhysSound (state.takeFrame page) := by
  have bits : ∀ other, state.bitmap other = true → (state.takeFrame page).bitmap other = true := by
    intro other set
    by_cases same : other = page
    · subst same
      exact update_self _ _ _
    · exact (update_of_ne same _ _).trans set
  refine ⟨takeFrame_counted sound.counted inside clear, ?_, ?_⟩
  · exact fun other low inside' => bits other (sound.low other low inside')
  · intro other given
    rcases Finset.mem_insert.1 given with rfl | given
    · exact ⟨inside, update_self _ _ _⟩
    · exact ⟨(sound.held other given).1, bits other (sound.held other given).2⟩

theorem PhysSound.physAllocPage (sound : PhysSound state) : PhysSound state.physAllocPage.1 := by
  rcases physAllocPage_cases sound.counted with ⟨failed, _⟩ | ⟨page, inside, clear, given⟩
  · rw [failed]
    exact sound
  · rw [given]
    exact sound.takeFrame inside clear

theorem PhysSound.physMemoryReserveRange (sound : PhysSound state) (start size : Nat) :
    PhysSound (state.physMemoryReserveRange start size) := by
  unfold PhysState.physMemoryReserveRange
  split
  · exact sound
  · refine ⟨sound.counted.reserveRange, ?_, ?_⟩
    · intro page low inside
      rw [reserveRange_totalPages] at inside
      exact (reserveRange_bitmap page).2 (Or.inl (sound.low page low inside))
    · intro page given
      rw [reserveRange_handed] at given
      rw [reserveRange_totalPages]
      exact ⟨(sound.held page given).1, (reserveRange_bitmap page).2 (Or.inl (sound.held page given).2)⟩

/-- The range of the call has none of the first 256 pages and none that is given out. -/
def RangeUnowned (state : PhysState) (start size : Nat) : Prop :=
  ∀ range ∈ state.managedRange start size, ∀ page ∈ List.range' range.1 range.2,
    page < state.totalPages → physReservedPages ≤ page ∧ page ∉ state.handed

instance (state : PhysState) (start size : Nat) : Decidable (RangeUnowned state start size) :=
  inferInstanceAs (Decidable (∀ _ ∈ _, _))

theorem PhysSound.physMemoryUnreserveRange (sound : PhysSound state)
    (unowned : RangeUnowned state start size) :
    PhysSound (state.physMemoryUnreserveRange start size) := by
  unfold PhysState.physMemoryUnreserveRange
  cases found : state.managedRange start size with
  | none => exact sound
  | some range =>
      obtain ⟨firstPage, pageCount⟩ := range
      obtain ⟨counted, total, _, handed, bits⟩ :=
        @unreservePages_spec state firstPage pageCount sound.counted
      have unowned := unowned (firstPage, pageCount) found
      have outside : ∀ page, page < state.totalPages → (page < physReservedPages ∨ page ∈ state.handed) →
          ¬(firstPage ≤ page ∧ page < firstPage + pageCount ∧ page < state.totalPages) := by
        rintro page inside owned ⟨above, below, _⟩
        obtain ⟨managed, notGiven⟩ := unowned page (List.mem_range'_1.2 ⟨above, below⟩) inside
        exact owned.elim (not_lt.2 managed) notGiven
      refine ⟨counted, ?_, ?_⟩
      · intro page low inside
        rw [total] at inside
        exact (bits page).2 ⟨sound.low page low inside, outside page inside (Or.inl low)⟩
      · intro page given
        rw [handed] at given
        obtain ⟨inside, set⟩ := sound.held page given
        rw [total]
        exact ⟨inside, (bits page).2 ⟨set, outside page inside (Or.inr given)⟩⟩

theorem physFreePage_cases (state : PhysState) (addr : Nat) :
    state.physFreePage addr = state ∨ ∃ page, physReservedPages ≤ page ∧ page < state.totalPages ∧
      state.bitmap page = true ∧ addr = frameAddr page ∧
      state.physFreePage addr = { state.clearPage page with handed := state.handed.erase page } := by
  unfold physFreePage
  by_cases unaligned : addr % physPageSize ≠ 0
  · exact Or.inl (if_pos unaligned)
  rw [if_neg unaligned]
  by_cases below : addr < physMemoryBase
  · exact Or.inl (if_pos below)
  rw [if_neg below]
  by_cases outside : state.totalPages ≤ (addr - physMemoryBase) / physPageSize
  · exact Or.inl (if_pos outside)
  rw [if_neg outside]
  by_cases low : (addr - physMemoryBase) / physPageSize < physReservedPages
  · exact Or.inl (if_pos low)
  rw [if_neg low]
  by_cases clear : (!state.bitmap ((addr - physMemoryBase) / physPageSize)) = true
  · exact Or.inl (if_pos clear)
  rw [if_neg clear]
  refine Or.inr ⟨_, not_lt.1 low, not_le.1 outside, by simpa using clear, ?_, rfl⟩
  simp only [physMemoryBase, physPageSize, frameAddr] at unaligned below ⊢
  omega

theorem PhysSound.physFreePage (sound : PhysSound state) (addr : Nat) :
    PhysSound (state.physFreePage addr) := by
  rcases physFreePage_cases state addr with same | ⟨page, managed, inside, set, _, freed⟩
  · rw [same]
    exact sound
  rw [freed]
  have bits : ∀ other, other ≠ page → (state.clearPage page).bitmap other = state.bitmap other :=
    fun other differs => update_of_ne differs _ _
  refine ⟨sound.counted.clearPage inside set, ?_, ?_⟩
  · intro other low inside'
    rw [bits other (by omega)]
    exact sound.low other low inside'
  · intro other given
    obtain ⟨differs, given⟩ := Finset.mem_erase.1 given
    refine ⟨(sound.held other given).1, ?_⟩
    rw [bits other differs]
    exact (sound.held other given).2

inductive PhysOp where
  | alloc
  | free (addr : BitVec 64)
  | reserve (start size : BitVec 64)
  | unreserve (start size : BitVec 64)

def physStep (state : PhysState) : PhysOp → PhysState
  | .alloc => state.physAllocPage.1
  | .free addr => state.physFreePage addr.toNat
  | .reserve start size => state.physMemoryReserveRange start.toNat size.toNat
  | .unreserve start size => state.physMemoryUnreserveRange start.toNat size.toNat

structure AllocatorCorrect (state : PhysState) : Prop where
  counted : Counted state
  /-- A frame that is given out was free, and `phys_free_page` takes it back. -/
  gives : ∀ later addr, state.physAllocPage = (later, addr) → addr ≠ 0 →
    ∃ page, addr = frameAddr page ∧ page < state.totalPages ∧ state.bitmap page = false ∧
      page ∉ state.handed ∧ (later.physFreePage addr).bitmap = state.bitmap ∧
      (later.physFreePage addr).usedPages = state.usedPages
  fails : state.physAllocPage.2 = 0 → ∀ page, page < state.totalPages → state.bitmap page = true

theorem frameAddr_ne_zero (page : Nat) : frameAddr page ≠ 0 := by
  simp only [frameAddr, physMemoryBase]
  omega

theorem PhysSound.free_taken (sound : PhysSound state) (inside : page < state.totalPages)
    (clear : state.bitmap page = false) :
    ((state.takeFrame page).physFreePage (frameAddr page)).bitmap = state.bitmap ∧
      ((state.takeFrame page).physFreePage (frameAddr page)).usedPages = state.usedPages := by
  have managed := sound.managed inside clear
  have number : (frameAddr page - physMemoryBase) / physPageSize = page := by
    simp only [frameAddr, physMemoryBase, physPageSize]
    omega
  have aligned : ¬frameAddr page % physPageSize ≠ 0 := by
    simp only [frameAddr, physMemoryBase, physPageSize]
    omega
  have above : ¬frameAddr page < physMemoryBase := by
    simp only [frameAddr]
    omega
  have set : (state.takeFrame page).bitmap page = true := update_self _ _ _
  have total : (state.takeFrame page).totalPages = state.totalPages := rfl
  unfold PhysState.physFreePage
  simp only [if_neg aligned, if_neg above, number, total, if_neg (not_le.2 inside),
    if_neg (not_lt.2 managed), set, Bool.not_true, Bool.false_eq_true, if_false]
  constructor
  · simp only [PhysState.clearPage, PhysState.takeFrame, Function.update_idem]
    rw [← clear, Function.update_eq_self]
  · simp [PhysState.clearPage, PhysState.takeFrame]

theorem PhysSound.correct (sound : PhysSound state) : AllocatorCorrect state := by
  refine ⟨sound.counted, ?_, ?_⟩
  · intro later addr run nonzero
    rcases physAllocPage_cases sound.counted with ⟨failed, _⟩ | ⟨page, inside, clear, given⟩
    · rw [failed] at run
      exact absurd (Prod.mk.inj run).2.symm nonzero
    · rw [given] at run
      obtain ⟨rfl, rfl⟩ := Prod.mk.inj run
      exact ⟨page, rfl, inside, clear, sound.not_handed clear, sound.free_taken inside clear⟩
  · intro failed page inside
    rcases physAllocPage_cases sound.counted with ⟨_, full⟩ | ⟨page', _, _, given⟩
    · by_cases low : page < physReservedPages
      · exact sound.low page low inside
      · exact full page (not_lt.1 low) inside
    · rw [given] at failed
      exact absurd failed (frameAddr_ne_zero page')

theorem Reserves.gaps (limitEnd : Nat) (regions : List Region) (cursor : Nat) (state : PhysState) :
    Reserves state (reserveGaps limitEnd regions cursor state).1 := by
  induction regions generalizing cursor state with
  | nil => exact Reserves.refl state
  | cons region rest ih =>
      refine Reserves.trans ?_ (ih _ _)
      split
      · exact Reserves.range _ _ _
      · exact Reserves.refl state

theorem Reserves.memoryMap (state : PhysState) (regions : List Region) :
    Reserves state (applyMemoryMap state regions) := by
  have gaps := Reserves.gaps (physMemoryBase + state.limitBytes) (sortRegions (regions.take 32))
    physMemoryBase state
  unfold applyMemoryMap
  simp only
  split
  · exact gaps.trans (Reserves.range _ _ _)
  · exact gaps

theorem Reserves.kernel (state : PhysState) (kernelEnd : Nat) :
    Reserves state (reserveKernel state kernelEnd) := by
  unfold reserveKernel
  simp only
  split_ifs
  · exact Reserves.range _ _ _
  · exact Reserves.refl state
  · exact Reserves.refl state

theorem Reserves.init (map : MemoryMap) :
    Reserves ((clearBitmap map.runtimeTotal).reserveRange 0 physReservedPages)
    (physMemoryInit map) := by
  refine Reserves.trans ?_ (Reserves.kernel _ map.kernelEnd)
  split
  · exact Reserves.memoryMap _ _
  · exact Reserves.refl _

theorem clearBitmap_counted (limitBytes : Nat) : Counted (clearBitmap limitBytes) := by
  have none : ∀ page ∈ Finset.range (clearBitmap limitBytes).totalPages,
      ¬(clearBitmap limitBytes).bitmap page = true := fun page _ => Bool.false_ne_true
  rw [Counted, setBits, Finset.filter_false_of_mem none]
  rfl

theorem physMemoryInit_sound (map : MemoryMap) : PhysSound (physMemoryInit map) := by
  have reserves := Reserves.init map
  refine ⟨reserves.counted (clearBitmap_counted _).reserveRange, ?_, ?_⟩
  · intro page low inside
    rw [reserves.totalPages, reserveRange_totalPages] at inside
    exact reserves.bits page ((reserveRange_bitmap page).2 (Or.inr ⟨Nat.zero_le _, by omega, inside⟩))
  · intro page given
    rw [reserves.handed, reserveRange_handed] at given
    exact absurd given (Finset.notMem_empty page)

/-- `phys_memory_unreserve_range` is called for ranges that are not reserved for good and
not given out. -/
def PhysAllowed (state : PhysState) : PhysOp → Prop
  | .unreserve start size => RangeUnowned state start.toNat size.toNat
  | _ => True

instance : ∀ (state : PhysState) (op : PhysOp), Decidable (PhysAllowed state op)
  | state, .unreserve start size =>
      inferInstanceAs (Decidable (RangeUnowned state start.toNat size.toNat))
  | _, .alloc => isTrue trivial
  | _, .free _ => isTrue trivial
  | _, .reserve _ _ => isTrue trivial

theorem PhysSound.step (sound : PhysSound state) (op : PhysOp) (allowed : PhysAllowed state op) :
    PhysSound (physStep state op) := by
  cases op with
  | alloc => exact sound.physAllocPage
  | free addr => exact sound.physFreePage addr.toNat
  | reserve start size => exact sound.physMemoryReserveRange start.toNat size.toNat
  | unreserve start size => exact sound.physMemoryUnreserveRange allowed

/-- The allocator is correct in every state of a run whose unreserved ranges are unowned. -/
theorem frame_allocator_correct (map : MemoryMap) (ops : List PhysOp)
    (allowed : StepsAllowed physStep PhysAllowed (physMemoryInit map) ops) :
    AllocatorCorrect (runSteps physStep (physMemoryInit map) ops) := by
  have sound : PhysSound (runSteps physStep (physMemoryInit map) ops) :=
    (Reaches.refl.runSteps allowed).invariant (physMemoryInit_sound map)
      fun _ op sound allowed => sound.step op allowed
  exact sound.correct

/-- 4 MiB from 1 MiB on: a reserved range is given back, a frame is given out and freed. -/
theorem frame_allocator_correct_small :
    AllocatorCorrect (runSteps physStep (physMemoryInit ⟨0, [⟨0x100000, 0x400000⟩], 0x100000⟩)
      [.reserve 0x300000#64 0x3000#64, .unreserve 0x300000#64 0x2000#64, .alloc, .free 0x200000#64]) :=
  frame_allocator_correct _ _ (by set_option maxRecDepth 100000 in decide)

/-- The first managed page is unreserved: `phys_alloc_page` gives it out, `phys_free_page`
calls it reserved. -/
theorem frame_allocator_keeps_reserved :
    ¬∀ (map : MemoryMap) (ops : List PhysOp),
      AllocatorCorrect (runSteps physStep (physMemoryInit map) ops) := by
  intro claim
  obtain ⟨state, isState⟩ : ∃ state, state = runSteps physStep
      (physMemoryInit ⟨0, [⟨0x100000, 0x400000⟩], 0x100000⟩) [.unreserve 0x100000#64 0x1000#64] :=
    ⟨_, rfl⟩
  have correct := claim ⟨0, [⟨0x100000, 0x400000⟩], 0x100000⟩ [.unreserve 0x100000#64 0x1000#64]
  rw [← isState] at correct
  have run : state.physAllocPage.2 ≠ 0 ∧
      (state.physAllocPage.1.physFreePage state.physAllocPage.2).bitmap 0 ≠ state.bitmap 0 := by
    rw [isState]
    decide +kernel
  obtain ⟨page, _, _, _, _, same, _⟩ := correct.gives _ _ rfl run.1
  exact run.2 (congrFun same 0)

end Cos.Physical
