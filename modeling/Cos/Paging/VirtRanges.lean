import Cos.Lib.Span
import Mathlib.Algebra.Group.Nat.Defs

/-! # Freed kernel virtual ranges

`virt_free_list` holds the page ranges that `paging_free_pages` gave back.
`virt_free_range_add` merges a range with its neighbours and stores it, and
`virt_free_range_take` hands out the first range that is large enough.  Addresses
and counts are 64-bit words, written as natural numbers with the code's own
overflow tests.
-/

namespace Cos.Paging

open Cos.Lib

def u64Max : Nat := 2 ^ 64 - 1

/-- `virt_range_t`: `count` pages from `base`. -/
structure VirtRange where
  base : Nat
  count : Nat
deriving DecidableEq, Repr

def VirtRange.span (range : VirtRange) : Span := ⟨range.base, range.base + range.count * 4096⟩

/-- `add_overflow_u64`: `none` when the sum does not fit. -/
def addOverflowU64 (a b : Nat) : Option Nat := if a > u64Max - b then none else some (a + b)

def pagesToBytesSafe (pages : Nat) : Option Nat :=
  if pages > u64Max / 4096 then none else some (pages * 4096)

/-- `align_up_u64` to the page size. -/
def alignUpPage (v : Nat) : Nat := (v + 4095) % 2 ^ 64 / 4096 * 4096

/-- How the scan over `virt_free_list` for a neighbour of a range ends. -/
inductive Neighbour where
  /-- An entry's end does not fit: the caller gives up. -/
  | overflow
  /-- Entry `index` ends where the range begins. -/
  | below (index : Nat)
  /-- Entry `index` begins where the range ends. -/
  | above (index : Nat)
  | absent
deriving DecidableEq

/-- The inner `for` loop of `virt_free_range_add`, from entry `index` on. -/
def findNeighbour (base fin : Nat) : List VirtRange → Nat → Neighbour
  | [], _ => .absent
  | current :: rest, index =>
      match pagesToBytesSafe current.count with
      | none => .overflow
      | some bytes =>
          match addOverflowU64 current.base bytes with
          | none => .overflow
          | some currentEnd =>
              if currentEnd = base then .below index
              else if fin = current.base then .above index
              else findNeighbour base fin rest (index + 1)

/-- The `do … while (merged)` loop of `virt_free_range_add`: the list it leaves and
the range that is still to be stored, `none` after an early `return`.  Every merge
shortens the list, so its length bounds the rounds. -/
def mergeNeighbours : Nat → List VirtRange → Nat → Nat → List VirtRange × Option VirtRange
  | 0, ranges, base, count => (ranges, some ⟨base, count⟩)
  | rounds + 1, ranges, base, count =>
      match pagesToBytesSafe count with
      | none => (ranges, none)
      | some bytes =>
          match addOverflowU64 base bytes with
          | none => (ranges, none)
          | some fin =>
              match findNeighbour base fin ranges 0 with
              | .overflow => (ranges, none)
              | .below index =>
                  mergeNeighbours rounds (swapRemove ranges index) (ranges.getD index ⟨0, 0⟩).base
                    ((count + (ranges.getD index ⟨0, 0⟩).count) % 2 ^ 64)
              | .above index =>
                  mergeNeighbours rounds (swapRemove ranges index) base
                    ((count + (ranges.getD index ⟨0, 0⟩).count) % 2 ^ 64)
              | .absent => (ranges, some ⟨base, count⟩)

def virtFreeListCap : Nat := 256

def virtFreeRangeAdd (ranges : List VirtRange) (base count : Nat) : List VirtRange :=
  if base = 0 ∨ count = 0 then ranges
  else if alignUpPage base = 0 then ranges
  else match mergeNeighbours (ranges.length + 1) ranges (alignUpPage base) count with
  | (left, none) => left
  | (left, some range) => if left.length < virtFreeListCap then left ++ [range] else left

/-- `virt_free_range_take`: the base of a freed range of `count` pages and the
list without it. -/
def virtFreeRangeTake (ranges : List VirtRange) (count : Nat) : Option (Nat × List VirtRange) :=
  if count = 0 then none
  else match ranges.findIdx? (fun range => range.count ≥ count) with
  | none => none
  | some index =>
      let range := ranges.getD index ⟨0, 0⟩
      if range.count = count then some (range.base, swapRemove ranges index)
      else some (range.base, ranges.set index
        ⟨(range.base + count * 4096) % 2 ^ 64, range.count - count⟩)

/-- A stored or live range: not empty, page aligned, not at address 0, below `limit`. -/
structure VirtRange.Sound (limit : Nat) (range : VirtRange) : Prop where
  nonempty : 0 < range.count
  aligned : range.base % 4096 = 0
  nonzero : 0 < range.base
  below : range.base + range.count * 4096 ≤ limit

def RangesApart (ranges : List VirtRange) : Prop :=
  ranges.Pairwise fun r s => r.span.Apart s.span

variable {ranges others left : List VirtRange} {base count fin limit rounds index : Nat}

theorem RangesApart.perm {other : List VirtRange} (apart : RangesApart ranges)
    (same : ranges.Perm other) : RangesApart other :=
  (same.pairwise_iff (fun apart => apart.symm)).mp apart

theorem addOverflowU64_some {a b sum : Nat} (added : addOverflowU64 a b = some sum) :
    sum = a + b := by
  unfold addOverflowU64 at added
  split at added
  · contradiction
  · exact (Option.some.inj added).symm

theorem addOverflowU64_of_lt {a b : Nat} (fits : a + b < 2 ^ 64) :
    addOverflowU64 a b = some (a + b) := by
  rw [addOverflowU64, if_neg (by unfold u64Max; omega)]

theorem pagesToBytesSafe_some {pages bytes : Nat} (scaled : pagesToBytesSafe pages = some bytes) :
    bytes = pages * 4096 := by
  unfold pagesToBytesSafe at scaled
  split at scaled
  · contradiction
  · exact (Option.some.inj scaled).symm

theorem findNeighbour_touches {start : Nat} :
    (findNeighbour base fin ranges start = .below index →
      ∃ range, ranges[index - start]? = some range ∧ start ≤ index ∧
        range.base + range.count * 4096 = base) ∧
    (findNeighbour base fin ranges start = .above index →
      ∃ range, ranges[index - start]? = some range ∧ start ≤ index ∧ fin = range.base) := by
  induction ranges generalizing start with
  | nil => simp [findNeighbour]
  | cons current rest ih =>
      rw [findNeighbour]
      cases scaled : pagesToBytesSafe current.count with
      | none => simp
      | some bytes =>
          cases added : addOverflowU64 current.base bytes with
          | none => simp [added]
          | some currentEnd =>
              have stop := addOverflowU64_some added
              have size := pagesToBytesSafe_some scaled
              simp only [added]
              by_cases touchesBelow : currentEnd = base
              · rw [if_pos touchesBelow]
                constructor
                · intro found
                  cases found
                  exact ⟨current, by simp, Nat.le_refl _, by omega⟩
                · intro found
                  contradiction
              · rw [if_neg touchesBelow]
                by_cases touchesAbove : fin = current.base
                · rw [if_pos touchesAbove]
                  constructor
                  · intro found
                    contradiction
                  · intro found
                    cases found
                    exact ⟨current, by simp, Nat.le_refl _, touchesAbove⟩
                · rw [if_neg touchesAbove]
                  have shift (later : start + 1 ≤ index) :
                      (current :: rest)[index - start]? = rest[index - (start + 1)]? := by
                    rw [show index - start = index - (start + 1) + 1 by omega,
                      List.getElem?_cons_succ]
                  constructor
                  · intro found
                    obtain ⟨range, lookup, later, stop⟩ := ih.1 found
                    exact ⟨range, (shift later).trans lookup, by omega, stop⟩
                  · intro found
                    obtain ⟨range, lookup, later, stop⟩ := ih.2 found
                    exact ⟨range, (shift later).trans lookup, by omega, stop⟩

theorem swapRemove_splits {range : VirtRange} (lookup : ranges[index]? = some range) :
    (range :: swapRemove ranges index).Perm ranges ∧ ranges.getD index ⟨0, 0⟩ = range := by
  obtain ⟨bound, same⟩ := List.getElem?_eq_some_iff.mp lookup
  refine ⟨?_, by simp [List.getD_eq_getElem?_getD, lookup]⟩
  rw [← same]
  exact swapRemove_cons_perm bound

theorem RangesApart.merge (low high : VirtRange) {joined : VirtRange}
    (touch : low.span.stop = high.span.start)
    (start : joined.span.start = low.span.start) (stop : joined.span.stop = high.span.stop)
    (nonempty : ∀ range ∈ ranges, 0 < range.count)
    (apart : RangesApart (low :: high :: ranges)) : RangesApart (joined :: ranges) := by
  obtain ⟨lowApart, highRest⟩ := List.pairwise_cons.mp apart
  obtain ⟨highApart, restApart⟩ := List.pairwise_cons.mp highRest
  refine List.pairwise_cons.mpr ⟨?_, restApart⟩
  intro range member
  have some := nonempty range member
  have united := (lowApart range (by simp [member])).join (highApart range member) touch
    (by simp only [VirtRange.span]; omega)
  rw [← start, ← stop] at united
  exact united

theorem join_neighbour {range : VirtRange} (start : Nat) (small : limit ≤ 2 ^ 47)
    (sound : ∀ range ∈ ⟨base, count⟩ :: ranges, range.Sound limit)
    (nonempty : ∀ range ∈ others, 0 < range.count)
    (apart : RangesApart (⟨base, count⟩ :: (ranges ++ others)))
    (lookup : ranges[index]? = some range) (place : start = min base range.base)
    (touch : range.base + range.count * 4096 = base ∨ base + count * 4096 = range.base) :
    (count + range.count) % 2 ^ 64 = count + range.count ∧
      (∀ other ∈ ⟨start, count + range.count⟩ :: swapRemove ranges index, other.Sound limit) ∧
      RangesApart (⟨start, count + range.count⟩ :: (swapRemove ranges index ++ others)) := by
  obtain ⟨split, _⟩ := swapRemove_splits lookup
  have kept : ∀ other ∈ swapRemove ranges index, other ∈ ranges := fun other inside =>
    split.subset (by simp [inside])
  obtain ⟨newNonempty, newAligned, newNonzero, newBelow⟩ := sound ⟨base, count⟩ (by simp)
  obtain ⟨oldNonempty, oldAligned, oldNonzero, oldBelow⟩ :=
    sound range (by simp [List.mem_of_getElem? lookup])
  simp only at newNonempty newAligned newNonzero newBelow
  refine ⟨Nat.mod_eq_of_lt (by omega), ?_, ?_⟩
  · intro other inside
    rcases List.mem_cons.mp inside with rfl | inside
    · constructor <;> simp only <;> omega
    · exact sound other (by simp [kept other inside])
  · have restNonempty : ∀ other ∈ swapRemove ranges index ++ others, 0 < other.count := by
      intro other inside
      rcases List.mem_append.mp inside with inside | inside
      · exact (sound other (by simp [kept other inside])).nonempty
      · exact nonempty other inside
    have opened : RangesApart (⟨base, count⟩ :: range :: (swapRemove ranges index ++ others)) :=
      apart.perm ((split.symm.append_right others).cons _)
    rcases touch with touch | touch
    · exact RangesApart.merge range ⟨base, count⟩ touch (by simp only [VirtRange.span]; omega)
        (by simp only [VirtRange.span]; omega) restNonempty (opened.perm (List.Perm.swap _ _ _))
    · exact RangesApart.merge ⟨base, count⟩ range touch (by simp only [VirtRange.span]; omega)
        (by simp only [VirtRange.span]; omega) restNonempty opened

theorem mergeNeighbours_apart {pending : Option VirtRange} (small : limit ≤ 2 ^ 47)
    (sound : ∀ range ∈ ⟨base, count⟩ :: ranges, range.Sound limit)
    (nonempty : ∀ range ∈ others, 0 < range.count)
    (apart : RangesApart (⟨base, count⟩ :: (ranges ++ others)))
    (merged : mergeNeighbours rounds ranges base count = (left, pending)) :
    RangesApart (pending.toList ++ (left ++ others)) ∧
      ∀ range ∈ pending.toList ++ left, range.Sound limit := by
  induction rounds generalizing ranges base count with
  | zero =>
      obtain ⟨rfl, rfl⟩ := Prod.mk.inj merged
      exact ⟨apart, sound⟩
  | succ rounds ih =>
      have dropped : RangesApart (ranges ++ others) ∧ ∀ range ∈ ranges, range.Sound limit :=
        ⟨(List.pairwise_cons.mp apart).2, fun range member => sound range (by simp [member])⟩
      rw [mergeNeighbours] at merged
      cases scaled : pagesToBytesSafe count with
      | none =>
          simp only [scaled, Prod.mk.injEq] at merged
          obtain ⟨rfl, rfl⟩ := merged
          exact dropped
      | some bytes =>
          cases added : addOverflowU64 base bytes with
          | none =>
              simp only [scaled, added, Prod.mk.injEq] at merged
              obtain ⟨rfl, rfl⟩ := merged
              exact dropped
          | some fin =>
              have stop := addOverflowU64_some added
              have size := pagesToBytesSafe_some scaled
              simp only [scaled, added] at merged
              cases found : findNeighbour base fin ranges 0 with
              | overflow =>
                  simp only [found, Prod.mk.injEq] at merged
                  obtain ⟨rfl, rfl⟩ := merged
                  exact dropped
              | absent =>
                  simp only [found, Prod.mk.injEq] at merged
                  obtain ⟨rfl, rfl⟩ := merged
                  exact ⟨apart, sound⟩
              | below index =>
                  obtain ⟨range, lookup, _, stopBelow⟩ := findNeighbour_touches.1 found
                  rw [Nat.sub_zero] at lookup
                  obtain ⟨total, soundAfter, apartAfter⟩ := join_neighbour range.base
                    small sound nonempty apart lookup (by omega) (.inl stopBelow)
                  simp only [found, (swapRemove_splits lookup).2, total] at merged
                  exact ih soundAfter apartAfter merged
              | above index =>
                  obtain ⟨range, lookup, _, startAbove⟩ := findNeighbour_touches.2 found
                  rw [Nat.sub_zero] at lookup
                  obtain ⟨total, soundAfter, apartAfter⟩ := join_neighbour base
                    small sound nonempty apart lookup (by omega) (.inr (by omega))
                  simp only [found, (swapRemove_splits lookup).2, total] at merged
                  exact ih soundAfter apartAfter merged

theorem virtFreeRangeAdd_apart (small : limit ≤ 2 ^ 47)
    (sound : ∀ range ∈ ⟨base, count⟩ :: ranges, range.Sound limit)
    (nonempty : ∀ range ∈ others, 0 < range.count)
    (apart : RangesApart (⟨base, count⟩ :: (ranges ++ others))) :
    RangesApart (virtFreeRangeAdd ranges base count ++ others) ∧
      ∀ range ∈ virtFreeRangeAdd ranges base count, range.Sound limit := by
  obtain ⟨newNonempty, newAligned, newNonzero, newBelow⟩ := sound ⟨base, count⟩ (by simp)
  simp only at newNonempty newAligned newNonzero newBelow
  have alignedUp : alignUpPage base = base := by
    unfold alignUpPage
    omega
  rw [virtFreeRangeAdd, if_neg (by omega), if_neg (by omega), alignedUp]
  cases merged : mergeNeighbours (ranges.length + 1) ranges base count with
  | mk left pending =>
      obtain ⟨apartAfter, soundAfter⟩ := mergeNeighbours_apart small sound nonempty apart merged
      cases pending with
      | none => exact ⟨apartAfter, soundAfter⟩
      | some range =>
          simp only [Option.toList_some, List.cons_append, List.nil_append] at apartAfter soundAfter
          have dropped := (List.pairwise_cons.mp apartAfter).2
          simp only
          split
          · refine ⟨apartAfter.perm ?_, fun other member => soundAfter other ?_⟩
            · rw [List.append_assoc]
              exact List.perm_middle.symm
            · simpa [or_comm] using member
          · exact ⟨dropped, fun other member => soundAfter other (by simp [member])⟩

theorem VirtRange.Sound.cut {range : VirtRange} {middle : Nat} (sound : range.Sound limit)
    (place : range.base + count * 4096 = middle) (some : 0 < count) (part : count < range.count) :
    (⟨range.base, count⟩ : VirtRange).Sound limit ∧
      (⟨middle, range.count - count⟩ : VirtRange).Sound limit ∧
      middle + (range.count - count) * 4096 = range.base + range.count * 4096 := by
  obtain ⟨nonempty, aligned, nonzero, below⟩ := sound
  obtain ⟨rest, sizes⟩ : ∃ rest, range.count = count + rest := ⟨range.count - count, by omega⟩
  have restSize : range.count - count = rest := by omega
  rw [restSize]
  have sameEnd : middle + rest * 4096 = range.base + range.count * 4096 := by omega
  have lowEnd : middle ≤ limit := by omega
  refine ⟨⟨some, aligned, nonzero, ?_⟩, ⟨?_, ?_, ?_, ?_⟩, sameEnd⟩
  · rw [place]
    exact lowEnd
  · show 0 < rest
    omega
  · show middle % 4096 = 0
    omega
  · show 0 < middle
    omega
  · rw [sameEnd]
    exact below

theorem virtFreeRangeTake_apart (small : limit ≤ 2 ^ 47)
    (sound : ∀ range ∈ ranges, range.Sound limit) (apart : RangesApart (ranges ++ others))
    (taken : virtFreeRangeTake ranges count = some (base, left)) :
    RangesApart (⟨base, count⟩ :: (left ++ others)) ∧
      ∀ range ∈ ⟨base, count⟩ :: left, range.Sound limit := by
  rw [virtFreeRangeTake] at taken
  split at taken
  · contradiction
  split at taken
  · contradiction
  rename_i index found
  obtain ⟨bound, fits, _⟩ := List.findIdx?_eq_some_iff_getElem.mp found
  obtain ⟨range, same⟩ : ∃ range, ranges[index] = range := ⟨_, rfl⟩
  have lookup : ranges[index]? = some range := List.getElem?_eq_some_iff.mpr ⟨bound, same⟩
  have large : count ≤ range.count := by simpa [same] using fits
  obtain ⟨split, chosen⟩ := swapRemove_splits lookup
  have chosenSound := sound range (List.mem_of_getElem? lookup)
  simp only [chosen] at taken
  by_cases whole : range.count = count
  · rw [if_pos whole] at taken
    cases taken
    subst whole
    refine ⟨apart.perm (split.symm.append_right others), fun other member => sound other ?_⟩
    exact split.subset member
  · rw [if_neg whole] at taken
    obtain ⟨middle, place⟩ : ∃ middle, range.base + count * 4096 = middle := ⟨_, rfl⟩
    obtain ⟨lowSound, highSound, sameEnd⟩ :=
      chosenSound.cut place (by omega) (by omega)
    have noWrap : middle % 2 ^ 64 = middle := by
      have := chosenSound.below
      exact Nat.mod_eq_of_lt (by omega)
    rw [place, noWrap] at taken
    cases taken
    -- the stored range splits into what is handed out and what stays
    have replaced : (ranges.set index ⟨middle, range.count - count⟩).Perm
        (⟨middle, range.count - count⟩ :: swapRemove ranges index) :=
      (List.set_perm_cons_eraseIdx bound _).trans ((swapRemove_perm bound).symm.cons _)
    have opened : RangesApart (range :: (swapRemove ranges index ++ others)) :=
      apart.perm (split.symm.append_right others)
    obtain ⟨rangeApart, restApart⟩ := List.pairwise_cons.mp opened
    have lowEnd : range.base + count * 4096 ≤ range.base + range.count * 4096 := by omega
    have highStart : range.base ≤ middle := by omega
    refine ⟨RangesApart.perm ?_ ((replaced.symm.append_right others).cons _), ?_⟩
    · refine List.pairwise_cons.mpr ⟨?_, List.pairwise_cons.mpr ⟨?_, restApart⟩⟩
      · intro other member
        rcases List.mem_cons.mp member with rfl | member
        · exact Or.inl (Nat.le_of_eq place)
        · exact (rangeApart other member).shrink (Nat.le_refl range.base) lowEnd
      · intro other member
        exact (rangeApart other member).shrink highStart (Nat.le_of_eq sameEnd)
    · intro other member
      rcases List.mem_cons.mp member with rfl | member
      · exact lowSound
      · rcases List.mem_cons.mp (replaced.subset member) with rfl | member
        · exact highSound
        · exact sound other (split.subset (by simp [member]))

theorem VirtRange.Sound.mono {range : VirtRange} {higher : Nat} (sound : range.Sound limit)
    (raised : limit ≤ higher) : range.Sound higher :=
  ⟨sound.nonempty, sound.aligned, sound.nonzero, Nat.le_trans sound.below raised⟩

theorem findNeighbour_absent {start : Nat} (small : base ≤ 2 ^ 47) (later : base ≤ fin)
    (sound : ∀ range ∈ ranges, range.Sound base)
    (untouched : ∀ range ∈ ranges, range.base + range.count * 4096 ≠ base) :
    findNeighbour base fin ranges start = .absent := by
  induction ranges generalizing start with
  | nil => rfl
  | cons current rest ih =>
      obtain ⟨nonempty, _, _, below⟩ := sound current (by simp)
      have scaled : pagesToBytesSafe current.count = some (current.count * 4096) := by
        rw [pagesToBytesSafe, if_neg (by unfold u64Max; omega)]
      have added : addOverflowU64 current.base (current.count * 4096) =
          some (current.base + current.count * 4096) := addOverflowU64_of_lt (by omega)
      rw [findNeighbour, scaled]
      simp only [added]
      rw [if_neg (untouched current (by simp)), if_neg (by omega)]
      exact ih (fun range member => sound range (by simp [member]))
        fun range member => untouched range (by simp [member])

/-- The ranges above every stored one that `virt_free_range_add` does not store: those
that do not fit in 64 bits and, when the list is full, those that no entry reaches up to. -/
def RangeDropped (ranges : List VirtRange) (base count : Nat) : Prop :=
  2 ^ 64 ≤ base + count * 4096 ∨
    virtFreeListCap ≤ ranges.length ∧
      ∀ range ∈ ranges, range.base + range.count * 4096 ≠ base

theorem virtFreeRangeAdd_dropped (small : base ≤ 2 ^ 47) (aligned : base % 4096 = 0)
    (sound : ∀ range ∈ ranges, range.Sound base) (dropped : RangeDropped ranges base count) :
    virtFreeRangeAdd ranges base count = ranges := by
  have alignedUp : alignUpPage base = base := by
    unfold alignUpPage
    omega
  by_cases nothing : base = 0 ∨ count = 0
  · rw [virtFreeRangeAdd, if_pos nothing]
  rw [virtFreeRangeAdd, if_neg nothing, if_neg (by omega), alignedUp, mergeNeighbours]
  cases scaled : pagesToBytesSafe count with
  | none => rfl
  | some bytes =>
      have size := pagesToBytesSafe_some scaled
      cases added : addOverflowU64 base bytes with
      | none => simp only [added]
      | some fin =>
          have stop := addOverflowU64_some added
          rcases dropped with wraps | ⟨full, untouched⟩
          · rw [addOverflowU64, if_pos (by unfold u64Max; omega)] at added
            contradiction
          · simp only [added, findNeighbour_absent small (show base ≤ fin by omega) sound untouched]
            rw [if_neg (by omega)]

end Cos.Paging
