import Cos.Paging.MmapRegions
import Mathlib.Data.List.Basic

/-! # The regions of a process over whole runs

An address lies in at most one region, and a page that is resident lies in one whose permissions it
has.
-/

namespace Cos.Mmap

structure RegionOk (nextOffset : Nat) (r : Region) : Prop where
  nonempty : r.start < r.stop
  aligned : r.start % pageSize = 0 ∧ r.stop % pageSize = 0
  within : mmapBase ≤ r.start ∧ r.stop ≤ mmapBase + nextOffset
  exclusive : ¬(r.writable = true ∧ r.executable = true)

variable {nx : Bool} {p q : Proc} {i j found : Slot} {a addr page rounded : Nat}

namespace Proc

structure Ok (nx : Bool) (p : Proc) : Prop where
  region : ∀ i, (p.regions i).used = true → RegionOk p.nextOffset (p.regions i)
  apart : ∀ i j, i ≠ j → (p.regions i).used = true → (p.regions j).used = true →
    Lib.Span.Apart ⟨(p.regions i).start, (p.regions i).stop⟩
    ⟨(p.regions j).start, (p.regions j).stop⟩
  resident : ∀ page i flags, p.covers (page * pageSize) i = true → p.pages page = some flags →
    flags = protFlags nx (p.regions i).writable (p.regions i).executable

structure Sound (nx : Bool) (p : Proc) : Prop extends Ok nx p where
  offset : p.nextOffset % pageSize = 0 ∧ p.nextOffset ≤ mmapMaxTotal
  backed : ∀ page, InWindow page → p.pages page ≠ none → ∃ i, p.covers (page * pageSize) i = true

theorem covers_iff :
    p.covers a i = true ↔
    (p.regions i).used = true ∧ (p.regions i).start ≤ a ∧ a < (p.regions i).stop := by
  simp only [covers, Bool.and_eq_true, decide_eq_true_eq, and_assoc]

def Unique (p : Proc) : Prop := ∀ a i j, p.covers a i = true → p.covers a j = true → i = j

theorem Ok.unique (ok : Ok nx p) : p.Unique := by
  intro a i j first second
  by_contra different
  rw [covers_iff] at first second
  have apart := ok.apart i j different first.1 second.1
  simp only [Lib.Span.Apart] at apart
  omega

theorem Unique.apart (unique : p.Unique) (different : i ≠ j) (first : (p.regions i).used = true)
    (second : (p.regions j).used = true)
    (nonempty : (p.regions i).start < (p.regions i).stop ∧
    (p.regions j).start < (p.regions j).stop) :
    Lib.Span.Apart ⟨(p.regions i).start, (p.regions i).stop⟩
    ⟨(p.regions j).start, (p.regions j).stop⟩ := by
  simp only [Lib.Span.Apart]
  by_contra meet
  -- the larger of the two starts lies in both
  exact different (unique (max (p.regions i).start (p.regions j).start) i j (covers_iff.mpr ⟨first, by omega, by omega⟩)
    (covers_iff.mpr ⟨second, by omega, by omega⟩))

theorem Unique.sound (unique : p.Unique)
    (region : ∀ i, (p.regions i).used = true → RegionOk p.nextOffset (p.regions i))
    (resident : ∀ page i flags, p.covers (page * pageSize) i = true → p.pages page = some flags →
      flags = protFlags nx (p.regions i).writable (p.regions i).executable)
    (offset : p.nextOffset % pageSize = 0 ∧ p.nextOffset ≤ mmapMaxTotal)
    (backed : ∀ page, InWindow page → p.pages page ≠ none →
    ∃ i, p.covers (page * pageSize) i = true) : Sound nx p :=
  ⟨⟨region, fun i j different first second =>
    unique.apart different first second ⟨(region i first).nonempty, (region j second).nonempty⟩,
      resident⟩, offset, backed⟩

def protection (p : Proc) (a : Nat) : Option (Bool × Bool) :=
  (slots.find? (p.covers a)).map fun i => ((p.regions i).writable, (p.regions i).executable)

theorem find_slot {test : Slot → Bool} (holds : test i = true) :
    ∃ j, slots.find? test = some j ∧ test j = true := by
  cases found : slots.find? test with
  | some j => exact ⟨j, rfl, List.find?_some found⟩
  | none => exact absurd holds (List.find?_eq_none.mp found i (List.mem_finRange i))

theorem Unique.protection (unique : p.Unique) (covers : p.covers a i = true) :
    p.protection a = some ((p.regions i).writable, (p.regions i).executable) := by
  obtain ⟨j, found, inside⟩ := find_slot covers
  rw [Proc.protection, found, Option.map_some, unique a j i inside covers]

theorem protection_none (outside : ∀ i, p.covers a i = false) : p.protection a = none := by
  rw [Proc.protection, List.find?_eq_none.mpr fun i _ => by simp [outside i], Option.map_none]

theorem protection_congr (first : q.Unique) (second : p.Unique)
    (comes : ∀ j, q.covers a j = true → ∃ i, p.covers a i = true ∧
      ((q.regions j).writable, (q.regions j).executable) =
      ((p.regions i).writable, (p.regions i).executable))
    (stays : ∀ i, p.covers a i = true → ∃ j, q.covers a j = true) :
    q.protection a = p.protection a := by
  by_cases covered : ∃ i, p.covers a i = true
  · obtain ⟨i, old⟩ := covered
    obtain ⟨j, inside⟩ := stays i old
    obtain ⟨i', old', same⟩ := comes j inside
    rw [first.protection inside, same, second.protection old']
  · have none : ∀ i, p.covers a i = false := fun i => Bool.eq_false_iff.mpr fun inside =>
      covered ⟨i, inside⟩
    rw [protection_none none]
    refine protection_none fun j => Bool.eq_false_iff.mpr fun inside => ?_
    obtain ⟨i, old, -⟩ := comes j inside
    simp [none i] at old

end Proc

theorem roundUp_of_lt {length : Nat} (small : length + pageSize - 1 < word) :
    roundUp length % pageSize = 0 ∧ length ≤ roundUp length ∧
    roundUp length < length + pageSize := by
  simp only [roundUp, wrap, pageSize, word] at *
  omega

theorem roundUp_of_ge {length : Nat} (large : word ≤ length + pageSize - 1)
    (bound : length < word) : roundUp length = 0 := by
  simp only [roundUp, wrap, pageSize, word] at *
  omega

theorem leaf_page (small : page < 68719476736) : Proc.leaf (page * pageSize) = page := by
  simp only [Proc.leaf, pageSize]
  omega

theorem fold_pages (change : Option Flags → Option Flags) (pages : Nat → Option Flags)
    (first count : Nat) :
    (List.range count).foldl
      (fun pages i => Function.update pages (first + i) (change (pages (first + i)))) pages =
      fun n => if first ≤ n ∧ n < first + count then change (pages n) else pages n := by
  induction count with
  | zero =>
      funext n
      rw [if_neg (by omega)]
      rfl
  | succ count ih =>
      rw [List.range_succ, List.foldl_append, ih]
      funext n
      simp only [List.foldl_cons, List.foldl_nil, Function.update_apply]
      by_cases last : n = first + count
      · subst last
        rw [if_pos rfl, if_neg (by omega), if_pos ⟨by omega, by omega⟩]
      · rw [if_neg last]
        exact if_congr (by omega) rfl rfl

namespace Proc

variable {pages : Nat → Option Flags} {flags : Flags} {virt count n : Nat}

theorem leaf_add (aligned : virt % pageSize = 0) (low : virt + count * pageSize ≤ 281474976710656)
    {k : Nat} (inside : k < count) : leaf (virt + k * pageSize) = virt / pageSize + k := by
  simp only [leaf, pageSize] at *
  omega

theorem releaseUserRange_eq (aligned : virt % pageSize = 0) (positive : virt ≠ 0)
    (low : virt + count * pageSize ≤ 281474976710656) :
    releaseUserRange pages virt count =
      fun n => if virt / pageSize ≤ n ∧ n < virt / pageSize + count then none else pages n := by
  rw [releaseUserRange, if_neg positive, ← fold_pages fun _ => none]
  apply List.foldl_ext
  intro pages k inside
  rw [List.mem_range] at inside
  rw [if_pos (by simp only [word, pageSize] at *; omega), unmapPage, leaf_add aligned low inside]

theorem protectPages_eq (aligned : virt % pageSize = 0)
    (low : virt + count * pageSize ≤ 281474976710656) : protectPages pages virt count flags =
      fun n => if virt / pageSize ≤ n ∧
      n < virt / pageSize + count then (pages n).map fun _ => flags else pages n := by
  rw [protectPages, ← fold_pages (Option.map fun _ => flags)]
  apply List.foldl_ext
  intro pages k inside
  rw [List.mem_range] at inside
  have same : wrap (virt + k * pageSize) = virt + k * pageSize :=
    Nat.mod_eq_of_lt (by simp only [word, pageSize] at *; omega)
  rw [pagingProtectPage, same, leaf_add aligned low inside]
  cases present : pages (virt / pageSize + k) with
  | none =>
      have unchanged := Function.update_eq_self (virt / pageSize + k) pages
      rw [present] at unchanged
      exact unchanged.symm
  | some old => rfl

theorem setRegion_regions (region : Region) :
    (p.setRegion i region).regions j = if j = i then region else p.regions j :=
  Function.update_apply p.regions i region j

/-- A fresh region behind all that were ever handed out. -/
def place (p : Proc) (slot : Slot) (size : Nat) (writable : Bool) : Proc :=
  { p.setRegion slot ⟨mmapBase + p.nextOffset, mmapBase + p.nextOffset + size, true, writable, false⟩ with
    nextOffset := p.nextOffset + size }

theorem cosMmapAlloc_cases (bounded : p.nextOffset ≤ mmapMaxTotal) (length : Nat)
    (writable : Bool) : p.cosMmapAlloc length writable = (p, none) ∨
    ∃ slot, p.free slot = true ∧ length ≠ 0 ∧ p.nextOffset + roundUp length ≤ mmapMaxTotal ∧
      p.cosMmapAlloc length writable =
      (p.place slot (roundUp length) writable, some (mmapBase + p.nextOffset)) := by
  have rounded : roundUp length < word := by
    simp only [roundUp, wrap, pageSize, word]
    omega
  rw [cosMmapAlloc]
  by_cases none : length = 0
  · exact .inl (if_pos none)
  rw [if_neg none]
  simp only
  by_cases less : wrap (p.nextOffset + roundUp length) < p.nextOffset
  · exact .inl (if_pos less)
  rw [if_neg less]
  have exact_sum : wrap (p.nextOffset + roundUp length) = p.nextOffset + roundUp length := by
    simp only [wrap, word, mmapMaxTotal] at *
    omega
  rw [exact_sum]
  by_cases over_cap : p.nextOffset + roundUp length > mmapMaxTotal
  · exact .inl (if_pos over_cap)
  rw [if_neg over_cap]
  cases found : slots.find? p.free with
  | none => exact .inl rfl
  | some slot =>
      have low : wrap (mmapBase + p.nextOffset) = mmapBase + p.nextOffset := by
        simp only [wrap, word, mmapMaxTotal, mmapBase] at *
        omega
      have high : wrap (mmapBase + p.nextOffset + roundUp length) = mmapBase + p.nextOffset + roundUp length := by
        simp only [wrap, word, mmapMaxTotal, mmapBase] at *
        omega
      refine .inr ⟨slot, List.find?_some found, none, Nat.le_of_not_gt over_cap, ?_⟩
      simp only [low, high, place]

variable {slot : Slot} {size : Nat} {writable : Bool}

theorem place_region : (p.place slot size writable).regions j =
    if j = slot then ⟨mmapBase + p.nextOffset, mmapBase + p.nextOffset + size, true, writable,
    false⟩ else p.regions j :=
  setRegion_regions _

theorem place_covers : (p.place slot size writable).covers a j = true ↔
    (j = slot ∧ mmapBase + p.nextOffset ≤ a ∧ a < mmapBase + p.nextOffset + size) ∨
    (j ≠ slot ∧ p.covers a j = true) := by
  simp only [covers_iff, place_region]
  by_cases same : j = slot
  · simp [same]
  · simp [same]

theorem Ok.covers_below (ok : Ok nx p) (inside : p.covers a i = true) :
    mmapBase ≤ a ∧ a < mmapBase + p.nextOffset := by
  rw [covers_iff] at inside
  have within := (ok.region i inside.1).within
  omega

theorem covers_used (inside : p.covers a i = true) : p.free i = false := by
  rw [free, (covers_iff.mp inside).1, Bool.not_true]

theorem Sound.place (sound : Sound nx p) (free : p.free slot = true) (positive : 0 < size)
    (aligned : size % pageSize = 0) (room : p.nextOffset + size ≤ mmapMaxTotal) :
    Sound nx (p.place slot size writable) := by
  obtain ⟨alignedOffset, -⟩ := sound.offset
  have used_ne : ∀ {a j}, p.covers a j = true → j ≠ slot := by
    rintro a j inside rfl
    simp [covers_used inside] at free
  apply Unique.sound
  · intro a i j first second
    rw [place_covers] at first second
    obtain ⟨rfl, lower, -⟩ | ⟨-, first⟩ := first
    · obtain ⟨rfl, -⟩ | ⟨-, second⟩ := second
      · rfl
      · have below := sound.covers_below second
        omega
    · obtain ⟨rfl, lower, -⟩ | ⟨-, second⟩ := second
      · have below := sound.covers_below first
        omega
      · exact sound.unique a i j first second
  · intro i used
    rw [place_region] at used ⊢
    split at used
    · rw [if_pos ‹_›]
      exact ⟨by simp only; omega, by simp only [mmapBase, pageSize] at *; omega, by simp only [Proc.place]; omega, by simp⟩
    · rw [if_neg ‹_›]
      obtain ⟨nonempty, aligned, within, exclusive⟩ := sound.region i used
      exact ⟨nonempty, aligned, ⟨within.1, by simp only [Proc.place]; omega⟩, exclusive⟩
  · intro page i flags inside present
    rw [place_covers] at inside
    obtain ⟨rfl, lower, upper⟩ | ⟨other, inside⟩ := inside
    · -- nothing was resident behind the last region
      obtain ⟨j, old⟩ := sound.backed page (by simp only [InWindow, mmapBase, mmapMaxTotal, pageSize] at *; omega)
        (by rw [show p.pages page = some flags from present]; exact Option.some_ne_none flags)
      have below := sound.covers_below old
      omega
    · rw [place_region, if_neg other]
      exact sound.resident page i flags inside present
  · exact ⟨by simp only [Proc.place, pageSize] at *; omega, room⟩
  · intro page window present
    obtain ⟨j, inside⟩ := sound.backed page window present
    exact ⟨j, place_covers.mpr (.inr ⟨used_ne inside, inside⟩)⟩

/-- A region leaves the table and its pages leave the page table. -/
def remove (p : Proc) (slot : Slot) : Proc :=
  { p.setRegion slot { p.regions slot with used := false } with
    pages := fun n => if (p.regions slot).start / pageSize ≤ n ∧ n < (p.regions slot).stop / pageSize then none else p.pages n }

theorem cosMmapFree_cases (sound : Sound nx p) (addr length : Nat) :
    p.cosMmapFree addr length = (p, false) ∨
    ∃ slot, (p.regions slot).used = true ∧ (p.regions slot).start = addr ∧
      (p.regions slot).stop - addr = roundUp length ∧
      p.cosMmapFree addr length = (p.remove slot, true) := by
  rw [cosMmapFree]
  cases found : slots.find? (p.matchesExactly addr (roundUp length)) with
  | none => exact .inl rfl
  | some slot =>
      have isMatch := List.find?_some found
      simp only [matchesExactly, Bool.and_eq_true, beq_iff_eq] at isMatch
      obtain ⟨⟨used, start⟩, size⟩ := isMatch
      obtain ⟨nonempty, aligned, within, -⟩ := sound.region slot used
      have capped := sound.offset.2
      have span : wrap ((p.regions slot).stop + word - (p.regions slot).start) = (p.regions slot).stop - (p.regions slot).start := by
        simp only [wrap, word, mmapBase, mmapMaxTotal] at *
        omega
      refine .inr ⟨slot, used, start, by rw [← size, span, start], ?_⟩
      have pages : (p.regions slot).start / pageSize + ((p.regions slot).stop - (p.regions slot).start) / pageSize =
          (p.regions slot).stop / pageSize := by
        simp only [pageSize] at *
        omega
      simp only [span]
      rw [releaseUserRange_eq aligned.1 (by simp only [mmapBase] at *; omega)
        (by simp only [mmapBase, mmapMaxTotal, pageSize] at *; omega), pages]
      rfl

theorem remove_covers : (p.remove slot).covers a j = true ↔ j ≠ slot ∧ p.covers a j = true := by
  simp only [covers_iff, show (p.remove slot).regions j = _ from setRegion_regions _]
  by_cases same : j = slot
  · simp [same]
  · simp [same]

theorem Sound.remove (sound : Sound nx p) (used : (p.regions slot).used = true) :
    Sound nx (p.remove slot) := by
  obtain ⟨-, aligned, within, -⟩ := sound.region slot used
  apply Unique.sound
  · intro a i j first second
    exact sound.unique a i j (remove_covers.mp first).2 (remove_covers.mp second).2
  · intro i used
    rw [show (p.remove slot).regions i = _ from setRegion_regions _] at used ⊢
    split at used
    · cases used
    · rw [if_neg ‹_›]
      exact sound.region i used
  · intro page i flags inside present
    obtain ⟨other, inside⟩ := remove_covers.mp inside
    rw [show (p.remove slot).regions i = _ from setRegion_regions _, if_neg other]
    refine sound.resident page i flags inside ?_
    simp only [Proc.remove] at present
    split at present
    · cases present
    · exact present
  · exact sound.offset
  · intro page window present
    simp only [Proc.remove] at present
    split at present
    · exact absurd rfl present
    · obtain ⟨j, inside⟩ := sound.backed page window present
      refine ⟨j, remove_covers.mpr ⟨?_, inside⟩⟩
      rintro rfl
      rw [covers_iff] at inside
      simp only [pageSize] at *
      omega

variable {stop : Nat} {front back : Option Slot} {wantWrite wantExec : Bool}

/-- Where the parts of a region go that keep their protection. -/
structure Fits (p : Proc) (found : Slot) (addr stop : Nat) (front back : Option Slot) : Prop where
  used : (p.regions found).used = true
  bounds : (p.regions found).start ≤ addr ∧ addr < stop ∧ stop ≤ (p.regions found).stop
  noFront : front = none → (p.regions found).start = addr
  frontFree : ∀ i, front = some i → p.free i = true ∧ i ≠ found ∧ (p.regions found).start < addr
  noBack : back = none → (p.regions found).stop = stop
  backFree : ∀ i, back = some i →
    p.free i = true ∧ i ≠ found ∧ some i ≠ front ∧ stop < (p.regions found).stop

def pieces (p : Proc) (found : Slot) (addr stop : Nat) (front back : Option Slot) : Proc :=
  let reg := p.regions found
  let withFront := match front with
    | some i => p.setRegion i { reg with stop := addr }
    | none => p
  let withBack := match back with
    | some i => withFront.setRegion i { reg with start := stop }
    | none => withFront
  withBack.setRegion found { reg with start := addr, stop }

theorem pieces_region : (p.pieces found addr stop front back).regions j =
    if j = found then { p.regions found with start := addr, stop }
    else if back = some j then { p.regions found with start := stop }
    else if front = some j then { p.regions found with stop := addr } else p.regions j := by
  simp only [pieces, setRegion_regions]
  refine if_congr Iff.rfl rfl ?_
  cases back with
  | none =>
      cases front with
      | none => simp
      | some f => simp [setRegion_regions, eq_comm]
  | some b =>
      cases front with
      | none => simp [setRegion_regions, eq_comm]
      | some f => simp [setRegion_regions, eq_comm]

theorem pieces_alike : (p.pieces found addr stop front back).pages = p.pages ∧
    (p.pieces found addr stop front back).nextOffset = p.nextOffset := by
  cases back <;> cases front <;> exact ⟨rfl, rfl⟩

theorem split_cases (sound : Sound nx p) (surrounds : p.surrounds addr rounded found = true)
    (positive : 0 < rounded) (exact_sum : addr + rounded < word) :
    p.split found addr rounded = none ∨
    ∃ front back, Fits p found addr (addr + rounded) front back ∧
      p.split found addr rounded = some (p.pieces found addr (addr + rounded) front back) := by
  simp only [Proc.surrounds, Bool.and_eq_true, decide_eq_true_eq] at surrounds
  obtain ⟨⟨used, lower⟩, upper⟩ := surrounds
  have sum : wrap (addr + rounded) = addr + rounded := Nat.mod_eq_of_lt exact_sum
  rw [sum] at upper
  obtain ⟨-, -, within, -⟩ := sound.region found used
  have capped := sound.offset.2
  have before : wrap (addr + word - (p.regions found).start) = addr - (p.regions found).start := by
    simp only [wrap, word] at *
    omega
  have behind : wrap ((p.regions found).stop + word - (addr + rounded)) =
    (p.regions found).stop - (addr + rounded) := by
    simp only [wrap, word, mmapBase, mmapMaxTotal] at *
    omega
  simp only [split, sum, before, behind]
  by_cases whole : addr - (p.regions found).start > 0 ∨
    (p.regions found).stop - (addr + rounded) > 0
  · rw [if_pos whole]
    generalize frontFound :
      (if addr - (p.regions found).start > 0 then slots.find? fun i => p.free i && i != found
      else none) = front
    generalize backFound : (if (p.regions found).stop - (addr + rounded) > 0 then
      slots.find? fun i => p.free i && i != found && some i != front else none) = back
    by_cases short : (addr - (p.regions found).start > 0 ∧ front = none) ∨
      ((p.regions found).stop - (addr + rounded) > 0 ∧ back = none)
    · exact .inl (if_pos short)
    · rw [if_neg short]
      refine .inr ⟨front, back, ⟨used, ⟨lower, by omega, upper⟩, ?_, ?_, ?_, ?_⟩, rfl⟩
      · intro missing
        by_contra other
        exact short (.inl ⟨by omega, missing⟩)
      · rintro i rfl
        split at frontFound
        · have test := List.find?_some frontFound
          simp only [Bool.and_eq_true, bne_iff_ne] at test
          exact ⟨test.1, test.2, by omega⟩
        · cases frontFound
      · intro missing
        by_contra other
        exact short (.inr ⟨by omega, missing⟩)
      · rintro i rfl
        split at backFound
        · have test := List.find?_some backFound
          simp only [Bool.and_eq_true, bne_iff_ne] at test
          exact ⟨test.1.1, test.1.2, test.2, by omega⟩
        · cases backFound
  · rw [if_neg whole]
    refine .inr ⟨none, none,
      ⟨used, ⟨lower, by omega, upper⟩, fun _ => by omega, nofun, fun _ => by omega, nofun⟩, ?_⟩
    have same : ({ p.regions found with start := addr, stop := addr + rounded } : Region) =
      p.regions found := by
      rw [show addr = (p.regions found).start by omega, show (p.regions found).start + rounded = (p.regions found).stop by omega]
    simp only [pieces, setRegion, same, Function.update_eq_self]

theorem not_covers_free (free : p.free i = true) : p.covers a i ≠ true := by
  intro inside
  simp [covers_used inside] at free

theorem Fits.covers (fits : Fits p found addr stop front back) :
    (p.pieces found addr stop front back).covers a j = true ↔ (j ≠ found ∧ p.covers a j = true) ∨
    (p.covers a found = true ∧ if a < addr then front = some j else if a < stop then j = found
    else back = some j) := by
  obtain ⟨lower, order, upper⟩ := fits.bounds
  by_cases middle : j = found
  · subst middle
    have notFront : front ≠ some j := fun isFront => (fits.frontFree j isFront).2.1 rfl
    have notBack : back ≠ some j := fun isBack => (fits.backFree j isBack).2.1 rfl
    simp only [covers_iff, pieces_region, if_true, ne_eq, not_true, false_and, false_or, fits.used,
      true_and]
    split_ifs <;> simp [notFront, notBack] <;> omega
  by_cases isBack : back = some j
  · obtain ⟨free, -, notFront, shorter⟩ := fits.backFree j isBack
    have apart : front ≠ some j := fun isFront => notFront isFront.symm
    rw [or_iff_right fun old => not_covers_free free old.2]
    simp only [covers_iff, pieces_region, if_neg middle, if_pos isBack, fits.used, true_and]
    split_ifs <;> simp [apart, isBack, middle] <;> omega
  by_cases isFront : front = some j
  · obtain ⟨free, -, longer⟩ := fits.frontFree j isFront
    rw [or_iff_right fun old => not_covers_free free old.2]
    simp only [covers_iff, pieces_region, if_neg middle, if_neg isBack, if_pos isFront, fits.used,
      true_and]
    split_ifs <;> simp [isFront, isBack, middle] <;> omega
  · simp only [covers_iff, pieces_region, if_neg middle, if_neg isBack, if_neg isFront]
    simp [middle, isBack, isFront]

/-- The state after `[addr, stop)` got its own entry and its pages the new permissions. -/
def guard (nx : Bool) (p : Proc) (found : Slot) (addr stop : Nat) (front back : Option Slot)
    (writable executable : Bool) : Proc :=
  { (p.pieces found addr stop front back).setRegion found ⟨addr, stop, (p.regions found).used, writable, executable⟩ with
    pages := fun n => if addr / pageSize ≤ n ∧ n < stop / pageSize then (p.pages n).map fun _ => protFlags nx writable executable
      else p.pages n }

theorem guard_region : (p.guard nx found addr stop front back wantWrite wantExec).regions j =
    if j = found then ⟨addr, stop, (p.regions found).used, wantWrite, wantExec⟩
    else (p.pieces found addr stop front back).regions j :=
  setRegion_regions _

theorem guard_covers : (p.guard nx found addr stop front back wantWrite wantExec).covers a j =
    (p.pieces found addr stop front back).covers a j := by
  rw [Bool.eq_iff_iff, covers_iff, covers_iff, guard_region]
  split
  · simp [pieces_region, ‹j = found›]
  · rfl

theorem Fits.unique (fits : Fits p found addr stop front back) (unique : p.Unique) :
    (p.guard nx found addr stop front back wantWrite wantExec).Unique := by
  intro a i j first second
  rw [guard_covers, fits.covers] at first second
  obtain ⟨other, first⟩ | ⟨inside, first⟩ := first
  · obtain ⟨-, second⟩ | ⟨inside, -⟩ := second
    · exact unique a i j first second
    · exact absurd (unique a i found first inside) other
  · obtain ⟨other, second⟩ | ⟨-, second⟩ := second
    · exact absurd (unique a j found second inside) other
    · split_ifs at first second
      · exact Option.some.inj (first.symm.trans second)
      · exact first.trans second.symm
      · exact Option.some.inj (first.symm.trans second)

/-- A region afterwards, with the one before that its addresses come from. -/
theorem Fits.origin (fits : Fits p found addr stop front back)
    (inside : (p.guard nx found addr stop front back wantWrite wantExec).covers a j = true)
    (unique : p.Unique) : ∃ i, p.covers a i = true ∧
      (((p.guard nx found addr stop front back wantWrite wantExec).regions j).writable,
        ((p.guard nx found addr stop front back wantWrite wantExec).regions j).executable) =
      if addr ≤ a ∧ a < stop then (wantWrite, wantExec)
      else ((p.regions i).writable, (p.regions i).executable) := by
  obtain ⟨lower, order, upper⟩ := fits.bounds
  rw [guard_covers, fits.covers] at inside
  obtain ⟨other, inside⟩ | ⟨inside, place⟩ := inside
  · have outside : ¬(addr ≤ a ∧ a < stop) := by
      intro named
      exact other (unique a j found inside (covers_iff.mpr ⟨fits.used, by omega, by omega⟩))
    have notBack : back ≠ some j := fun isBack => not_covers_free (fits.backFree j isBack).1 inside
    have notFront : front ≠ some j :=
      fun isFront => not_covers_free (fits.frontFree j isFront).1 inside
    exact ⟨j, inside, by rw [if_neg outside, guard_region, if_neg other, pieces_region,
      if_neg other, if_neg notBack, if_neg notFront]⟩
  · refine ⟨found, inside, ?_⟩
    rw [guard_region]
    by_cases below : a < addr
    · rw [if_pos below] at place
      have notFound : j ≠ found := (fits.frontFree j place).2.1
      have notBack : back ≠ some j := fun isBack => (fits.backFree j isBack).2.2.1 place.symm
      rw [if_neg notFound, pieces_region, if_neg notFound, if_neg notBack, if_pos place, if_neg (by omega)]
    · rw [if_neg below] at place
      by_cases named : a < stop
      · rw [if_pos named] at place
        rw [if_pos place, if_pos ⟨by omega, named⟩]
      · rw [if_neg named] at place
        have notFound : j ≠ found := (fits.backFree j place).2.1
        rw [if_neg notFound, pieces_region, if_neg notFound, if_pos place, if_neg (by omega)]

theorem Fits.covered (fits : Fits p found addr stop front back) (inside : p.covers a i = true) :
    ∃ j, (p.guard nx found addr stop front back wantWrite wantExec).covers a j = true := by
  simp only [guard_covers, fits.covers]
  by_cases other : i = found
  · subst other
    have bounds := covers_iff.mp inside
    split_ifs
    · cases isFront : front with
      | none =>
          have start := fits.noFront isFront
          omega
      | some j => exact ⟨j, .inr ⟨inside, rfl⟩⟩
    · exact ⟨i, .inr ⟨inside, rfl⟩⟩
    · cases isBack : back with
      | none =>
          have ending := fits.noBack isBack
          omega
      | some j => exact ⟨j, .inr ⟨inside, rfl⟩⟩
  · exact ⟨i, .inl ⟨other, inside⟩⟩

theorem Fits.regionOk (fits : Fits p found addr stop front back) (ok : Ok nx p)
    (aligned : addr % pageSize = 0 ∧ stop % pageSize = 0)
    (exclusive : ¬(wantWrite = true ∧ wantExec = true))
    (used : ((p.guard nx found addr stop front back wantWrite wantExec).regions i).used = true) :
    RegionOk p.nextOffset
    ((p.guard nx found addr stop front back wantWrite wantExec).regions i) := by
  obtain ⟨lower, order, upper⟩ := fits.bounds
  obtain ⟨-, ⟨alignedStart, alignedStop⟩, within, old⟩ := ok.region found fits.used
  rw [guard_region] at used ⊢
  by_cases middle : i = found
  · rw [if_pos middle]
    exact ⟨order, aligned, ⟨by simp only; omega, by simp only; omega⟩, exclusive⟩
  rw [if_neg middle, pieces_region, if_neg middle] at used ⊢
  by_cases isBack : back = some i
  · rw [if_pos isBack]
    have longer := (fits.backFree i isBack).2.2.2
    exact ⟨longer, ⟨aligned.2, alignedStop⟩, ⟨by simp only; omega, within.2⟩, old⟩
  rw [if_neg isBack] at used ⊢
  by_cases isFront : front = some i
  · rw [if_pos isFront]
    have longer := (fits.frontFree i isFront).2.2
    exact ⟨longer, ⟨alignedStart, aligned.1⟩, ⟨within.1, by simp only; omega⟩, old⟩
  · rw [if_neg isFront] at used ⊢
    exact ok.region i used

theorem Sound.guard (sound : Sound nx p) (fits : Fits p found addr stop front back)
    (aligned : addr % pageSize = 0 ∧ stop % pageSize = 0)
    (exclusive : ¬(wantWrite = true ∧ wantExec = true)) :
    Sound nx (p.guard nx found addr stop front back wantWrite wantExec) := by
  have alike : (p.guard nx found addr stop front back wantWrite wantExec).nextOffset =
    p.nextOffset := pieces_alike.2
  apply Unique.sound (fits.unique sound.unique)
  · intro i used
    rw [alike]
    exact fits.regionOk sound.toOk aligned exclusive used
  · intro page j flags inside present
    obtain ⟨i, old, same⟩ := fits.origin inside sound.unique
    simp only [Proc.guard] at present
    by_cases named : addr ≤ page * pageSize ∧ page * pageSize < stop
    · rw [if_pos (by simp only [pageSize] at *; omega), Option.map_eq_some_iff] at present
      obtain ⟨-, -, rfl⟩ := present
      rw [if_pos named, Prod.mk.injEq] at same
      rw [same.1, same.2]
    · rw [if_neg (by simp only [pageSize] at *; omega)] at present
      rw [if_neg named, Prod.mk.injEq] at same
      rw [same.1, same.2]
      exact sound.resident page i flags old present
  · rw [alike]
    exact sound.offset
  · intro page window present
    have resident : p.pages page ≠ none := by
      intro absent
      simp [Proc.guard, absent] at present
    obtain ⟨i, inside⟩ := sound.backed page window resident
    exact fits.covered inside

theorem protectRange_cases (sound : Sound nx p) (positive : 0 < rounded)
    (aligned : addr % pageSize = 0 ∧ rounded % pageSize = 0) (plain : addr + rounded < word) :
    p.protectRange nx addr rounded wantWrite wantExec = none ∨
    ∃ found front back, Fits p found addr (addr + rounded) front back ∧
      p.protectRange nx addr rounded wantWrite wantExec =
      some (p.guard nx found addr (addr + rounded) front back wantWrite wantExec) := by
  rw [protectRange]
  cases isFound : slots.find? (p.surrounds addr rounded) with
  | none => exact .inl rfl
  | some found =>
      rw [Option.bind_eq_bind, Option.bind_some]
      obtain full | ⟨front, back, fits, parts⟩ := split_cases sound (List.find?_some isFound) positive plain
      · rw [full]
        exact .inl rfl
      · refine .inr ⟨found, front, back, fits, ?_⟩
        obtain ⟨-, within⟩ := (sound.region found fits.used).within
        have capped := sound.offset.2
        have bounds := fits.bounds
        have pages : addr / pageSize + rounded / pageSize = (addr + rounded) / pageSize := by
          simp only [pageSize] at *
          omega
        rw [parts, Option.bind_eq_bind, Option.bind_some,
          protectPages_eq aligned.1 (by simp only [mmapBase, mmapMaxTotal, pageSize] at *; omega),
          pages, pieces_alike.1, setProt, pieces_region, if_pos rfl]
        rfl

/-- What `SYS_MPROTECT` refuses before it looks at the table. -/
def Refused (addr length prot : Nat) : Prop :=
  (prot.testBit 1 = true ∧ prot.testBit 2 = true) ∨ length = 0 ∨ length > mprotectMax ∨
    addr % pageSize ≠ 0

variable {rdi rsi rdx : Nat}

theorem sysMprotect_refused (refused : Refused rdi rsi rdx) :
    p.sysMprotect nx rdi rsi rdx = (p, failed) := by
  rw [sysMprotect]
  obtain both | bad := refused
  · exact if_pos (Bool.and_eq_true_iff.mpr both)
  · rw [if_pos bad]
    exact ite_self _

theorem sysMprotect_asked (asked : ¬Refused rdi rsi rdx) : p.sysMprotect nx rdi rsi rdx =
    match p.protectRange nx rdi (roundUp rsi) (rdx.testBit 1) (rdx.testBit 2) with
    | none => (p, failed)
    | some q => (q, 0) := by
  rw [Refused, not_or] at asked
  rw [sysMprotect]
  exact (if_neg fun both => asked.1 (Bool.and_eq_true_iff.mp both)).trans (if_neg asked.2)

theorem asked_lengths (asked : ¬Refused rdi rsi rdx) :
    rdi % pageSize = 0 ∧ roundUp rsi % pageSize = 0 ∧ 0 < roundUp rsi ∧
    roundUp rsi ≤ mprotectMax := by
  simp only [Refused, not_or] at asked
  have rounded := @roundUp_of_lt rsi (by simp only [word, pageSize, mprotectMax] at *; omega)
  simp only [mprotectMax, pageSize] at *
  omega

/-- `mprotect` gives the named addresses the protection it is asked for and leaves the others as
they are. -/
structure Reprotected (nx : Bool) (p q : Proc) (start stop : Nat) (writable executable : Bool) :
    Prop where
  named : ∀ a, start ≤ a → a < stop → q.protection a = some (writable, executable)
  others : ∀ a, ¬(start ≤ a ∧ a < stop) → q.protection a = p.protection a
  pages : ∀ page, q.pages page = if start ≤ page * pageSize ∧ page * pageSize < stop then
    (p.pages page).map fun _ => protFlags nx writable executable else p.pages page

def Contract (nx : Bool) (p : Proc) (q : Proc × Nat) : Step → Prop
  | .mmap length _ => (q.2 = failed → q.1 = p) ∧
      (q.2 ≠ failed → ∃ i, p.free i = true ∧ (q.1.regions i).used = true ∧
        (q.1.regions i).start = q.2 ∧ q.2 + length.toNat ≤ (q.1.regions i).stop)
  | .munmap addr _ => (q.2 = failed → q.1 = p) ∧
      (q.2 ≠ failed → ∃ i, (p.regions i).used = true ∧ (p.regions i).start = addr.toNat ∧
      q.1 = p.remove i)
  | .mprotect addr length prot => (q.2 = failed → q.1 = p) ∧
      (q.2 ≠ failed → Reprotected nx p q.1 addr.toNat (addr.toNat + roundUp length.toNat) (prot.getLsbD 1) (prot.getLsbD 2))
  | .fault .. => True
  | .elsewhere _ => True

theorem Fits.reprotected (fits : Fits p found addr stop front back) (sound : Sound nx p)
    (aligned : addr % pageSize = 0 ∧ stop % pageSize = 0) :
    Reprotected nx p (p.guard nx found addr stop front back wantWrite wantExec) addr stop wantWrite
    wantExec := by
  have unique : (p.guard nx found addr stop front back wantWrite wantExec).Unique :=
    fits.unique sound.unique
  refine ⟨?_, ?_, ?_⟩
  · intro a lower upper
    have bounds := fits.bounds
    have here : p.covers a found = true :=
      covers_iff.mpr ⟨fits.used, Nat.le_trans bounds.1 lower, Nat.lt_of_lt_of_le upper bounds.2.2⟩
    obtain ⟨j, inside⟩ :
      ∃ j, (p.guard nx found addr stop front back wantWrite wantExec).covers a j = true :=
      fits.covered here
    obtain ⟨i, -, same⟩ := fits.origin inside sound.unique
    rw [unique.protection inside, same, if_pos ⟨lower, upper⟩]
  · intro a outside
    refine protection_congr unique sound.unique (fun j inside => ?_) fun i old => fits.covered old
    obtain ⟨i, old, same⟩ := fits.origin inside sound.unique
    exact ⟨i, old, by rw [same, if_neg outside]⟩
  · intro page
    simp only [Proc.guard]
    exact if_congr (by simp only [pageSize] at *; omega) rfl rfl

theorem Sound.fault (sound : Sound nx p) (addr : Nat) (luck : Bool) :
    Sound nx (p.handlePageFault nx addr luck) := by
  simp only [handlePageFault]
  cases found : slots.find? (p.covers (addr / pageSize * pageSize)) with
  | none => exact sound
  | some i =>
      have inside := List.find?_some found
      have bounds := sound.covers_below inside
      have capped := sound.offset.2
      have own : leaf (addr / pageSize * pageSize) = addr / pageSize :=
        leaf_page (by simp only [mmapBase, mmapMaxTotal, pageSize] at *; omega)
      simp only [allocPage, own]
      cases present : p.pages (addr / pageSize) with
      | some old => exact sound
      | none =>
          cases luck with
          | false => exact sound
          | true =>
              refine ⟨⟨sound.region, sound.apart, ?_⟩, sound.offset, ?_⟩
              · intro page j flags inside' isFlags
                simp only [if_true, Function.update_apply] at isFlags
                split at isFlags
                · rename_i same
                  rw [same] at inside'
                  rw [sound.unique _ j i inside' inside]
                  exact (Option.some.inj isFlags).symm
                · exact sound.resident page j flags inside' isFlags
              · intro page window resident
                simp only [if_true, Function.update_apply] at resident
                split at resident
                · rename_i same
                  exact ⟨i, by rw [same]; exact inside⟩
                · exact sound.backed page window resident

theorem Sound.elsewhere (sound : Sound nx p) (pages : Nat → Option Flags) :
    Sound nx { p with pages := fun page => if InWindow page then p.pages page else pages page } := by
  refine ⟨⟨sound.region, sound.apart, ?_⟩, sound.offset, ?_⟩
  · intro page i flags inside present
    have bounds := sound.covers_below inside
    have capped := sound.offset.2
    simp only at present
    rw [if_pos (by simp only [InWindow, mmapBase, mmapMaxTotal, pageSize] at *; omega)] at present
    exact sound.resident page i flags inside present
  · intro page window present
    simp only at present
    rw [if_pos window] at present
    exact sound.backed page window present

theorem Sound.create (slide : Nat) : Sound nx (create slide) := by
  refine ⟨⟨nofun, nofun, nofun⟩, ?_, ?_⟩
  · simp only [Proc.create, pageSize, mmapMaxTotal]
    omega
  · intro page _ present
    exact absurd rfl present

def TwoFree (p : Proc) : Prop := ∃ i j, i ≠ j ∧ p.free i = true ∧ p.free j = true

/-- No wrapped length reaches the table: a length within a page of `2^64` rounds to nothing, and
so does the end of a range that runs past the last address. -/
def Covered (p : Proc) : Step → Prop
  | .mmap length _ => length.toNat + pageSize ≤ word ∨ ∀ i, (p.regions i).used = true
  | .mprotect addr length prot => addr.toNat + roundUp length.toNat < word ∨ Refused addr.toNat length.toNat prot.toNat ∨
      (∀ i, (p.regions i).used = false) ∨ ¬p.TwoFree
  | .munmap .. => True
  | .fault .. => True
  | .elsewhere _ => True

theorem cosMmapAlloc_wraps {length : Nat} (sound : Sound nx p) (free : p.free i = true)
    (large : word < length + pageSize)
    (bound : length < word) :
    ∃ slot, p.cosMmapAlloc length writable =
    (p.place slot 0 writable, some (mmapBase + p.nextOffset)) := by
  have zero : roundUp length = 0 := roundUp_of_ge (by omega) bound
  obtain refused | ⟨slot, -, -, -, placed⟩ := cosMmapAlloc_cases sound.offset.2 length writable
  · exfalso
    have capped := sound.offset.2
    have same : wrap (p.nextOffset + roundUp length) = p.nextOffset := by
      rw [zero]
      exact Nat.mod_eq_of_lt (by simp only [mmapMaxTotal, word] at *; omega)
    obtain ⟨j, found, -⟩ := find_slot free
    rw [cosMmapAlloc, if_neg (by simp only [word, pageSize] at *; omega)] at refused
    simp only [same, lt_irrefl, if_false, if_neg (Nat.not_lt.mpr capped), found,
      Prod.mk.injEq] at refused
    exact Option.some_ne_none _ refused.2
  · rw [zero] at placed
    exact ⟨slot, placed⟩

theorem place_zero_broken : ¬Ok nx (p.place slot 0 writable) := by
  intro ok
  have empty := (ok.region slot (by rw [place_region, if_pos rfl])).nonempty
  rw [place_region, if_pos rfl] at empty
  simp at empty

section Wrapped

variable (sound : Sound nx p) (bound : addr < word) (small : rounded ≤ mprotectMax)
  (positive : 0 < rounded) (wraps : word ≤ addr + rounded)
include sound bound small positive wraps

theorem surrounds_of_wraps : p.surrounds addr rounded i = (p.regions i).used := by
  cases used : (p.regions i).used with
  | false => simp [Proc.surrounds, used]
  | true =>
      obtain ⟨nonempty, -, within, -⟩ := sound.region i used
      have capped := sound.offset.2
      simp only [Proc.surrounds, used, Bool.true_and, Bool.and_eq_true, decide_eq_true_eq]
      simp only [wrap, word, mmapBase, mmapMaxTotal, mprotectMax] at *
      omega

theorem split_wraps (used : (p.regions found).used = true) :
    (p.TwoFree → p.split found addr rounded ≠ none) ∧ ∀ q, p.split found addr rounded = some q →
      p.TwoFree ∧ (q.regions found).used = true ∧
      (q.regions found).stop < (q.regions found).start := by
  obtain ⟨nonempty, -, within, -⟩ := sound.region found used
  have capped := sound.offset.2
  have stop : wrap (addr + rounded) = addr + rounded - word := by
    simp only [wrap, word, mprotectMax] at *
    omega
  have before : 0 < wrap (addr + word - (p.regions found).start) := by
    simp only [wrap, word, mmapBase, mmapMaxTotal, mprotectMax] at *
    omega
  have behind : 0 < wrap ((p.regions found).stop + word - (addr + rounded - word)) := by
    simp only [wrap, word, mmapBase, mmapMaxTotal, mprotectMax] at *
    omega
  simp only [split, stop, gt_iff_lt, before, behind, true_or, if_true, true_and]
  have notFree : p.free found = false := by rw [free, used, Bool.not_true]
  constructor
  · rintro ⟨i, j, different, first, second⟩
    have tests : ∀ {k}, p.free k = true → k ≠ found := by
      rintro k isFree rfl
      simp [notFree] at isFree
    obtain ⟨f, isFront, -⟩ :=
      @find_slot i (fun k => p.free k && k != found) (by simp [first, tests first])
    have other : ∃ k, p.free k = true ∧ k ≠ f := by
      by_cases same : i = f
      · exact ⟨j, second, fun again => different (same.trans again.symm)⟩
      · exact ⟨i, first, same⟩
    obtain ⟨k, free, apart⟩ := other
    obtain ⟨b, isBack, -⟩ :=
      @find_slot k (fun k => p.free k && k != found && some k != some f) (by simp [free, tests free, apart])
    simp [isFront, isBack]
  · intro q parts
    split at parts
    · cases parts
    · rename_i enough
      simp only [not_or] at enough
      obtain ⟨f, isFront⟩ := Option.ne_none_iff_exists'.mp enough.1
      obtain ⟨b, isBack⟩ := Option.ne_none_iff_exists'.mp enough.2
      have first := List.find?_some isFront
      have second := List.find?_some isBack
      simp only [isFront, Bool.and_eq_true, bne_iff_ne, ne_eq, Option.some.injEq] at first second
      refine ⟨⟨b, f, second.2, second.1.1, first.1⟩, ?_⟩
      rw [← Option.some.inj parts, setRegion_regions, if_pos rfl]
      exact ⟨used, by simp only [word, mprotectMax] at *; omega⟩

theorem protectRange_wraps :
    (p.protectRange nx addr rounded wantWrite wantExec = none ∧
    ((∀ i, (p.regions i).used = false) ∨ ¬p.TwoFree)) ∨
    ∃ q, p.protectRange nx addr rounded wantWrite wantExec = some q ∧
    (∃ i, (p.regions i).used = true) ∧ p.TwoFree ∧ ¬Ok nx q := by
  rw [protectRange]
  cases isFound : slots.find? (p.surrounds addr rounded) with
  | none =>
      refine .inl ⟨rfl, .inl fun i => ?_⟩
      have missed := List.find?_eq_none.mp isFound i (List.mem_finRange i)
      rwa [surrounds_of_wraps sound bound small positive wraps, Bool.not_eq_true] at missed
  | some found =>
      have used := List.find?_some isFound
      rw [surrounds_of_wraps sound bound small positive wraps] at used
      obtain ⟨possible, broken⟩ := split_wraps sound bound small positive wraps used
      rw [Option.bind_eq_bind, Option.bind_some]
      cases parts : p.split found addr rounded with
      | none => exact .inl ⟨rfl, .inr fun two => possible two parts⟩
      | some q =>
          obtain ⟨two, used', reversed⟩ := broken q parts
          refine .inr ⟨_, rfl, ⟨found, used⟩, two, fun ok => ?_⟩
          have region : ((q.setProt found wantWrite wantExec).setPages (protectPages q.pages addr (rounded / pageSize)
              (protFlags nx wantWrite wantExec))).regions found =
              { q.regions found with writable := wantWrite, executable := wantExec } :=
            (setRegion_regions _).trans (if_pos rfl)
          have order := (ok.region found (by rw [region]; exact used')).nonempty
          rw [region] at order
          exact Nat.lt_asymm order reversed

end Wrapped

/-- One step: what it keeps when no wrapped length reaches the table, and that it breaks the table
otherwise. -/
theorem Sound.step (sound : Sound nx p) {s : Step} (covered : p.Covered s) :
    Sound nx (p.step nx s).1 ∧ Contract nx p (p.step nx s) s := by
  cases s with
  | mmap length prot =>
      simp only [Proc.step, sysMmap, Contract]
      obtain refused | ⟨slot, free, positive, room, placed⟩ := cosMmapAlloc_cases sound.offset.2 length.toNat (prot.toNat.testBit 1)
      · rw [refused]
        exact ⟨sound, fun _ => rfl, fun other => absurd rfl other⟩
      · have small : length.toNat + pageSize ≤ word := by
          refine covered.resolve_right fun full => ?_
          simp [Proc.free, full slot] at free
        obtain ⟨aligned, atLeast, -⟩ := @roundUp_of_lt length.toNat (by simp only [word, pageSize] at *; omega)
        rw [placed]
        refine ⟨sound.place free (by omega) aligned room, fun isFailed => ?_, fun _ => ⟨slot, free, ?_⟩⟩
        · have capped := sound.offset.2
          simp only [failed, word, mmapBase, mmapMaxTotal] at *
          omega
        · rw [place_region, if_pos rfl]
          exact ⟨rfl, rfl, by simp only; omega⟩
  | munmap addr length =>
      simp only [Proc.step, sysMunmap, Contract]
      obtain refused | ⟨slot, used, start, -, freed⟩ := cosMmapFree_cases sound addr.toNat length.toNat
      · rw [refused]
        exact ⟨sound, fun _ => rfl, fun other => absurd rfl other⟩
      · rw [freed]
        exact ⟨sound.remove used, fun isFailed => by simp [failed, word] at isFailed, fun _ => ⟨slot, used, start, rfl⟩⟩
  | mprotect addr length prot =>
      simp only [Proc.step, Contract]
      by_cases refused : Refused addr.toNat length.toNat prot.toNat
      · rw [sysMprotect_refused refused]
        exact ⟨sound, fun _ => rfl, fun other => absurd rfl other⟩
      obtain ⟨alignedAddr, alignedLength, positive, small⟩ := asked_lengths refused
      rw [sysMprotect_asked refused]
      by_cases plain : addr.toNat + roundUp length.toNat < word
      · obtain full | ⟨found, front, back, fits, parts⟩ := @protectRange_cases nx p addr.toNat (roundUp length.toNat)
          (prot.toNat.testBit 1) (prot.toNat.testBit 2) sound positive ⟨alignedAddr, alignedLength⟩ plain
        · rw [full]
          exact ⟨sound, fun _ => rfl, fun other => absurd rfl other⟩
        · rw [parts]
          have aligned : addr.toNat % pageSize = 0 ∧ (addr.toNat + roundUp length.toNat) % pageSize = 0 := by
            simp only [pageSize] at *
            omega
          exact ⟨sound.guard fits aligned fun both => refused (Or.inl both), fun isFailed => by simp [failed, word] at isFailed,
            fun _ => fits.reprotected sound aligned⟩
      · obtain ⟨full, -⟩ | ⟨q, -, ⟨i, used⟩, two, -⟩ := @protectRange_wraps nx p addr.toNat (roundUp length.toNat)
          (prot.toNat.testBit 1) (prot.toNat.testBit 2) sound addr.isLt small positive (Nat.not_lt.mp plain)
        · rw [full]
          exact ⟨sound, fun _ => rfl, fun other => absurd rfl other⟩
        · obtain inside | refused' | unused | few := covered
          · exact absurd inside plain
          · exact absurd refused' refused
          · simp [unused i] at used
          · exact absurd two few
  | fault addr luck => exact ⟨sound.fault addr.toNat luck, trivial⟩
  | elsewhere pages => exact ⟨sound.elsewhere pages, trivial⟩

theorem Sound.breaks (sound : Sound nx p) {s : Step} (uncovered : ¬p.Covered s) :
    ¬Ok nx (p.step nx s).1 := by
  cases s with
  | mmap length prot =>
      simp only [Covered, not_or, not_le, not_forall] at uncovered
      obtain ⟨large, i, unused⟩ := uncovered
      obtain ⟨slot, placed⟩ := @cosMmapAlloc_wraps nx p i (prot.toNat.testBit 1) length.toNat sound
        (show p.free i = true by simpa [free] using unused) large length.isLt
      simp only [Proc.step, sysMmap, placed]
      exact place_zero_broken
  | munmap addr length => exact absurd trivial uncovered
  | mprotect addr length prot =>
      simp only [Covered, not_or, not_not] at uncovered
      obtain ⟨wraps, asked, used, two⟩ := uncovered
      obtain ⟨-, -, positive, small⟩ := asked_lengths asked
      simp only [Proc.step]
      rw [sysMprotect_asked asked]
      obtain ⟨-, unused | few⟩ | ⟨q, parts, -, -, broken⟩ := @protectRange_wraps nx p addr.toNat (roundUp length.toNat)
        (prot.toNat.testBit 1) (prot.toNat.testBit 2) sound addr.isLt small positive (Nat.not_lt.mp wraps)
      · exact absurd unused used
      · exact absurd two few
      · rw [parts]
        exact broken
  | fault addr luck => exact absurd trivial uncovered
  | elsewhere pages => exact absurd trivial uncovered

/-- In every state reached the table is in order, and every call does what it says. -/
def Kept (nx : Bool) (p : Proc) : List Step → Prop
  | [] => True
  | s :: rest => Ok nx (p.step nx s).1 ∧ Contract nx p (p.step nx s) s ∧ Kept nx (p.step nx s).1 rest

def AllCovered (nx : Bool) (p : Proc) : List Step → Prop
  | [] => True
  | s :: rest => p.Covered s ∧ AllCovered nx (p.step nx s).1 rest

theorem Sound.kept_iff (sound : Sound nx p) (steps : List Step) :
    Kept nx p steps ↔ AllCovered nx p steps := by
  induction steps generalizing p with
  | nil => exact Iff.rfl
  | cons s rest ih =>
      by_cases covered : p.Covered s
      · obtain ⟨next, contract⟩ := sound.step covered
        exact ⟨fun kept => ⟨covered, (ih next).mp kept.2.2⟩, fun all => ⟨next.toOk, contract, (ih next).mpr all.2⟩⟩
      · exact ⟨fun kept => absurd kept.1 (sound.breaks covered), fun all => absurd all.1 covered⟩

end Proc

theorem native_regions_kept_iff (nx : Bool) (slide : Nat) (steps : List Step) :
    (Proc.create slide).Kept nx steps ↔ (Proc.create slide).AllCovered nx steps :=
  (Proc.Sound.create slide).kept_iff steps

/-- `2^64 - 1` bytes round to none: the call succeeds and enters an empty region. -/
theorem native_regions_broken :
    ¬(Proc.create 0).Kept true [.mmap (BitVec.ofNat 64 18446744073709551615) 3#64] := by
  intro kept
  have region := (kept.1.region ⟨0, by decide⟩ (by decide)).nonempty
  exact absurd region (by decide)

end Cos.Mmap
