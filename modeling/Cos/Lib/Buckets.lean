import Cos.Lib.Chain

/-! # Chained hash buckets

The cells in use of an array are threaded through `next` into buckets, each by its own bucket
number; `heads` holds the first cell of each bucket.
-/

namespace Cos.Lib

open Function (update update_of_ne update_self)

variable {next heads bucketOf : Nat → Nat} {live : Nat → Prop} {lists : Nat → List Nat}
  {cell bound : Nat}

theorem Chain.unique {head : Nat} {cells other : List Nat} (first : Chain next head cells)
    (second : Chain next head other) : cells = other := by
  induction cells generalizing head other with
  | nil =>
      obtain rfl : head = 0 := first
      cases other with
      | nil => rfl
      | cons cell rest => exact absurd second.1.symm second.2.1
  | cons cell rest ih =>
      obtain ⟨rfl, nonzero, tail⟩ := first
      cases other with
      | nil => exact absurd second nonzero
      | cons cell' rest' =>
          obtain ⟨rfl, _, tail'⟩ := second
          rw [ih tail tail']

/-- Every bucket is a chain of the cells in use that have its number. -/
structure Buckets (next heads bucketOf : Nat → Nat) (live : Nat → Prop) (lists : Nat → List Nat) :
    Prop where
  chain : ∀ b, Chain next (heads b) (lists b)
  distinct : ∀ b, (lists b).Nodup
  member : ∀ b i, i ∈ lists b ↔ live i ∧ bucketOf i = b

theorem Buckets.nonzero (buckets : Buckets next heads bucketOf live lists) (used : live cell) :
    cell ≠ 0 :=
  (buckets.chain (bucketOf cell)).nonzero ((buckets.member _ cell).mpr ⟨used, rfl⟩)

theorem Buckets.live_iff (buckets : Buckets next heads bucketOf live lists) :
    live cell ↔ ∃ b cells, Chain next (heads b) cells ∧ cell ∈ cells := by
  constructor
  · exact fun used => ⟨_, _, buckets.chain (bucketOf cell), (buckets.member _ cell).mpr ⟨used, rfl⟩⟩
  · rintro ⟨b, cells, chain, member⟩
    rw [chain.unique (buckets.chain b)] at member
    exact ((buckets.member b cell).mp member).1

theorem Buckets.length_le (buckets : Buckets next heads bucketOf live lists)
    (inside : ∀ i, live i → i ≤ bound) (b : Nat) : (lists b).length ≤ bound := by
  refine length_le_of_nodup_bounded (buckets.distinct b) fun i member => ?_
  have used := ((buckets.member b i).mp member).1
  exact ⟨buckets.nonzero used, inside i used⟩

theorem Buckets.congr {next' bucketOf' : Nat → Nat} {live' : Nat → Prop}
    (buckets : Buckets next heads bucketOf live lists) (sameLive : ∀ i, live' i ↔ live i)
    (sameNext : ∀ i, live i → next' i = next i)
    (sameBucket : ∀ i, live i → bucketOf' i = bucketOf i) :
    Buckets next' heads bucketOf' live' lists where
  chain := fun b => (buckets.chain b).frame fun i member =>
    sameNext i ((buckets.member b i).mp member).1
  distinct := buckets.distinct
  member := by
    intro b i
    rw [buckets.member, sameLive]
    exact and_congr_right fun used => by rw [sameBucket i used]

theorem Buckets.push {bucketOf' : Nat → Nat} {live' : Nat → Prop} {b : Nat}
    (buckets : Buckets next heads bucketOf live lists) (nonzero : cell ≠ 0) (unused : ¬ live cell)
    (own : bucketOf' cell = b) (sameBucket : ∀ i, live i → bucketOf' i = bucketOf i)
    (grown : ∀ i, live' i ↔ i = cell ∨ live i) :
    Buckets (update next cell (heads b)) (update heads b cell) bucketOf' live'
      (update lists b (cell :: lists b)) := by
  have absent : ∀ b, cell ∉ lists b := fun b member => unused ((buckets.member b cell).mp member).1
  refine ⟨fun c => ?_, fun c => ?_, fun c i => ?_⟩
  · by_cases same : c = b
    · subst same
      rw [update_self, update_self]
      exact (buckets.chain c).push nonzero (absent c)
    · rw [update_of_ne same, update_of_ne same]
      exact (buckets.chain c).update (absent c)
  · by_cases same : c = b
    · subst same
      rw [update_self]
      exact List.nodup_cons.mpr ⟨absent c, buckets.distinct c⟩
    · rw [update_of_ne same]
      exact buckets.distinct c
  · have isMember : i ∈ update lists b (cell :: lists b) c ↔ (i = cell ∧ c = b) ∨ i ∈ lists c := by
      by_cases same : c = b
      · subst same
        simp
      · simp [same]
    rw [isMember, buckets.member, grown]
    by_cases new : i = cell
    · subst new
      simp [unused, own, eq_comm]
    · simp only [new, false_and, false_or]
      exact and_congr_right fun used => by rw [sameBucket i used]

theorem Buckets.unlink {live' : Nat → Prop} {fuel : Nat}
    (buckets : Buckets next heads bucketOf live lists) (used : live cell)
    (inside : ∀ i, live i → i ≤ fuel) (shrunk : ∀ i, live' i ↔ live i ∧ i ≠ cell) : Buckets (chainUnlink fuel cell (heads (bucketOf cell)) next).2
        (update heads (bucketOf cell) (chainUnlink fuel cell (heads (bucketOf cell)) next).1)
        bucketOf live'
        (update lists (bucketOf cell) ((lists (bucketOf cell)).erase cell)) ∧
      ∀ i, ¬ live i → (chainUnlink fuel cell (heads (bucketOf cell)) next).2 i = next i := by
  obtain ⟨home, isHome⟩ : ∃ home, bucketOf cell = home := ⟨_, rfl⟩
  rw [isHome]
  have inHome : cell ∈ lists home := (buckets.member home cell).mpr ⟨used, isHome⟩
  obtain ⟨unlinked, kept⟩ := chainUnlink_spec (buckets.chain home) (buckets.distinct home) inHome
    (buckets.length_le inside home)
  refine ⟨⟨fun c => ?_, fun c => ?_, fun c i => ?_⟩, fun i unused => kept i fun member => ?_⟩
  · by_cases same : c = home
    · subst same
      rw [update_self, update_self]
      exact unlinked
    · rw [update_of_ne same, update_of_ne same]
      refine (buckets.chain c).frame fun i member => kept i fun there => same ?_
      rw [← ((buckets.member c i).mp member).2, ((buckets.member home i).mp there).2]
  · by_cases same : c = home
    · subst same
      rw [Function.update_self]
      exact (buckets.distinct c).erase cell
    · rw [Function.update_of_ne same]
      exact buckets.distinct c
  · rw [shrunk]
    by_cases same : c = home
    · subst same
      rw [update_self, (buckets.distinct c).mem_erase_iff, buckets.member]
      tauto
    · rw [update_of_ne same, buckets.member]
      constructor
      · rintro ⟨there, rfl⟩
        exact ⟨⟨there, fun gone => same (gone ▸ isHome)⟩, rfl⟩
      · exact fun ⟨⟨there, _⟩, hash⟩ => ⟨there, hash⟩
  · exact unused ((buckets.member home i).mp member).1

theorem Buckets.find_cases {fuel b : Nat} (buckets : Buckets next heads bucketOf live lists)
    (inside : ∀ i, live i → i ≤ fuel) (test : Nat → Bool) :
    (chainFind next test fuel (heads b) = 0 ∧ ∀ i, live i → bucketOf i = b → test i = false) ∨
      (live (chainFind next test fuel (heads b)) ∧ bucketOf (chainFind next test fuel (heads b)) =
        b ∧ test (chainFind next test fuel (heads b)) = true) := by
  rw [chainFind_eq (buckets.chain b) (buckets.length_le inside b)]
  cases search : (lists b).find? test with
  | none =>
      refine .inl ⟨rfl, fun i used hash => ?_⟩
      have fails := List.find?_eq_none.mp search i ((buckets.member b i).mpr ⟨used, hash⟩)
      exact Bool.not_eq_true _ ▸ fails
  | some i =>
      obtain ⟨used, hash⟩ := (buckets.member b i).mp (List.mem_of_find?_eq_some search)
      exact .inr ⟨used, hash, List.find?_some search⟩

end Cos.Lib
