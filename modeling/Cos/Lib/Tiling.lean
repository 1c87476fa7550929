import Cos.Lib.Span
import Mathlib

/-! # Ranges that tile others

A list of ranges tiles a list of chunks when it goes through the chunks in their
order and through each from its start to its end without a gap.
-/

namespace Cos.Lib

inductive Tiled : List Span → List Span → Prop
  | nil : Tiled [] []
  | last {c t : Span} {cs ts : List Span} (start : t.start = c.start) (stop : t.stop = c.stop)
      (nonempty : t.start < t.stop) (rest : Tiled cs ts) : Tiled (c :: cs) (t :: ts)
  | more {c t : Span} {cs ts : List Span} (start : t.start = c.start) (inside : t.stop < c.stop) (nonempty : t.start < t.stop)
      (rest : Tiled (⟨t.stop, c.stop⟩ :: cs) ts) : Tiled (c :: cs) (t :: ts)

def Descending (cs : List Span) : Prop := cs.Pairwise fun c d => d.start < d.stop ∧ d.stop ≤ c.start

variable {c d s t : Span} {cs ts pre post : List Span} {mid : Nat}

theorem Descending.advance (descending : Descending (c :: cs)) (later : c.start ≤ d.start) :
    Descending (d :: cs) := by
  obtain ⟨first, rest⟩ := List.pairwise_cons.mp descending
  exact List.pairwise_cons.mpr
    ⟨fun e member => ⟨(first e member).1, Nat.le_trans (first e member).2 later⟩, rest⟩

def extent (cs : List Span) : Nat := (cs.map fun c => c.stop - c.start).sum

theorem extent_cons : extent (c :: cs) = c.stop - c.start + extent cs := by
  unfold extent
  rw [List.map_cons, List.sum_cons]

theorem Descending.extent_le {low high : Nat} (descending : Descending cs)
    (within : ∀ c ∈ cs, low ≤ c.start ∧ c.start ≤ c.stop ∧ c.stop ≤ high) :
    extent cs ≤ high - low := by
  induction cs generalizing high with
  | nil => exact Nat.zero_le _
  | cons c cs ih =>
      obtain ⟨first, below⟩ := List.pairwise_cons.mp descending
      obtain ⟨lower, order, upper⟩ := within c List.mem_cons_self
      have rest := @ih c.start below fun d member =>
        ⟨(within d (List.mem_cons_of_mem _ member)).1, Nat.le_of_lt (first d member).1, (first d member).2⟩
      rw [extent_cons]
      omega

namespace Tiled

theorem split (tiled : Tiled cs (pre ++ t :: post)) (lower : t.start < mid) (upper : mid < t.stop) :
    Tiled cs (pre ++ ⟨t.start, mid⟩ :: ⟨mid, t.stop⟩ :: post) := by
  induction pre generalizing cs with
  | nil =>
      cases tiled with
      | last start stop nonempty rest => exact .more start (by rw [← stop]; exact upper) lower (.last rfl stop upper rest)
      | more start inside nonempty rest =>
          exact .more start (Nat.lt_trans upper inside) lower (.more rfl inside upper rest)
  | cons first pre ih =>
      cases tiled with
      | last start stop nonempty rest => exact .last start stop nonempty (ih rest)
      | more start inside nonempty rest => exact .more start inside nonempty (ih rest)

theorem join (tiled : Tiled cs (pre ++ s :: t :: post)) (touch : s.stop = t.start)
    (descending : Descending cs) : Tiled cs (pre ++ ⟨s.start, t.stop⟩ :: post) := by
  induction pre generalizing cs with
  | nil =>
      cases tiled with
      | last start stop nonempty rest =>
          obtain ⟨first, below⟩ := List.pairwise_cons.mp descending
          -- the next chunk lies below, so nothing of it touches
          cases rest with
          | last start' stop' nonempty' rest =>
              obtain ⟨-, under⟩ := first _ List.mem_cons_self
              omega
          | more start' inside' nonempty' rest =>
              obtain ⟨-, under⟩ := first _ List.mem_cons_self
              omega
      | more start inside nonempty rest =>
          cases rest with
          | last start' stop' nonempty' rest =>
              exact .last start stop' (by simp only; omega) rest
          | more start' inside' nonempty' rest =>
              exact .more start inside' (by simp only; omega) rest
  | cons first pre ih =>
      cases tiled with
      | last start stop nonempty rest => exact .last start stop nonempty (ih rest (List.pairwise_cons.mp descending).2)
      | more start inside nonempty rest =>
          exact .more start inside nonempty (ih rest (descending.advance (by simp only; omega)))

theorem push (tiled : Tiled cs ts) (nonempty : c.start < c.stop) : Tiled (c :: cs) (c :: ts) :=
  .last rfl rfl nonempty tiled

theorem covers (tiled : Tiled cs ts) (x : Nat) :
    (∃ t ∈ ts, t.start ≤ x ∧ x < t.stop) ↔ ∃ c ∈ cs, c.start ≤ x ∧ x < c.stop := by
  induction tiled with
  | nil => simp
  | last start stop nonempty rest ih =>
      rw [List.exists_mem_cons_iff, List.exists_mem_cons_iff, ih, start, stop]
  | @more c t cs ts start inside nonempty rest ih =>
      rw [List.exists_mem_cons_iff, List.exists_mem_cons_iff, ih, List.exists_mem_cons_iff]
      constructor
      · rintro (here | ⟨later, before⟩ | further)
        · exact .inl ⟨by omega, by omega⟩
        · exact .inl ⟨by simp only at later; omega, before⟩
        · exact .inr further
      · rintro (⟨lower, upper⟩ | further)
        · rcases Nat.lt_or_ge x t.stop with less | more
          · exact .inl ⟨by omega, less⟩
          · exact .inr (.inl ⟨more, upper⟩)
        · exact .inr (.inr further)

theorem inside (tiled : Tiled cs ts) (member : t ∈ ts) :
    ∃ c ∈ cs, c.start ≤ t.start ∧ t.stop ≤ c.stop := by
  induction tiled with
  | nil => cases member
  | last start stop nonempty rest ih =>
      rcases List.mem_cons.mp member with rfl | member
      · exact ⟨_, List.mem_cons_self, Nat.le_of_eq start.symm, Nat.le_of_eq stop⟩
      · obtain ⟨c, chunk, lower, upper⟩ := ih member
        exact ⟨c, List.mem_cons_of_mem _ chunk, lower, upper⟩
  | more start inside nonempty rest ih =>
      rcases List.mem_cons.mp member with rfl | member
      · exact ⟨_, List.mem_cons_self, Nat.le_of_eq start.symm, Nat.le_of_lt inside⟩
      · obtain ⟨c, chunk, lower, upper⟩ := ih member
        rcases List.mem_cons.mp chunk with rfl | chunk
        · exact ⟨_, List.mem_cons_self, by simp only at lower; omega, upper⟩
        · exact ⟨c, List.mem_cons_of_mem _ chunk, lower, upper⟩

theorem apart (tiled : Tiled cs ts) (descending : Descending cs) : ts.Pairwise Span.Apart := by
  induction tiled with
  | nil => exact .nil
  | @last c t cs ts start stop nonempty rest ih =>
      obtain ⟨first, below⟩ := List.pairwise_cons.mp descending
      refine List.pairwise_cons.mpr ⟨?_, ih below⟩
      intro u member
      obtain ⟨d, chunk, lower, upper⟩ := rest.inside member
      have under := (first d chunk).2
      exact Or.inr (by omega)
  | @more c t cs ts start inside nonempty rest ih =>
      have later : Descending (⟨t.stop, c.stop⟩ :: cs) := descending.advance (by simp only; omega)
      refine List.pairwise_cons.mpr ⟨?_, ih later⟩
      intro u member
      obtain ⟨d, chunk, lower, upper⟩ := rest.inside member
      rcases List.mem_cons.mp chunk with rfl | chunk
      · exact Or.inl lower
      · have under := ((List.pairwise_cons.mp descending).1 d chunk).2
        exact Or.inr (by omega)

theorem length_le {least : Nat} (tiled : Tiled cs ts) (wide : ∀ t ∈ ts, t.start + least ≤ t.stop) :
    least * ts.length ≤ extent cs := by
  induction tiled with
  | nil => exact Nat.le_refl _
  | last start stop nonempty rest ih =>
      have size := wide _ List.mem_cons_self
      have rest := ih fun u member => wide u (List.mem_cons_of_mem _ member)
      rw [List.length_cons, Nat.mul_add, Nat.mul_one, extent_cons]
      omega
  | more start inside nonempty rest ih =>
      have size := wide _ List.mem_cons_self
      have rest := ih fun u member => wide u (List.mem_cons_of_mem _ member)
      rw [extent_cons] at rest
      rw [List.length_cons, Nat.mul_add, Nat.mul_one, extent_cons]
      simp only at rest
      omega

end Tiled

end Cos.Lib
