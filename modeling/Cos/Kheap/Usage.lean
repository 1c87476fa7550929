import Cos.Kheap.HeapRuns

/-! # The count of the bytes in use

`kmalloc_flags` adds the rounded request to the usage, but for a cached block, and `kfree`
takes the whole payload from it.  The two agree where the block is as large as the request.
-/

namespace Cos.Kheap

open Cos.Lib Heap

variable {P : HeapPlace} {cap : Nat} {m : Memory} {w : World} {call : HeapCall}

def Accounted (w : World) : Prop := w.heap.currentUsage = usedBytes w.heap

/-- A call of `kmalloc_flags`, one of `kfree` with a pointer that has not been released, or a
write. -/
def PlainCall (w : World) (call : HeapCall) : Prop :=
  w.Permitted call ∧ match call with
    | .alloc _ _ _ | .free _ | .write _ _ => True
    | .allocAligned _ _ _ | .realloc _ _ _ => False

instance (w : World) : (call : HeapCall) → Decidable (PlainCall w call)
  | .alloc _ _ _ => inferInstanceAs (Decidable (_ ∧ True))
  | .free _ => inferInstanceAs (Decidable (_ ∧ True))
  | .write _ _ => inferInstanceAs (Decidable (_ ∧ True))
  | .allocAligned _ _ _ => inferInstanceAs (Decidable (_ ∧ False))
  | .realloc _ _ _ => inferInstanceAs (Decidable (_ ∧ False))

/-- The request cannot be served, or is served by a block that is as large as it is counted. -/
def ExactCall (P : HeapPlace) (w : World) : HeapCall → Prop
  | .alloc size _ given => Refused P w.heap size given ∨ ExactFit w.heap size
  | _ => True

structure PlainWorld (P : HeapPlace) (w : World) : Prop where
  worldSound : WorldSound P w
  plain : ∀ g ∈ w.handles, g.ptr = g.piece.user
  owned : ∀ q, Live w.heap q → ∃ g ∈ w.handles, g.piece = q

namespace PlainWorld

theorem start : PlainWorld P (World.start P cap m) := by
  refine ⟨.start, fun _ member => (nomatch member), fun q live => ?_⟩
  rcases live with ⟨member, taken, -⟩ | member
  · obtain rfl := List.mem_singleton.mp member
    cases taken
  · cases member

theorem step (plainWorld : PlainWorld P w) (plain : PlainCall w call) :
    PlainWorld P (w.step P call) ∧
    (Accounted w → (Accounted (w.step P call) ↔ ExactCall P w call)) := by
  have worldSound := plainWorld.worldSound.step (P := P) plain.1
  have sound := plainWorld.worldSound.sound
  cases call with
  | alloc size flags given =>
      rw [World.step] at worldSound ⊢
      rw [ExactCall]
      by_cases refused : Refused P w.heap size given
      · rw [kmallocFlags_refused sound refused, give_null]
        exact ⟨plainWorld, fun accounted => ⟨fun _ => .inl refused, fun _ => accounted⟩⟩
      · obtain ⟨piece, charged, isUser, -, -, -, exact, granted⟩ := @kmallocFlags_spec P w.heap size flags given sound refused
        obtain ⟨⟨h', ptr⟩, isResult⟩ : ∃ result, w.heap.kmallocFlags P size flags given = result := ⟨_, rfl⟩
        rw [isResult] at isUser granted worldSound ⊢
        have isUser : ptr = piece.user := isUser
        have isGiven : w.give (h', ptr) = ⟨h', ⟨ptr, piece⟩ :: w.handles⟩ :=
          give_eq granted.sound ((granted.live piece).mpr (.inl rfl)) (Nat.le_of_eq isUser.symm) (isUser ▸ Nat.le_add_right _ _)
        rw [isGiven] at worldSound ⊢
        refine ⟨⟨worldSound, List.forall_mem_cons.mpr ⟨isUser, plainWorld.plain⟩, fun q live => ?_⟩, fun accounted => ?_⟩
        · obtain rfl | before := (granted.live q).mp live
          · exact ⟨_, List.mem_cons_self, rfl⟩
          · obtain ⟨g, member, same⟩ := plainWorld.owned q before
            exact ⟨g, List.mem_cons_of_mem _ member, same⟩
        · have usage : h'.currentUsage = _ := granted.usage
          have used : usedBytes h' = _ := granted.usedBytes sound
          unfold Accounted at accounted ⊢
          simp only [refused, false_or, ← exact]
          omega
  | free ptr =>
      obtain ⟨g, member, rfl⟩ := plain.1
      have holds := plainWorld.worldSound.holds g member
      have released := kfree_known sound holds fun unknown => unknown.1 (plainWorld.plain g member)
      refine ⟨⟨worldSound, fun other left => plainWorld.plain other (List.mem_of_mem_filter left), fun q live => ?_⟩, fun accounted => ?_⟩
      · obtain ⟨before, differs⟩ := (released.live q).mp live
        obtain ⟨other, also, rfl⟩ := plainWorld.owned q before
        refine ⟨other, List.mem_filter.mpr ⟨also, decide_eq_true fun same => differs ?_⟩, rfl⟩
        have user : other.piece.user = g.piece.user := by rw [← plainWorld.plain other also, same, plainWorld.plain g member]
        exact Nat.add_right_cancel user
      · have usage := released.usage
        have used := released.usedBytes sound holds.live
        unfold Accounted at accounted ⊢
        refine ⟨fun _ => trivial, fun _ => ?_⟩
        show (w.heap.kfree P g.ptr).currentUsage = usedBytes (w.heap.kfree P g.ptr)
        omega
  | write addr byte =>
      exact ⟨⟨worldSound, plainWorld.plain, fun q live => plainWorld.owned q (live_mem.mp live)⟩, fun accounted => ⟨fun _ => trivial, fun _ => accounted⟩⟩
  | allocAligned size alignment given => exact plain.2.elim
  | realloc ptr size given => exact plain.2.elim

theorem run (plainWorld : PlainWorld P w) (accounted : Accounted w) (calls : List HeapCall)
    (plain : StepsAllowed (World.step P) PlainCall w calls) :
    (∀ n ≤ calls.length, Accounted (runSteps (World.step P) w (calls.take n))) ↔
    StepsAllowed (World.step P) (ExactCall P) w calls := by
  induction calls generalizing w with
  | nil =>
      refine ⟨fun _ => trivial, fun _ n _ => ?_⟩
      rw [List.take_nil]
      exact accounted
  | cons call rest ih =>
      obtain ⟨stays, exact⟩ := plainWorld.step plain.1
      constructor
      · intro all
        have next : Accounted (w.step P call) := all 1 (by simp)
        refine ⟨(exact accounted).mp next, (ih stays next plain.2).mp fun n less => all (n + 1) (Nat.succ_le_succ less)⟩
      · rintro ⟨first, others⟩ n less
        have next : Accounted (w.step P call) := (exact accounted).mpr first
        cases n with
        | zero => exact accounted
        | succ n => exact (ih stays next plain.2).mpr others n (Nat.le_of_succ_le_succ less)

end PlainWorld

/-- In a run of requests and releases the usage is the sum of the payloads of the blocks in use,
after each of its calls, exactly when every request that is served is served by a block as large as
it is counted. -/
theorem usage_accounted_iff (calls : List HeapCall)
    (plain : StepsAllowed (World.step P) PlainCall (World.start P cap m) calls) :
    (∀ n ≤ calls.length, Accounted (runSteps (World.step P) (World.start P cap m) (calls.take n))) ↔
      StepsAllowed (World.step P) (ExactCall P) (World.start P cap m) calls := by
  refine PlainWorld.start.run ?_ calls plain
  rfl

/-- Two blocks are taken; the first, of 208 bytes, is released and serves a request for 160. -/
def unsplitCalls : List HeapCall :=
  [.alloc 208 0 0, .alloc 16 0 0, .free (0x400000 + 88), .alloc 160 0 0, .free (0x400000 + 88)]

theorem usage_accounted_two :
    Accounted (runSteps (World.step smallPlace) (World.start smallPlace 0 fun _ => 0)
    ([.alloc 208 0 0, .alloc 16 0 0].take 2)) :=
  (usage_accounted_iff [.alloc 208 0 0, .alloc 16 0 0] (by decide)).mpr
    ⟨Or.inr (Or.inr (by decide)), Or.inr (Or.inr (by decide)), trivial⟩ 2 (Nat.le_refl 2)

/-- The usage comes to 0 while a block of 16 bytes is in use. -/
theorem usage_lost :
    StepsAllowed (World.step smallPlace) PlainCall (World.start smallPlace 0 fun _ => 0)
    unsplitCalls ∧
    (runSteps (World.step smallPlace) (World.start smallPlace 0 fun _ => 0) unsplitCalls).heap.currentUsage = 0 ∧
      usedBytes (runSteps (World.step smallPlace) (World.start smallPlace 0 fun _ => 0) unsplitCalls).heap = 16 := by
  decide

end Cos.Kheap
