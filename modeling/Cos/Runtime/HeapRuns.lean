import Cos.Runtime.HeapSound
import Mathlib.Data.List.Nodup

/-! # Programs on the heap -/

namespace Cos.Runtime

open Cos.Lib

variable {W : HeapWindow} {h h' : Heap} {bs bs' : List Blk} {blk other given : Blk} {m m' : Memory}
  {a a' : LiveAlloc} {w w' : HeapWorld} {random size align x : Nat} {ok : Bool} {call : HeapCall}

theorem Represents.write (rep : Represents W h bs) (member : blk ∈ bs)
    (inside : ∀ s, blk.payload.Apart s → Agree h.mem m' s) :
    Represents W { h with mem := m' } bs ∧ Spares h.mem m' bs bs blk.addr := by
  have elsewhere : ∀ c ∈ bs, c.addr ≠ blk.addr → Agree h.mem m' c.extent := by
    intro c there distinct
    have apart := rep.apart_of_ne member there distinct.symm
    exact inside _ (apart.shrink (Nat.le_add_right _ _) (Nat.le_refl _))
  have headers : ∀ c ∈ bs, Agree h.mem m' (hdrSpan c.addr) := by
    intro c there
    by_cases same : c.addr = blk.addr
    · rw [same]
      exact inside _ (Or.inr (Nat.le_refl _))
    · exact (elsewhere c there same).shrink (Nat.le_refl _) (Nat.le_add_right _ _)
  exact ⟨rep.frame headers, fun c there _ distinct => ⟨there, elsewhere c there distinct⟩⟩

/-- The allocation lies in the block: at its payload, or behind a header of its own inside the
payload. -/
inductive Placed (m : Memory) (b : Blk) (a : LiveAlloc) : Prop
  | plain (raw : a.raw = b.addr + 32) (ptr : a.ptr = b.addr + 32) (room : a.bytes ≤ b.size)
  | past (raw : a.raw = b.addr + 32) (below : b.addr + 64 ≤ a.ptr)
      (magic : loadWord m (a.ptr - 32) 8 = alignedMagic) (rawWord : rawAt m a.ptr = a.raw)
      (room : a.bytes ≤ usableAt m a.ptr) (above : a.ptr + usableAt m a.ptr ≤ b.addr + 32 + b.size)

namespace Placed

theorem raw (placed : Placed m blk a) : a.raw = blk.addr + 32 := by
  cases placed <;> assumption

theorem inside (placed : Placed m blk a) :
    blk.addr + 32 ≤ a.ptr ∧ a.ptr + a.bytes ≤ blk.addr + 32 + blk.size := by
  cases placed with
  | plain raw ptr room => omega
  | past raw below magic rawWord room above => omega

theorem frame_below (placed : Placed m blk a) (agree : Agree m m' ⟨a.ptr - 32, a.ptr⟩) :
    Placed m' blk a := by
  cases placed with
  | plain raw ptr room => exact .plain raw ptr room
  | past raw below magic rawWord room above =>
      have sameMagic : loadWord m' (a.ptr - 32) 8 = loadWord m (a.ptr - 32) 8 :=
        agree.loadWord (Nat.le_refl _) (by simp only; omega)
      have sameRaw : rawAt m' a.ptr = rawAt m a.ptr :=
        agree.loadWord (Nat.le_add_right _ _) (by simp only [blockHdr]; omega)
      have sameUsable : usableAt m' a.ptr = usableAt m a.ptr :=
        agree.loadWord (Nat.le_add_right _ _) (by simp only [blockHdr]; omega)
      exact .past raw below (sameMagic.trans magic) (sameRaw.trans rawWord)
        (by rw [sameUsable]; exact room) (by rw [sameUsable]; exact above)

theorem frame (placed : Placed m blk a) (agree : Agree m m' blk.payload) : Placed m' blk a := by
  cases placed with
  | plain raw ptr room => exact .plain raw ptr room
  | past raw below magic rawWord room above =>
      exact frame_below (.past raw below magic rawWord room above)
        (agree.shrink (by simp only [Blk.payload]; omega) (by simp only [Blk.payload]; omega))

end Placed

theorem Represents.rawOf_plain (rep : Represents W h bs) (member : blk ∈ bs) :
    rawOf h.mem (blk.addr + 32) = blk.addr + 32 := by
  unfold rawOf
  rw [rep.not_aligned member, if_neg Bool.false_ne_true]

/-- Every allocation that the program holds lies in a block in use of its own. -/
structure WorldSound (W : HeapWindow) (w : HeapWorld) (bs : List Blk) : Prop where
  rep : Represents W w.heap bs
  placed : ∀ a ∈ w.live, ∃ b ∈ bs, b.free = false ∧ Placed w.heap.mem b a
  distinct : (w.live.map LiveAlloc.raw).Nodup
  aligned : ∀ a ∈ w.live, a.ptr % a.align = 0 ∧ a.ptr % 16 = 0

namespace WorldSound

theorem move (sound : WorldSound W w bs) (rep : Represents W h' bs')
    (spares : Spares w.heap.mem h'.mem bs bs' x) {live : List LiveAlloc}
    (fewer : live.Sublist w.live) (gone : ∀ a ∈ live, a.raw ≠ x + 32) :
    WorldSound W ⟨h', live⟩ bs' where
  rep := rep
  placed := by
    intro a member
    obtain ⟨b, there, used, placed⟩ := sound.placed a (fewer.subset member)
    have elsewhere : b.addr ≠ x := by
      rintro rfl
      exact gone a member placed.raw
    obtain ⟨stays, agree⟩ := spares b there used elsewhere
    exact ⟨b, stays, used, placed.frame (agree.shrink (Nat.le_add_right _ _) (Nat.le_refl _))⟩
  distinct := (fewer.map LiveAlloc.raw).nodup sound.distinct
  aligned := fun a member => sound.aligned a (fewer.subset member)

theorem take (sound : WorldSound W w bs) (member : blk ∈ bs) (used : blk.free = false)
    (placed : Placed w.heap.mem blk a) (fresh : ∀ a' ∈ w.live, a'.raw ≠ blk.addr + 32)
    (aligned : a.ptr % a.align = 0 ∧ a.ptr % 16 = 0) : WorldSound W ⟨w.heap, a :: w.live⟩ bs where
  rep := sound.rep
  placed := by
    intro a' there
    rcases List.mem_cons.mp there with rfl | there
    · exact ⟨blk, member, used, placed⟩
    · exact sound.placed a' there
  distinct := by
    refine List.nodup_cons.mpr ⟨fun there => ?_, sound.distinct⟩
    obtain ⟨a', live, same⟩ := List.mem_map.mp there
    exact fresh a' live (same.trans placed.raw)
  aligned := by
    intro a' there
    rcases List.mem_cons.mp there with rfl | there
    · exact aligned
    · exact sound.aligned a' there

theorem unique (sound : WorldSound W w bs) (member : a ∈ w.live) (another : a' ∈ w.live)
    (same : a.raw = a'.raw) : a = a' :=
  List.inj_on_of_nodup_map sound.distinct member another same

theorem apart (sound : WorldSound W w bs) (member : a ∈ w.live) (another : a' ∈ w.live)
    (differ : a ≠ a') : a.ptr + a.bytes ≤ a'.ptr ∧ a.ptr < a'.ptr ∨ a'.ptr + a'.bytes ≤ a.ptr ∧
    a'.ptr < a.ptr := by
  obtain ⟨b, there, -, placed⟩ := sound.placed a member
  obtain ⟨c, there', -, placed'⟩ := sound.placed a' another
  have distinct : b.addr ≠ c.addr := by
    intro same
    exact differ (sound.unique member another (by rw [placed.raw, placed'.raw, same]))
  have lower := placed.inside
  have upper := placed'.inside
  rcases sound.rep.apart_of_ne there there' distinct with before | after
  · simp only [Blk.extent] at before
    omega
  · simp only [Blk.extent] at after
    omega

theorem ptr_unique (sound : WorldSound W w bs) (member : a ∈ w.live) (another : a' ∈ w.live)
    (same : a.ptr = a'.ptr) : a = a' := by
  by_contra differ
  rcases sound.apart member another differ with before | after <;> omega

theorem free (sound : WorldSound W w bs) (member : a ∈ w.live) :
    ∃ bs' b, b ∈ bs ∧ Placed w.heap.mem b a ∧
      WorldSound W ⟨cosFree 2 w.heap a.ptr, w.live.filter fun c => c.ptr ≠ a.ptr⟩ bs' ∧
      Spares w.heap.mem (cosFree 2 w.heap a.ptr).mem bs bs' b.addr := by
  obtain ⟨b, there, used, placed⟩ := sound.placed a member
  have gone : ∀ c ∈ w.live.filter (fun c => c.ptr ≠ a.ptr), c.raw ≠ b.addr + 32 := by
    intro c still same
    obtain ⟨live, other⟩ := List.mem_filter.mp still
    rw [sound.unique live member (same.trans placed.raw.symm)] at other
    exact of_decide_eq_true other rfl
  have released : ∃ bs', Represents W (cosFree 2 w.heap a.ptr) bs' ∧
      Spares w.heap.mem (cosFree 2 w.heap a.ptr).mem bs bs' b.addr := by
    cases placed with
    | plain raw ptr room =>
        unfold cosFree
        rw [ptr, if_neg (by omega), sound.rep.not_aligned there, if_neg Bool.false_ne_true, blockHdr, Nat.add_sub_cancel]
        obtain ⟨bs', after, rest, -⟩ := freeBlock_spec sound.rep there used
        exact ⟨bs', after, rest⟩
    | past raw below magic rawWord room above =>
        have isAligned : cosIsAlignedBlock w.heap.mem a.ptr = true := decide_eq_true magic
        obtain ⟨rep, spares⟩ := @Represents.write W w.heap bs b (storeWord w.heap.mem (a.ptr - 32) 8 0) sound.rep there
          fun s apart => Agree.storeWord (apart.shrink (by simp only [Blk.payload]; omega) (by simp only [Blk.payload]; omega))
        obtain ⟨bs', after, rest, -⟩ := freeBlock_spec rep there used
        rw [cosFree, if_neg (by omega), isAligned, if_pos rfl, rawWord, raw, cosFree, if_neg (by omega)]
        have plain := rep.not_aligned there
        rw [plain, if_neg Bool.false_ne_true, Nat.add_sub_cancel]
        refine ⟨bs', after, fun c inside inUse elsewhere => ?_⟩
        obtain ⟨stays, first⟩ := spares c inside inUse elsewhere
        obtain ⟨remains, second⟩ := rest c stays inUse elsewhere
        exact ⟨remains, first.trans second⟩
  obtain ⟨bs', rep, spares⟩ := released
  exact ⟨bs', b, there, placed, sound.move rep spares List.filter_sublist gone, spares⟩

end WorldSound

theorem WorldSound.kept (sound : WorldSound W w bs) (spares : Spares w.heap.mem m' bs bs' x)
    (member : a ∈ w.live) (elsewhere : a.raw ≠ x + 32) :
    Agree w.heap.mem m' ⟨a.ptr, a.ptr + a.bytes⟩ := by
  obtain ⟨b, there, used, placed⟩ := sound.placed a member
  have distinct : b.addr ≠ x := by
    rintro rfl
    exact elsewhere placed.raw
  obtain ⟨lower, upper⟩ := placed.inside
  refine (spares b there used distinct).2.shrink ?_ upper
  exact Nat.le_trans (Nat.le_add_right _ _) lower

/-- What the program has after an allocation: nothing new, or a block of which it holds nothing
yet. -/
inductive Obtains (W : HeapWindow) (w : HeapWorld) (bs : List Blk) (size : Nat) (r : Heap × Nat) :
    Prop
  | fails (null : r.2 = 0) (sound : WorldSound W ⟨r.1, w.live⟩ bs) (same : r.1.mem = w.heap.mem)
  | gives (bs' : List Blk) (given : Blk) (ptr : r.2 = given.addr + 32) (room : Given bs' given size)
      (sound : WorldSound W ⟨r.1, w.live⟩ bs')
      (kept : ∀ a ∈ w.live, Agree w.heap.mem r.1.mem ⟨a.ptr, a.ptr + a.bytes⟩)
      (fresh : ∀ a ∈ w.live, a.raw ≠ given.addr + 32)

theorem WorldSound.raw_ne (sound : WorldSound W w bs) (member : a ∈ w.live) : a.raw ≠ 0 + 32 := by
  obtain ⟨b, there, -, placed⟩ := sound.placed a member
  have low := sound.rep.low there
  rw [placed.raw]
  omega

theorem WorldSound.malloc (sound : WorldSound W w bs) (roomy : Roomy W w.heap size) :
    Obtains W w bs size (cosMalloc W random w.heap size ok) := by
  by_cases zero : size = 0
  · have nothing : cosMalloc W random w.heap size ok = (w.heap, 0) := by
      exact if_pos zero
    rw [nothing]
    exact .fails rfl sound rfl
  have raw : ∀ a ∈ w.live, a.raw ≠ 0 + 32 := fun a member => sound.raw_ne member
  cases @cosMalloc_spec W w.heap bs random size ok sound.rep roomy zero with
  | fails null rep same =>
      refine .fails null ?_ same
      have spares : Spares w.heap.mem (cosMalloc W random w.heap size ok).1.mem bs bs 0 := by
        rw [same]
        exact .refl
      exact sound.move rep spares (List.Sublist.refl _) raw
  | gives bs' given ptr room rep spares fresh _ =>
      refine .gives bs' given ptr room (sound.move rep spares (List.Sublist.refl _) raw)
        (fun a member => sound.kept spares member (raw a member)) ?_
      intro a member same
      obtain ⟨b, there, used, placed⟩ := sound.placed a member
      exact fresh b there used (Nat.add_right_cancel (placed.raw.symm.trans same))

theorem WorldSound.fill (sound : WorldSound W w bs) (member : blk ∈ bs)
    (fresh : ∀ a ∈ w.live, a.raw ≠ blk.addr + 32)
    (inside : ∀ s, blk.payload.Apart s → Agree w.heap.mem m' s) :
    WorldSound W ⟨{ w.heap with mem := m' }, w.live⟩ bs ∧ Spares w.heap.mem m' bs bs blk.addr := by
  obtain ⟨rep, spares⟩ := sound.rep.write member inside
  exact ⟨sound.move rep spares (List.Sublist.refl _) fresh, spares⟩

theorem exists_two_pow {n : Nat} (positive : n ≠ 0) (mask : n &&& (n - 1) = 0) :
    ∃ k, n = 2 ^ k := by
  induction n using Nat.strong_induction_on with
  | _ n ih =>
      have half : n / 2 &&& (n - 1) / 2 = 0 := by rw [← Nat.and_div_two, mask]
      rcases Nat.mod_two_eq_zero_or_one n with even | odd
      · have before : (n - 1) / 2 = n / 2 - 1 := by omega
        rw [before] at half
        obtain ⟨k, power⟩ := ih (n / 2) (by omega) (by omega) half
        refine ⟨k + 1, ?_⟩
        omega
      · have before : (n - 1) / 2 = n / 2 := by omega
        rw [before, Nat.and_self] at half
        exact ⟨0, by omega⟩

theorem align_sixteen (positive : align ≠ 0) (mask : align &&& (align - 1) = 0) :
    (16 < align → align % 16 = 0) ∧ (align ≤ 16 → ∀ p, p % 16 = 0 → p % align = 0) := by
  obtain ⟨k, rfl⟩ := exists_two_pow positive mask
  constructor
  · intro large
    have exponent : 4 ≤ k := by
      by_contra small
      have bound : 2 ^ k ≤ 2 ^ 4 := Nat.pow_le_pow_right (by decide) (by omega)
      omega
    obtain ⟨j, rfl⟩ := Nat.exists_eq_add_of_le exponent
    rw [Nat.pow_add]
    exact Nat.mul_mod_right _ _
  · intro small p multiple
    have exponent : k ≤ 4 := by
      by_contra large
      have bound : 2 ^ 5 ≤ 2 ^ k := Nat.pow_le_pow_right (by decide) (by omega)
      omega
    have divides : 2 ^ k ∣ 16 := Nat.pow_dvd_pow 2 exponent
    exact Nat.mod_eq_zero_of_dvd (divides.trans (Nat.dvd_of_mod_eq_zero multiple))

def Untouched (m m' : Memory) (a : LiveAlloc) : Prop := Agree m m' ⟨a.ptr, a.ptr + a.bytes⟩

def Gained (w w' : HeapWorld) (bytes align : Nat) : Prop :=
  w'.live = w.live ∨ ∃ a, w'.live = a :: w.live ∧ a.bytes = bytes ∧ a.align = align

def Result (w w' : HeapWorld) : HeapCall → Prop
  | .malloc size _ => Gained w w' size 16
  | .calloc count size _ => Gained w w' (count * size) 16 ∧
      ∀ a, w'.live = a :: w.live → ∀ i, i < a.bytes → w'.heap.mem (a.ptr + i) = 0
  | .alignedAlloc align size _ => Gained w w' size align
  | .free ptr => w'.live = w.live.filter fun a => a.ptr ≠ ptr
  | .store _ _ _ => w'.live = w.live
  | .realloc ptr size _ =>
      if ptr = 0 then Gained w w' size 16
      else if size = 0 then w'.live = w.live.filter fun a => a.ptr ≠ ptr
      else ∀ a ∈ w.live, a.ptr = ptr →
        (w'.live = w.live ∧ Untouched w.heap.mem w'.heap.mem a) ∨
        ∃ a', w'.live = a' :: (w.live.filter fun a => a.ptr ≠ ptr) ∧ a'.bytes = size ∧ a'.align =
          16 ∧ ∀ i, i < min a.bytes size → w'.heap.mem (a'.ptr + i) = w.heap.mem (a.ptr + i)

structure CallOk (w w' : HeapWorld) (call : HeapCall) : Prop where
  keeps : ∀ a ∈ w.live, a ∈ w'.live → (∀ offset byte, call ≠ .store a.ptr offset byte) →
    Untouched w.heap.mem w'.heap.mem a
  result : Result w w' call

namespace Obtains

theorem fill {r : Heap × Nat} (obtains : Obtains W w bs size r) (some : r.2 ≠ 0)
    (inside : ∀ s, (⟨r.2, r.2 + size⟩ : Span).Apart s → Agree r.1.mem m' s) :
    Obtains W w bs size ({ r.1 with mem := m' }, r.2) := by
  cases obtains with
  | fails null sound same => exact (some null).elim
  | gives bs' given ptr room sound kept fresh =>
      have payload : ∀ s, given.payload.Apart s → Agree r.1.mem m' s := fun s apart =>
        inside s (apart.shrink (by simp only [Blk.payload]; omega) (by have := room.room; simp only [Blk.payload]; omega))
      obtain ⟨after, spares⟩ := sound.fill room.member fresh payload
      refine .gives bs' given ptr room after (fun a member => (kept a member).trans ?_) fresh
      exact sound.kept spares member (fresh a member)

theorem take {r : Heap × Nat} (obtains : Obtains W w bs size r)
    (divides : ∀ p, p % 16 = 0 → p % align = 0) : (∃ bs', WorldSound W (w.take r size align) bs') ∧
    (∀ a ∈ w.live, Untouched w.heap.mem (w.take r size align).heap.mem a) ∧
    Gained w (w.take r size align) size align := by
  unfold HeapWorld.take
  cases obtains with
  | fails null sound same =>
      rw [if_pos null]
      refine ⟨⟨bs, sound⟩, fun a member => ?_, Or.inl rfl⟩
      rw [same]
      exact Agree.refl
  | gives bs' given ptr room sound kept fresh =>
      have shape := (sound.rep.shape given room.member).1
      have even : r.2 % 16 = 0 := by omega
      rw [if_neg (by omega)]
      refine ⟨⟨bs', ?_⟩, kept, Or.inr ⟨_, rfl, rfl, rfl⟩⟩
      have raw : rawOf r.1.mem r.2 = given.addr + 32 := by
        rw [ptr]
        exact sound.rep.rawOf_plain room.member
      exact sound.take room.member room.used (.plain raw ptr room.room) fresh ⟨divides r.2 even, even⟩

end Obtains

theorem callOk_of_obtains {r : Heap × Nat} (obtains : Obtains W w bs size r)
    (result : Result w (w.take r size 16) call) :
    (∃ bs', WorldSound W (w.take r size 16) bs') ∧ CallOk w (w.take r size 16) call := by
  obtain ⟨sound, kept, -⟩ := obtains.take fun _ even => even
  exact ⟨sound, fun a member _ _ => kept a member, result⟩

theorem step_malloc (sound : WorldSound W w bs) (roomy : Roomy W w.heap size) :
    (∃ bs', WorldSound W (w.take (cosMalloc W random w.heap size ok) size 16) bs') ∧
    CallOk w (w.take (cosMalloc W random w.heap size ok) size 16) (.malloc size ok) :=
  callOk_of_obtains (sound.malloc roomy) ((sound.malloc roomy).take fun _ even => even).2.2

theorem step_calloc {count : Nat} (sound : WorldSound W w bs)
    (roomy : ¬ (count ≠ 0 ∧ (2 ^ 64 - 1) / count < size) → Roomy W w.heap (count * size)) :
    (∃ bs', WorldSound W (w.take (cosCalloc W random w.heap count size ok) (count * size) 16) bs') ∧
    CallOk w (w.take (cosCalloc W random w.heap count size ok) (count * size) 16)
    (.calloc count size ok) := by
  unfold cosCalloc
  by_cases past : count ≠ 0 ∧ (2 ^ 64 - 1) / count < size
  · rw [if_pos past]
    have obtains : Obtains W w bs (count * size) (w.heap, 0) := .fails rfl sound rfl
    refine callOk_of_obtains obtains ⟨Or.inl rfl, fun a more => ?_⟩
    have same : w.live = a :: w.live := more
    have longer := congrArg List.length same
    rw [List.length_cons] at longer
    omega
  rw [if_neg past]
  have obtains := @WorldSound.malloc W bs w random (count * size) ok sound (roomy past)
  generalize cosMalloc W random w.heap (count * size) ok = r at obtains ⊢
  by_cases null : r.2 = 0
  · rw [if_pos null]
    refine callOk_of_obtains obtains ⟨(obtains.take fun _ even => even).2.2, fun a more => ?_⟩
    unfold HeapWorld.take at more
    rw [if_pos null] at more
    have same : w.live = a :: w.live := more
    have longer := congrArg List.length same
    rw [List.length_cons] at longer
    omega
  · rw [if_neg null]
    have filled := obtains.fill null fun s apart =>
      @Agree.zeroBytes r.1.mem s r.2 (count * size) apart
    refine callOk_of_obtains filled ⟨(filled.take fun _ even => even).2.2, fun a more i less => ?_⟩
    unfold HeapWorld.take at more ⊢
    rw [if_neg null] at more ⊢
    have new := (List.cons.inj more).1
    rw [← new] at less ⊢
    exact if_pos ⟨Nat.le_add_right _ _, Nat.add_lt_add_left less _⟩

section

variable (m) (raw usable ptr : Nat)

theorem isAligned_setAlignedHdr :
    cosIsAlignedBlock (setAlignedHdr m ptr raw usable) ptr = true := by
  unfold cosIsAlignedBlock setAlignedHdr
  rw [loadWord_storeWord_of_apart (.inl (by omega)),
    loadWord_storeWord_of_apart (.inl (by omega)), loadWord_storeWord]
  decide

theorem rawAt_setAlignedHdr (small : raw < 2 ^ 64) :
    rawAt (setAlignedHdr m ptr raw usable) ptr = raw := by
  unfold rawAt setAlignedHdr
  rw [loadWord_storeWord_of_apart (.inl (by omega)), loadWord_storeWord]
  exact Nat.mod_eq_of_lt small

theorem usableAt_setAlignedHdr (small : usable < 2 ^ 64) :
    usableAt (setAlignedHdr m ptr raw usable) ptr = usable := by
  unfold usableAt setAlignedHdr
  rw [loadWord_storeWord]
  exact Nat.mod_eq_of_lt small

theorem agree_setAlignedHdr {s : Span} (apart : (⟨ptr - 32, ptr - 32 + 24⟩ : Span).Apart s) :
    Agree m (setAlignedHdr m ptr raw usable) s := by
  have word : ∀ i, i + 8 ≤ 24 →
    (⟨ptr - blockHdr + i, ptr - blockHdr + i + 8⟩ : Span).Apart s := fun i fits =>
    apart.shrink (by simp only [blockHdr]; omega) (by simp only [blockHdr]; omega)
  exact ((Agree.storeWord (word 0 (by decide))).trans (.storeWord (word 8 (by decide)))).trans
    (.storeWord (word 16 (by decide)))

end

theorem callOk_of_null {r : Heap × Nat} {bytes : Nat} (null : r.2 = 0)
    (sound : WorldSound W ⟨r.1, w.live⟩ bs) (same : r.1.mem = w.heap.mem) :
    (∃ bs', WorldSound W (w.take r bytes align) bs') ∧
    CallOk w (w.take r bytes align) (.alignedAlloc align bytes ok) := by
  unfold HeapWorld.take
  rw [if_pos null]
  refine ⟨⟨bs, sound⟩, fun a _ _ _ => ?_, Or.inl rfl⟩
  rw [same]
  exact Agree.refl

theorem step_alignedAlloc (sound : WorldSound W w bs)
    (roomy : ¬ (align = 0 ∨ align &&& (align - 1) ≠ 0) → size ≠ 0 →
      (align ≤ 16 → Roomy W w.heap size) ∧
      (16 < align → size ≤ 2 ^ 64 - 1 - align - 32 → Roomy W w.heap (size + align + 32))) :
    (∃ bs', WorldSound W (w.take (cosAlignedAlloc W random w.heap align size ok) size align) bs') ∧
    CallOk w (w.take (cosAlignedAlloc W random w.heap align size ok) size align)
    (.alignedAlloc align size ok) := by
  unfold cosAlignedAlloc
  by_cases bad : align = 0 ∨ align &&& (align - 1) ≠ 0
  · rw [if_pos bad]
    exact callOk_of_null rfl sound rfl
  rw [if_neg bad]
  by_cases zero : size = 0
  · rw [if_pos zero]
    exact callOk_of_null rfl sound rfl
  rw [if_neg zero]
  obtain ⟨small, large⟩ := roomy bad zero
  rw [not_or, not_not] at bad
  obtain ⟨sixteen, divides⟩ := align_sixteen bad.1 bad.2
  by_cases low : align ≤ mallocAlign
  · rw [if_pos low]
    obtain ⟨after, kept, gained⟩ :=
      (@WorldSound.malloc W bs w random size ok sound (small low)).take (divides low)
    exact ⟨after, fun a member _ _ => kept a member, gained⟩
  rw [if_neg low]
  by_cases past : 2 ^ 64 - 1 - align - blockHdr < size
  · rw [if_pos past]
    exact callOk_of_null rfl sound rfl
  rw [if_neg past]
  simp only [mallocAlign, blockHdr, Nat.not_le, Nat.not_lt] at low past
  have obtains := @WorldSound.malloc W bs w random (size + align + 32) ok sound (large low past)
  generalize cosMalloc W random w.heap (size + align + 32) ok = r at obtains ⊢
  cases obtains with
  | fails null sound same =>
      simp only [if_pos null]
      exact callOk_of_null null sound same
  | gives bs' given ptr room sound' kept fresh =>
      have highAddr := sound'.rep.high room.member
      have enough := room.room
      simp only [if_neg (show r.2 ≠ 0 by omega)]
      have multiple : (r.2 + 32 + align - 1) / align * align % align = 0 := Nat.mul_mod_left _ _
      have above : r.2 + 32 ≤ (r.2 + 32 + align - 1) / align * align := by
        have upper := @Nat.lt_div_mul_add (r.2 + 32 + align - 1) align (by omega)
        omega
      have below : (r.2 + 32 + align - 1) / align * align ≤ r.2 + 32 + align - 1 := Nat.div_mul_le_self _ _
      generalize (r.2 + 32 + align - 1) / align * align = p at multiple above below ⊢
      have even : p % 16 = 0 :=
        Nat.mod_eq_zero_of_dvd ((Nat.dvd_of_mod_eq_zero (sixteen low)).trans (Nat.dvd_of_mod_eq_zero multiple))
      have inside : ∀ s, given.payload.Apart s → Agree r.1.mem (setAlignedHdr r.1.mem p r.2 size) s := fun s apart =>
        agree_setAlignedHdr _ _ _ _ (apart.shrink (by simp only [Blk.payload]; omega) (by simp only [Blk.payload]; omega))
      obtain ⟨after, spares⟩ := sound'.fill room.member fresh inside
      have isAligned := isAligned_setAlignedHdr r.1.mem r.2 size p
      have raw := rawAt_setAlignedHdr r.1.mem r.2 size p (by omega)
      have usable := usableAt_setAlignedHdr r.1.mem r.2 size p (by omega)
      have rawPtr : rawOf (setAlignedHdr r.1.mem p r.2 size) p = given.addr + 32 := by
        unfold rawOf
        rw [if_pos isAligned, raw, ptr]
      have placed : Placed (setAlignedHdr r.1.mem p r.2 size) given
          ⟨p, size, align, rawOf (setAlignedHdr r.1.mem p r.2 size) p⟩ :=
        .past rawPtr (by simp only; omega) (of_decide_eq_true isAligned) (by rw [raw, rawPtr, ptr])
          (Nat.le_of_eq usable.symm) (by simp only; omega)
      unfold HeapWorld.take
      rw [if_neg (by omega)]
      refine ⟨⟨bs', after.take room.member room.used placed fresh ⟨multiple, even⟩⟩,
        fun a member _ _ => ?_, Or.inr ⟨_, rfl, rfl, rfl⟩⟩
      exact (kept a member).trans (sound'.kept spares member (fresh a member))

theorem step_free {ptr : Nat} (sound : WorldSound W w bs) (holds : w.Holds ptr) :
    (∃ bs', WorldSound W { w.drop ptr with heap := cosFree 2 w.heap ptr } bs') ∧
    ∀ a ∈ (w.drop ptr).live, Untouched w.heap.mem (cosFree 2 w.heap ptr).mem a := by
  rcases holds with rfl | ⟨a, member, rfl⟩
  · have raw : ∀ a ∈ (w.drop 0).live, a.raw ≠ 0 + 32 :=
      fun a still => sound.raw_ne (List.mem_of_mem_filter still)
    exact ⟨⟨bs, sound.move sound.rep .refl List.filter_sublist raw⟩, fun a _ => Agree.refl⟩
  · obtain ⟨bs', b, there, placed, after, spares⟩ := sound.free member
    refine ⟨⟨bs', after⟩, fun c still => ?_⟩
    obtain ⟨live, other⟩ := List.mem_filter.mp still
    refine sound.kept spares live fun same => ?_
    rw [sound.unique live member (same.trans placed.raw.symm)] at other
    exact of_decide_eq_true other rfl

/-- The bytes that `cos_realloc` takes for the old size. -/
def oldSizeAt (m : Memory) (ptr : Nat) : Nat :=
  if cosIsAlignedBlock m ptr then usableAt m ptr else sizeAt m (ptr - blockHdr)

theorem WorldSound.oldSize (sound : WorldSound W w bs) (member : a ∈ w.live) :
    ∃ b ∈ bs, b.free = false ∧ Placed w.heap.mem b a ∧ a.bytes ≤ oldSizeAt w.heap.mem a.ptr ∧
      a.ptr + oldSizeAt w.heap.mem a.ptr ≤ b.addr + 32 + b.size ∧
      (!cosIsAlignedBlock w.heap.mem a.ptr &&
      !blkCheck w.heap.cookie w.heap.mem (a.ptr - blockHdr)) = false ∧
      rawOf w.heap.mem a.ptr = a.raw ∧
      ∀ n, n ≤ oldSizeAt w.heap.mem a.ptr → Placed w.heap.mem b ⟨a.ptr, n, 16, a.raw⟩ := by
  obtain ⟨b, there, used, placed⟩ := sound.placed a member
  refine ⟨b, there, used, placed, ?_⟩
  unfold oldSizeAt rawOf
  cases placed with
  | plain raw ptr room =>
      have size := (sound.rep.linked.sealed there).size
      have check := (sound.rep.linked.sealed there).check (sound.rep.secret (List.ne_nil_of_mem there))
      rw [ptr, sound.rep.not_aligned there, if_neg Bool.false_ne_true, if_neg Bool.false_ne_true,
        blockHdr, Nat.add_sub_cancel, size, check]
      exact ⟨room, Nat.le_refl _, rfl, raw.symm, fun n less => .plain raw rfl less⟩
  | past raw below magic rawWord room above =>
      have isAligned : cosIsAlignedBlock w.heap.mem a.ptr = true := decide_eq_true magic
      rw [isAligned, if_pos rfl, if_pos rfl]
      exact ⟨room, above, rfl, rawWord, fun n less => .past raw below magic rawWord less above⟩

theorem result_realloc {ptr : Nat} (some : ptr ≠ 0) (positive : size ≠ 0)
    (each : ∀ a ∈ w.live, a.ptr = ptr → (w'.live = w.live ∧ Untouched w.heap.mem w'.heap.mem a) ∨
      ∃ a', w'.live = a' :: (w.live.filter fun a => a.ptr ≠ ptr) ∧ a'.bytes = size ∧ a'.align = 16 ∧
        ∀ i, i < min a.bytes size → w'.heap.mem (a'.ptr + i) = w.heap.mem (a.ptr + i)) :
    Result w w' (.realloc ptr size ok) := by
  simp only [Result, if_neg some, if_neg positive]
  exact each

theorem WorldSound.relocate {r : Heap × Nat} {old : Nat} (member : a ∈ w.live)
    (obtains : Obtains W w bs size r) (null : r.2 ≠ 0) (least : a.bytes ≤ old) (most : old ≤ size) :
    let h' := cosFree 2 { r.1 with mem := copyBytes r.1.mem r.2 a.ptr old } a.ptr
    let w' := (w.drop a.ptr).take (h', r.2) size 16
    (∃ bs', WorldSound W w' bs') ∧
      (∀ c ∈ w.live, c ∈ w'.live → Untouched w.heap.mem w'.heap.mem c) ∧
      w'.live = ⟨r.2, size, 16, r.2⟩ :: (w.drop a.ptr).live ∧ ∀ i, i < a.bytes →
      w'.heap.mem (r.2 + i) = w.heap.mem (a.ptr + i) := by
  intro h' w'
  have filled := @Obtains.fill W bs (copyBytes r.1.mem r.2 a.ptr old) w size r obtains null
    fun s apart =>
    Agree.copyBytes (apart.shrink (Nat.le_refl _) (by simp only; omega))
  cases obtains with
  | fails no sound' same => exact (null no).elim
  | gives bs0 given0 ptr0 room0 sound0 kept0 fresh0 =>
  cases filled with
  | fails no sound' same => exact (null no).elim
  | gives bs1 given ptr room sound1 kept fresh =>
      have even : r.2 % 16 = 0 := by
        have shape := (sound1.rep.shape given room.member).1
        omega
      have both := @WorldSound.take W bs1 given ⟨r.2, size, 16, r.2⟩ _ sound1 room.member room.used
        (.plain ptr ptr room.room) fresh ⟨even, even⟩
      obtain ⟨bs2, b, there, placed, after, spares⟩ := both.free (List.mem_cons_of_mem _ member)
      have distinct : given.addr ≠ b.addr := by
        intro same
        exact fresh a member (by rw [placed.raw, same])
      obtain ⟨stays, agree⟩ := spares given room.member room.used distinct
      have moved : (⟨r.2, size, 16, r.2⟩ : LiveAlloc).ptr ≠ a.ptr := by
        intro same
        have equal := both.ptr_unique List.mem_cons_self (List.mem_cons_of_mem _ member) same
        have rawSame : r.2 = a.raw := congrArg LiveAlloc.raw equal
        exact fresh a member (rawSame.symm.trans ptr)
      have rawNew : rawOf h'.mem r.2 = r.2 := by
        rw [ptr]
        exact after.rep.rawOf_plain stays
      have live : w'.live = ⟨r.2, size, 16, r.2⟩ :: (w.drop a.ptr).live := by
        unfold w' HeapWorld.take
        rw [if_neg null, rawNew]
      have heap : w'.heap = h' := by
        unfold w' HeapWorld.take
        rw [if_neg null]
      have world : w' = ⟨h', (⟨r.2, size, 16, r.2⟩ :: w.live).filter fun c => c.ptr ≠ a.ptr⟩ := by
        have keeps : ((⟨r.2, size, 16, r.2⟩ : LiveAlloc) :: w.live).filter (fun c => c.ptr ≠ a.ptr) =
            ⟨r.2, size, 16, r.2⟩ :: w.live.filter fun c => c.ptr ≠ a.ptr := List.filter_cons_of_pos (by simpa using moved)
        rw [keeps]
        unfold w' HeapWorld.take
        rw [if_neg null, rawNew]
        rfl
      refine ⟨⟨bs2, by rw [world]; exact after⟩, ?_, live, ?_⟩
      · intro c inLive still
        rw [live] at still
        have still : c ∈ (w.drop a.ptr).live := by
          rcases List.mem_cons.mp still with rfl | still
          · exact (fresh _ inLive ptr).elim
          · exact still
        have other := (List.mem_filter.mp still).2
        rw [heap]
        refine (kept c inLive).trans (both.kept spares (List.mem_cons_of_mem _ inLive) fun same => ?_)
        rw [both.unique (List.mem_cons_of_mem _ inLive) (List.mem_cons_of_mem _ member) (same.trans placed.raw.symm)] at other
        exact of_decide_eq_true other rfl
      · intro i less
        have enough := room.room
        have final := agree (r.2 + i) (by simp only [Blk.extent]; omega) (by simp only [Blk.extent]; omega)
        have copied : copyBytes r.1.mem r.2 a.ptr old (r.2 + i) = r.1.mem (a.ptr + i) := by
          unfold copyBytes
          rw [if_pos ⟨Nat.le_add_right _ _, by omega⟩, Nat.add_sub_cancel_left]
        have before := kept0 a member (a.ptr + i) (Nat.le_add_right _ _) (Nat.add_lt_add_left less _)
        rw [heap]
        exact final.trans (copied.trans before)

theorem step_realloc {ptr : Nat} (sound : WorldSound W w bs) (holds : w.Holds ptr)
    (roomy : Roomy W w.heap size) (some : ptr ≠ 0) (positive : size ≠ 0) {r : Heap × Nat}
    (called : cosRealloc W random w.heap ptr size ok = r)
    {w' : HeapWorld} (after : w' = if r.2 = 0 then { w with heap := r.1 }
    else (w.drop ptr).take r size 16) :
    (∃ bs', WorldSound W w' bs') ∧ CallOk w w' (.realloc ptr size ok) := by
  obtain ⟨a, member, rfl⟩ := holds.resolve_left some
  obtain ⟨b, there, used, placed, least, most, passes, raw, shrunk⟩ := sound.oldSize member
  unfold cosRealloc at called
  rw [if_neg some, if_neg positive] at called
  simp only [passes, Bool.false_eq_true, if_false] at called
  change (if size ≤ oldSizeAt w.heap.mem a.ptr then _ else _) = r at called
  have only : ∀ c ∈ w.live, c.ptr = a.ptr → c = a :=
    fun c live same => sound.ptr_unique live member same
  by_cases inPlace : size ≤ oldSizeAt w.heap.mem a.ptr
  · rw [if_pos inPlace] at called
    subst called
    rw [if_neg some] at after
    unfold HeapWorld.take at after
    rw [if_neg some, raw] at after
    subst after
    have smaller : WorldSound W ⟨w.heap, (w.drop a.ptr).live⟩ bs := by
      have raw : ∀ c ∈ (w.drop a.ptr).live, c.raw ≠ 0 + 32 := fun c still => sound.raw_ne (List.mem_of_mem_filter still)
      exact sound.move sound.rep .refl List.filter_sublist raw
    have fresh : ∀ c ∈ (w.drop a.ptr).live, c.raw ≠ b.addr + 32 := by
      intro c still same
      obtain ⟨live, other⟩ := List.mem_filter.mp still
      rw [sound.unique live member (same.trans placed.raw.symm)] at other
      exact of_decide_eq_true other rfl
    have aligned := (sound.aligned a member).2
    refine ⟨⟨bs, smaller.take there used (shrunk size inPlace) fresh ⟨aligned, aligned⟩⟩,
      fun c _ _ _ => Agree.refl, ?_⟩
    refine result_realloc some positive fun c live same => ?_
    rw [only c live same]
    exact .inr ⟨_, rfl, rfl, rfl, fun i _ => rfl⟩
  · rw [if_neg inPlace] at called
    have obtains := @WorldSound.malloc W bs w random size ok sound roomy
    generalize cosMalloc W random w.heap size ok = r0 at obtains called
    by_cases null : r0.2 = 0
    · rw [if_pos null] at called
      subst called
      rw [if_pos null] at after
      subst after
      cases obtains with
      | fails _ sound' same =>
          have untouched : ∀ c ∈ w.live, Untouched w.heap.mem r0.1.mem c := by
            intro c _
            rw [same]
            exact Agree.refl
          refine ⟨⟨bs, sound'⟩, fun c live _ _ => untouched c live, ?_⟩
          exact result_realloc some positive fun c live _ => .inl ⟨rfl, untouched c live⟩
      | gives bs' given ptr room sound' kept fresh =>
          omega
    · rw [if_neg null] at called
      obtain ⟨after', kept, live, copied⟩ := @WorldSound.relocate W bs a w size r0
        (oldSizeAt w.heap.mem a.ptr) member obtains null least (Nat.le_of_not_le inPlace)
      subst called
      rw [if_neg null] at after
      subst after
      refine ⟨after', fun c inLive still _ => kept c inLive still, ?_⟩
      refine result_realloc some positive fun c inLive same => ?_
      rw [only c inLive same]
      exact .inr ⟨_, live, rfl, rfl, fun i less => copied i (Nat.lt_of_lt_of_le less (Nat.min_le_left _ _))⟩

theorem step_store {offset : Nat} {byte : UInt8} (sound : WorldSound W w bs) (member : a ∈ w.live)
    (less : offset < a.bytes) :
    WorldSound W { w with heap := { w.heap with mem := Function.update w.heap.mem (a.ptr + offset) byte } } bs ∧
    ∀ c ∈ w.live, c.ptr ≠ a.ptr →
    Untouched w.heap.mem (Function.update w.heap.mem (a.ptr + offset) byte) c := by
  obtain ⟨b, there, used, placed⟩ := sound.placed a member
  have inside := placed.inside
  have elsewhere : ∀ s : Span, (s.stop ≤ a.ptr + offset ∨ a.ptr + offset < s.start) →
      Agree w.heap.mem (Function.update w.heap.mem (a.ptr + offset) byte) s := by
    intro s clear x lower upper
    exact Function.update_of_ne (by omega) _ _
  obtain ⟨rep, spares⟩ :=
    @Represents.write W w.heap bs b (Function.update w.heap.mem (a.ptr + offset) byte) sound.rep
      there
    fun s apart => elsewhere s (by simp only [Span.Apart, Blk.payload] at apart; omega)
  refine ⟨⟨rep, ?_, sound.distinct, sound.aligned⟩, ?_⟩
  · intro c live
    by_cases same : c = a
    · rw [same]
      exact ⟨b, there, used, placed.frame_below (elsewhere _ (.inl (Nat.le_add_right _ _)))⟩
    · obtain ⟨d, thereD, usedD, placedD⟩ := sound.placed c live
      have distinct : d.addr ≠ b.addr := fun equal => same (sound.unique live member (by rw [placedD.raw, placed.raw, equal]))
      obtain ⟨stays, agree⟩ := spares d thereD usedD distinct
      exact ⟨d, stays, usedD, placedD.frame (agree.shrink (Nat.le_add_right _ _) (Nat.le_refl _))⟩
  · intro c live other
    rcases sound.apart live member (fun same => other (congrArg LiveAlloc.ptr same)) with before |
      after
    · exact elsewhere _ (.inl (by simp only; omega))
    · exact elsewhere _ (.inr (by simp only; omega))

/-- The bytes asked of `cos_malloc` stay inside its arithmetic. -/
def Fits (W : HeapWindow) (h : Heap) : HeapCall → Prop
  | .malloc size _ => Roomy W h size
  | .calloc count size _ => ¬ (count ≠ 0 ∧ (2 ^ 64 - 1) / count < size) → Roomy W h (count * size)
  | .realloc _ size _ => Roomy W h size
  | .alignedAlloc align size _ => ¬ (align = 0 ∨ align &&& (align - 1) ≠ 0) → size ≠ 0 →
      (align ≤ 16 → Roomy W h size) ∧
      (16 < align → size ≤ 2 ^ 64 - 1 - align - 32 → Roomy W h (size + align + 32))
  | .free _ | .store _ _ _ => True

def fitting (W : HeapWindow) (w : HeapWorld) (call : HeapCall) : Prop :=
  w.Proper call ∧ Fits W w.heap call

theorem step_sound (sound : WorldSound W w bs) (allowed : fitting W w call) :
    (∃ bs', WorldSound W (w.step W random call) bs') ∧ CallOk w (w.step W random call) call := by
  obtain ⟨proper, fits⟩ := allowed
  unfold HeapWorld.step
  rw [if_neg (by rw [sound.rep.running]; exact Bool.false_ne_true)]
  cases call with
  | malloc size ok => exact step_malloc sound fits
  | calloc count size ok => exact step_calloc sound fits
  | alignedAlloc align size ok => exact step_alignedAlloc sound fits
  | free ptr =>
      obtain ⟨after, kept⟩ := step_free sound proper
      exact ⟨after, fun a _ still _ => kept a still, rfl⟩
  | store ptr offset byte =>
      obtain ⟨a, member, rfl, less⟩ := proper
      obtain ⟨after, kept⟩ := @step_store W bs a w offset byte sound member less
      refine ⟨⟨bs, after⟩, fun c live _ other => kept c live ?_, rfl⟩
      intro same
      exact other offset byte (by rw [same])
  | realloc ptr size ok =>
      by_cases null : ptr = 0
      · simp only [if_pos null]
        have plain : cosRealloc W random w.heap ptr size ok = cosMalloc W random w.heap size ok := by
          exact if_pos null
        rw [plain]
        obtain ⟨after, kept, gained⟩ := (@WorldSound.malloc W bs w random size ok sound fits).take fun _ even => even
        refine ⟨after, fun a member _ _ => kept a member, ?_⟩
        simp only [Result, if_pos null]
        exact gained
      · by_cases zero : size = 0
        · simp only [if_neg null, if_pos zero]
          have released : cosRealloc W random w.heap ptr size ok = (cosFree 2 w.heap ptr, 0) := by
            unfold cosRealloc
            rw [if_neg null, if_pos zero]
          rw [released]
          obtain ⟨after, kept⟩ := step_free sound proper.1
          refine ⟨after, fun a _ still _ => kept a still, ?_⟩
          simp only [Result, if_neg null, if_pos zero]
          rfl
        · simp only [if_neg null, if_neg zero]
          exact step_realloc sound proper.1 fits null zero rfl rfl

theorem start_sound (W : HeapWindow) (mem : Memory) : WorldSound W (HeapWorld.start W mem) [] where
  rep :=
    { running := rfl
      cookie := Nat.two_pow_pos 64
      secret := fun some => (some rfl).elim
      linked := rfl
      tiled := .nil
      shape := fun _ member => (List.not_mem_nil member).elim
      descending := List.Pairwise.nil
      within := fun _ member => (List.not_mem_nil member).elim
      window := ⟨Nat.le_refl _, W.order, W.aligned⟩ }
  placed := fun _ member => (List.not_mem_nil member).elim
  distinct := List.Pairwise.nil
  aligned := fun _ member => (List.not_mem_nil member).elim

/-- The blocks reachable from the head, and the allocations in them. -/
structure HeapSound (w : HeapWorld) (bs : List Blk) : Prop where
  running : w.heap.stopped = false
  /-- From the head on, every block with a valid seal. -/
  linked : Linked w.heap.cookie w.heap.mem 0 w.heap.head bs
  apart : bs.Pairwise fun b c => b.extent.Apart c.extent
  tile : ∀ x, (∃ b ∈ bs, b.extent.start ≤ x ∧ x < b.extent.stop) ↔
    ∃ c ∈ w.heap.chunks, c.start ≤ x ∧ x < c.stop
  live : ∀ a ∈ w.live, a.ptr % a.align = 0 ∧
    ∃ b ∈ bs, b.free = false ∧ b.payload.start ≤ a.ptr ∧ a.ptr + a.bytes ≤ b.payload.stop
  payloads : w.live.Pairwise fun a a' =>
    (⟨a.ptr, a.ptr + a.bytes⟩ : Span).Apart ⟨a'.ptr, a'.ptr + a'.bytes⟩

theorem WorldSound.heapSound (sound : WorldSound W w bs) : HeapSound w bs where
  running := sound.rep.running
  linked := sound.rep.linked
  apart := sound.rep.apart
  tile := by
    intro x
    rw [← sound.rep.tiled.covers x]
    constructor
    · rintro ⟨b, member, inside⟩
      exact ⟨b.extent, List.mem_map_of_mem member, inside⟩
    · rintro ⟨t, member, inside⟩
      obtain ⟨b, there, rfl⟩ := List.mem_map.mp member
      exact ⟨b, there, inside⟩
  live := by
    intro a member
    obtain ⟨b, there, used, placed⟩ := sound.placed a member
    exact ⟨(sound.aligned a member).1, b, there, used, placed.inside.1, placed.inside.2⟩
  payloads := by
    refine List.Pairwise.imp_of_mem ?_ (List.pairwise_map.mp sound.distinct)
    intro a a' member another differ
    rcases sound.apart member another (fun same => differ (congrArg LiveAlloc.raw same)) with
      before | after
    · exact Or.inl before.1
    · exact Or.inr after.1

structure HeapOk (W : HeapWindow) (random : Nat) (mem : Memory) : Prop where
  heap : ∀ w, Reaches (HeapWorld.step W random) (fitting W) (HeapWorld.start W mem) w →
    ∃ bs, HeapSound w bs
  calls : ∀ w, Reaches (HeapWorld.step W random) (fitting W) (HeapWorld.start W mem) w →
    ∀ call, fitting W w call → CallOk w (w.step W random call) call

theorem heap_ok (W : HeapWindow) (random : Nat) (mem : Memory) : HeapOk W random mem := by
  have sound : ∀ w, Reaches (HeapWorld.step W random) (fitting W) (HeapWorld.start W mem) w →
    ∃ bs, WorldSound W w bs := by
    intro w reached
    refine @Reaches.invariant _ _ _ _ _ _ (fun w => ∃ bs, WorldSound W w bs) reached
      ⟨[], start_sound W mem⟩ ?_
    rintro w call ⟨bs, sound⟩ allowed
    exact (step_sound sound allowed).1
  constructor
  · intro w reached
    obtain ⟨bs, sound⟩ := sound w reached
    exact ⟨bs, sound.heapSound⟩
  · intro w reached call allowed
    obtain ⟨bs, sound⟩ := sound w reached
    exact (step_sound sound allowed).2

def userWindow : HeapWindow where
  start := 0x18000000000
  limit := 0x18020000000
  positive := by decide
  aligned := by decide
  order := by decide
  canonical := by decide

/-- The block that `cos_malloc` gives for `SIZE_MAX` bytes has room for none. -/
theorem size_max_is_given : ¬ ∀ w, Reaches (HeapWorld.step userWindow 7) HeapWorld.Proper
    (HeapWorld.start userWindow fun _ => 0) w → ∃ bs, HeapSound w bs := by
  intro claim
  have proper : HeapWorld.Proper (HeapWorld.start userWindow fun _ => 0)
    (.malloc (2 ^ 64 - 1) true) := by
    simp only [HeapWorld.Proper]
    omega
  obtain ⟨bs, sound⟩ := claim _ (Reaches.refl.next proper)
  have live : ((HeapWorld.start userWindow fun _ => 0).step userWindow 7 (.malloc (2 ^ 64 - 1) true)).live =
      [⟨0x18000000020, 2 ^ 64 - 1, 16, 0x18000000020⟩] := by decide +kernel
  have chunks : ((HeapWorld.start userWindow fun _ => 0).step userWindow 7 (.malloc (2 ^ 64 - 1) true)).heap.chunks =
      [⟨0x18000000000, 0x18000010000⟩] := by decide
  obtain ⟨-, b, there, -, lower, upper⟩ := sound.live ⟨0x18000000020, 2 ^ 64 - 1, 16, 0x18000000020⟩
    (by rw [live]; exact List.mem_cons_self)
  obtain ⟨c, chunk, -, inside⟩ := (sound.tile (b.addr + 31 + b.size)).mp
    ⟨b, there, by simp only [Blk.extent]; omega, by simp only [Blk.extent]; omega⟩
  rw [chunks] at chunk
  rcases List.mem_singleton.mp chunk with rfl
  simp only [Blk.payload] at lower upper inside
  omega

end Cos.Runtime
