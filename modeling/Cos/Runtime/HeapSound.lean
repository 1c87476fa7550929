import Cos.Runtime.HeapList

/-! # The heap and its list of blocks -/

namespace Cos.Runtime

open Cos.Lib

variable {W : HeapWindow} {h h' : Heap} {bs bs' pre post seg mid : List Blk} {blk other : Blk}
  {m m' : Memory} {random size : Nat} {ok : Bool}

/-- The list of blocks is linked from the head with valid seals, and it tiles what `sbrk` gave. -/
structure Represents (W : HeapWindow) (h : Heap) (bs : List Blk) : Prop where
  running : h.stopped = false
  cookie : h.cookie < 2 ^ 64
  secret : bs ≠ [] → h.cookie ≠ 0
  linked : Linked h.cookie h.mem 0 h.head bs
  tiled : Tiled h.chunks (bs.map Blk.extent)
  shape : ∀ b ∈ bs, b.addr % 16 = 0 ∧ b.size % 16 = 0
  descending : Descending h.chunks
  within : ∀ c ∈ h.chunks, W.start ≤ c.start ∧ c.start < c.stop ∧ c.stop ≤ h.heapEnd
  window : W.start ≤ h.heapEnd ∧ h.heapEnd ≤ W.limit ∧ h.heapEnd % 4096 = 0

namespace Represents

theorem bounds (rep : Represents W h bs) (member : blk ∈ bs) :
    W.start ≤ blk.addr ∧ blk.addr + 32 + blk.size ≤ h.heapEnd := by
  obtain ⟨c, chunk, lower, upper⟩ := rep.tiled.inside (List.mem_map_of_mem member)
  obtain ⟨above, -, below⟩ := rep.within c chunk
  exact ⟨Nat.le_trans above lower, Nat.le_trans upper below⟩

theorem low (rep : Represents W h bs) (member : blk ∈ bs) : 4096 ≤ blk.addr := by
  have lower := (rep.bounds member).1
  have positive := W.positive
  have aligned := W.aligned
  omega

theorem high (rep : Represents W h bs) (member : blk ∈ bs) : blk.addr + 32 + blk.size < 2 ^ 47 :=
  Nat.lt_of_le_of_lt (Nat.le_trans (rep.bounds member).2 rep.window.2.1) W.canonical

theorem apart (rep : Represents W h bs) : bs.Pairwise fun b c => b.extent.Apart c.extent :=
  List.pairwise_map.mp (rep.tiled.apart rep.descending)

theorem apart_of_ne (rep : Represents W h bs) (member : blk ∈ bs) (another : other ∈ bs)
    (distinct : blk.addr ≠ other.addr) : blk.extent.Apart other.extent := by
  have symmetric : Std.Symm fun b c : Blk => b.extent.Apart c.extent :=
    ⟨fun _ _ apart => apart.symm⟩
  refine rep.apart.forall member another ?_
  rintro rfl
  exact distinct rfl

theorem unique (rep : Represents W h bs) (member : blk ∈ bs) (another : other ∈ bs)
    (same : blk.addr = other.addr) : blk = other := by
  have first := rep.linked.sealed member
  have second := rep.linked.sealed another
  obtain ⟨a, s, f⟩ := blk
  obtain ⟨a', s', f'⟩ := other
  obtain rfl : a = a' := same
  obtain rfl : s = s' := first.size.symm.trans second.size
  obtain rfl : f = f' := first.free.symm.trans second.free
  rfl

theorem short (rep : Represents W h bs) : bs.length < walkFuel W h := by
  have wide : ∀ t ∈ bs.map Blk.extent, t.start + 32 ≤ t.stop := by
    intro t member
    obtain ⟨b, -, rfl⟩ := List.mem_map.mp member
    exact Nat.le_add_right _ _
  have count := rep.tiled.length_le wide
  have room := rep.descending.extent_le fun c chunk =>
    ⟨(rep.within c chunk).1, Nat.le_of_lt (rep.within c chunk).2.1, (rep.within c chunk).2.2⟩
  rw [List.length_map] at count
  unfold walkFuel
  simp only [blockHdr]
  omega

theorem not_aligned (rep : Represents W h bs) (member : blk ∈ bs) :
    cosIsAlignedBlock h.mem (blk.addr + 32) = false := by
  have size : loadWord h.mem blk.addr 8 = blk.size := (rep.linked.sealed member).size
  have shape := (rep.shape blk member).2
  unfold cosIsAlignedBlock
  rw [blockHdr, Nat.add_sub_cancel, size]
  exact decide_eq_false (by simp only [alignedMagic]; omega)

theorem off (rep : Represents W h bs) (member : blk ∈ bs) {s : Span}
    (outside : s.stop ≤ W.start ∨ W.limit ≤ s.start) : blk.extent.Apart s := by
  obtain ⟨lower, upper⟩ := rep.bounds member
  have limit := rep.window.2.1
  rcases outside with below | above
  · exact Or.inr (by simp only [Blk.extent]; omega)
  · exact Or.inl (by simp only [Blk.extent]; omega)

theorem frame (rep : Represents W h bs) (agree : ∀ b ∈ bs, Agree h.mem m' (hdrSpan b.addr)) :
    Represents W { h with mem := m' } bs := { rep with linked := rep.linked.frame agree }

theorem replace (rep : Represents W h (pre ++ seg ++ post))
    (outside : ∀ s, (∀ b ∈ seg, b.extent.Apart s) → Agree h.mem m' s)
    (linked : ∀ head last, Linked h.cookie h.mem last head seg → Linked h.cookie m' last head mid)
    (tiled : Tiled h.chunks ((pre ++ mid ++ post).map Blk.extent))
    (shape : ∀ b ∈ mid, b.addr % 16 = 0 ∧ b.size % 16 = 0) (some : seg ≠ []) :
    Represents W { h with mem := m' } (pre ++ mid ++ post) ∧
    ∀ c ∈ pre ++ post, Agree h.mem m' c.extent := by
  have clear : ∀ c ∈ pre ++ post, ∀ b ∈ seg, b.extent.Apart c.extent := by
    have apart := rep.apart
    rw [List.append_assoc, List.pairwise_append, List.pairwise_append] at apart
    obtain ⟨-, ⟨-, -, after⟩, before⟩ := apart
    intro c member b inside
    rcases List.mem_append.mp member with first | second
    · exact (before c first b (List.mem_append_left post inside)).symm
    · exact after b inside c second
  have agree : ∀ c ∈ pre ++ post, Agree h.mem m' c.extent :=
    fun c member => outside c.extent (clear c member)
  have headers : ∀ c ∈ pre ++ post, Agree h.mem m' (hdrSpan c.addr) := fun c member =>
    (agree c member).shrink (Nat.le_refl _) (Nat.le_add_right _ _)
  refine ⟨{ rep with secret := fun _ => rep.secret ?_, linked := ?_, tiled := tiled, shape := ?_ },
    agree⟩
  · intro empty
    rw [List.append_eq_nil_iff, List.append_eq_nil_iff] at empty
    exact some empty.1.2
  · obtain ⟨far, front, back⟩ := linked_append.mp rep.linked
    obtain ⟨near, front, inner⟩ := linked_append.mp front
    refine linked_append.mpr ⟨far, linked_append.mpr ⟨near, ?_, linked near far inner⟩, ?_⟩
    · exact front.frame fun c member => headers c (List.mem_append_left post member)
    · exact back.frame fun c member => headers c (List.mem_append_right pre member)
  · intro b member
    rcases List.mem_append.mp member with first | last
    · rcases List.mem_append.mp first with first | inner
      · exact rep.shape b (List.mem_append_left post (List.mem_append_left seg first))
      · exact shape b inner
    · exact rep.shape b (List.mem_append_right _ last)

end Represents

/-- The blocks in use but the one at `x` stay, and so does what they hold. -/
def Spares (m m' : Memory) (bs bs' : List Blk) (x : Nat) : Prop :=
  ∀ c ∈ bs, c.free = false → c.addr ≠ x → c ∈ bs' ∧ Agree m m' c.extent

theorem Spares.refl {x : Nat} : Spares m m bs bs x := fun _ member _ _ => ⟨member, .refl⟩

theorem Spares.replace {x : Nat} (gone : ∀ c ∈ seg, c.free = true ∨ c.addr = x)
    (same : ∀ c ∈ pre ++ post, Agree m m' c.extent) :
    Spares m m' (pre ++ seg ++ post) (pre ++ mid ++ post) x := by
  intro c there inUse other
  have elsewhere : c ∈ pre ++ post := by
    rcases List.mem_append.mp there with first | last
    · rcases List.mem_append.mp first with first | inner
      · exact List.mem_append_left post first
      · rcases gone c inner with free | here
        · rw [free] at inUse
          cases inUse
        · exact (other here).elim
    · exact List.mem_append_right pre last
  refine ⟨?_, same c elsewhere⟩
  rcases List.mem_append.mp elsewhere with first | last
  · exact List.mem_append_left post (List.mem_append_left mid first)
  · exact List.mem_append_right _ last

/-- A block of the list that is in use and has room for `size` bytes. -/
structure Given (bs : List Blk) (blk : Blk) (size : Nat) : Prop where
  member : blk ∈ bs
  used : blk.free = false
  room : size ≤ blk.size

theorem carved_given {b value : Nat} (fits : size ≤ value) :
    ∃ given, given.addr = b ∧ Given (carved b value size) given size := by
  unfold carved
  split
  · exact ⟨⟨b, size, false⟩, rfl, List.mem_cons_self, rfl, Nat.le_refl _⟩
  · exact ⟨⟨b, value, false⟩, rfl, List.mem_cons_self, rfl, fits⟩

theorem carved_shape {b value : Nat} (address : b % 16 = 0) (whole : value % 16 = 0)
    (rounded : size % 16 = 0) : ∀ c ∈ carved b value size, c.addr % 16 = 0 ∧ c.size % 16 = 0 := by
  intro c member
  unfold carved at member
  split at member
  · rcases List.mem_cons.mp member with rfl | member
    · exact ⟨address, rounded⟩
    · rcases List.mem_singleton.mp member with rfl
      simp only
      omega
  · rcases List.mem_singleton.mp member with rfl
    exact ⟨address, whole⟩

theorem carved_tiled {cs : List Span} {b value : Nat} {first last : List Span}
    (tiled : Tiled cs (first ++ ⟨b, b + 32 + value⟩ :: last)) :
    Tiled cs (first ++ (carved b value size).map Blk.extent ++ last) := by
  unfold carved
  split
  next large =>
    have halves := @Tiled.split ⟨b, b + 32 + value⟩ cs first last (b + 32 + size) tiled (by simp only; omega) (by simp only; omega)
    have stop : b + 32 + size + 32 + (value - size - 32) = b + 32 + value := by omega
    simpa [Blk.extent, stop] using halves
  next small => simpa [Blk.extent] using tiled

/-- The rounded size, and the break, stay inside the arithmetic of `size_t` and `long`. -/
def Roomy (W : HeapWindow) (h : Heap) (size : Nat) : Prop :=
  (size + 15) / 16 * 16 + 32 + 65535 < 2 ^ 64 ∧
  (((size + 15) / 16 * 16 + 32 + 65535) / 65536 * 65536 < 2 ^ 63 ∨
    h.heapEnd - W.start < 2 ^ 64 - ((size + 15) / 16 * 16 + 32 + 65535) / 65536 * 65536)

theorem cosSbrk_spec {need : Nat} (rep : Represents W h bs) (positive : 0 < need)
    (pages : need % 4096 = 0) (inside : need < 2 ^ 63 ∨ h.heapEnd - W.start < 2 ^ 64 - need) :
    cosSbrk W h need ok = none ∨
    cosSbrk W h need ok = some ({ h with heapEnd := h.heapEnd + need }, h.heapEnd) ∧
    h.heapEnd + need ≤ W.limit := by
  have aligned := rep.window.2.2
  unfold cosSbrk
  by_cases refused : ok = false
  · exact .inl (if_pos refused)
  rw [if_neg refused, if_neg (Nat.ne_of_gt positive)]
  by_cases small : need < 2 ^ 63
  · rw [if_pos small]
    by_cases past : 2 ^ 64 ≤ h.heapEnd + need ∨ W.limit < h.heapEnd + need
    · exact .inl (if_pos past)
    · have whole : (h.heapEnd + need + 4095) / 4096 * 4096 = h.heapEnd + need := by omega
      rw [if_neg past, whole]
      exact .inr ⟨rfl, by omega⟩
  · rw [if_neg small]
    exact .inl (if_pos (inside.resolve_left small))

/-- What an allocation leaves: nothing, or a block in use that was not in use before. -/
inductive Allocates (W : HeapWindow) (h : Heap) (bs : List Blk) (size : Nat) (r : Heap × Nat) : Prop
  | fails (null : r.2 = 0) (rep : Represents W r.1 bs) (same : r.1.mem = h.mem)
  | gives (bs' : List Blk) (given : Blk) (ptr : r.2 = given.addr + 32) (room : Given bs' given size)
      (rep : Represents W r.1 bs') (spares : Spares h.mem r.1.mem bs bs' 0)
      (fresh : ∀ c ∈ bs, c.free = false → c.addr ≠ given.addr)
      (off : ∀ s : Span, s.stop ≤ W.start ∨ W.limit ≤ s.start → Agree h.mem r.1.mem s)

theorem heapCookieInit_ne : heapCookieInit random ≠ 0 ∧ heapCookieInit random < 2 ^ 64 := by
  unfold heapCookieInit
  split
  · decide
  next nonzero => exact ⟨nonzero, Nat.mod_lt _ (by decide)⟩

theorem Represents.withCookie (rep : Represents W h bs) :
    Represents W (if h.cookie = 0 then { h with cookie := heapCookieInit random } else h) bs ∧
    (if h.cookie = 0 then { h with cookie := heapCookieInit random } else h).cookie ≠ 0 ∧
    (if h.cookie = 0 then { h with cookie := heapCookieInit random } else h).mem = h.mem ∧
    (if h.cookie = 0 then { h with cookie := heapCookieInit random } else h).heapEnd =
    h.heapEnd := by
  split
  next unset =>
    have empty : bs = [] := by
      by_contra some
      exact rep.secret some unset
    subst empty
    exact ⟨{ rep with cookie := heapCookieInit_ne.2, secret := fun some => (some rfl).elim, linked := rep.linked },
      heapCookieInit_ne.1, rfl, rfl⟩
  next set => exact ⟨rep, set, rfl, rfl⟩

theorem Represents.takeFree (rep : Represents W h (pre ++ blk :: post)) (free : blk.free = true)
    (fits : size ≤ blk.size) (rounded : size % 16 = 0) (wanted : Nat) (enough : wanted ≤ size) :
    Allocates W h (pre ++ blk :: post) wanted
      ({ h with mem := blkSeal h.cookie (setFree (carve h.cookie h.mem blk.addr size) blk.addr false) blk.addr },
        blk.addr + 32) := by
  have member : blk ∈ pre ++ blk :: post := List.mem_append_right pre List.mem_cons_self
  have holds := rep.linked.sealed member
  have low := rep.low member
  have high := rep.high member
  have shape := rep.shape blk member
  obtain ⟨linked, agree⟩ := @linked_carved h.mem h.cookie blk.addr size
    (setFree (carve h.cookie h.mem blk.addr size) blk.addr false) rep.cookie (by omega)
    (by rw [holds.size]; omega)
    (by rw [holds.size]; exact fits) (sizeAt_setFree ..) (nextAt_setFree ..) (freeAt_setFree ..)
    fun s apart => agree_setFree apart
  rw [holds.size] at linked agree
  have replaced := @Represents.replace W h pre post [blk] (carved blk.addr blk.size size)
    (blkSeal h.cookie (setFree (carve h.cookie h.mem blk.addr size) blk.addr false) blk.addr)
    (by simpa using rep) (fun s apart => agree s (apart blk List.mem_cons_self)) ?_ ?_
    (carved_shape shape.1 shape.2 rounded) (List.cons_ne_nil _ _)
  · obtain ⟨after, same⟩ := replaced
    obtain ⟨given, place, room⟩ := @carved_given size blk.addr blk.size fits
    have inside : given ∈ pre ++ carved blk.addr blk.size size ++ post :=
      List.mem_append_left post (List.mem_append_right pre room.member)
    refine .gives _ given (by rw [place]) ⟨inside, room.used, Nat.le_trans enough room.room⟩ after
      ?_ ?_ fun s outside => agree s (rep.off member outside)
    · have split : pre ++ blk :: post = pre ++ [blk] ++ post := by rw [List.append_assoc]; rfl
      rw [split]
      refine Spares.replace ?_ same
      intro c inner
      rcases List.mem_singleton.mp inner with rfl
      exact .inl free
    · intro c there used sameAddr
      have equal := rep.unique there member (sameAddr.trans place)
      rw [equal, free] at used
      cases used
  · rintro head last ⟨rfl, -, -, ended⟩
    rw [← ended]
    exact linked
  · have tiled := rep.tiled
    rw [List.map_append, List.map_cons] at tiled
    rw [List.map_append, List.map_append]
    exact carved_tiled tiled

theorem Represents.takeChunk {need : Nat} (rep : Represents W h bs) (secret : h.cookie ≠ 0)
    (chunk : need % 4096 = 0) (fits : size + 32 ≤ need) (rounded : size % 16 = 0)
    (limit : h.heapEnd + need ≤ W.limit) (wanted : Nat) (enough : wanted ≤ size) {m1 : Memory}
    (atEnd : m1 = setNext (setFree (setSize h.mem h.heapEnd (need - 32)) h.heapEnd false) h.heapEnd h.head) :
    Allocates W h bs wanted
      ({ h with
          heapEnd := h.heapEnd + need
          mem := blkSeal h.cookie (carve h.cookie m1 h.heapEnd size) h.heapEnd
          head := h.heapEnd
          chunks := ⟨h.heapEnd, h.heapEnd + need⟩ :: h.chunks },
        h.heapEnd + 32) := by
  obtain ⟨lower, upper, aligned⟩ := rep.window
  have positive := W.positive
  have canonical := W.canonical
  have headSmall : h.head < 2 ^ 64 := by
    cases bs with
    | nil =>
        have ended : h.head = 0 := rep.linked
        rw [ended]
        decide
    | cons first rest =>
        have atFirst : h.head = first.addr := rep.linked.1
        have high := rep.high List.mem_cons_self
        omega
  have value : sizeAt m1 h.heapEnd = need - 32 := by
    rw [atEnd, sizeAt_setNext, sizeAt_setFree, sizeAt_setSize]
    exact Nat.mod_eq_of_lt (by omega)
  have next : nextAt m1 h.heapEnd = h.head := by
    rw [atEnd, nextAt_setNext]
    exact Nat.mod_eq_of_lt headSmall
  have used : freeAt m1 h.heapEnd = false := by rw [atEnd, freeAt_setNext, freeAt_setFree]
  have off : ∀ s, (hdrSpan h.heapEnd).Apart s → Agree h.mem m1 s := by
    intro s apart
    rw [atEnd]
    exact ((agree_setSize apart).trans (agree_setFree apart)).trans (agree_setNext apart)
  have stillUsed : freeAt (carve h.cookie m1 h.heapEnd size) h.heapEnd = false := by
    by_cases large : size + 48 ≤ sizeAt m1 h.heapEnd
    · rw [(carve_large rep.cookie large (by omega)).2.1, used]
    · rw [carve_small (Nat.lt_of_not_le large) (by omega), used]
  obtain ⟨linked, agree⟩ :=
    @linked_carved m1 h.cookie h.heapEnd size (carve h.cookie m1 h.heapEnd size) rep.cookie
    (by omega) (by omega) (by omega) rfl rfl stillUsed fun s _ => .refl
  rw [value, next] at linked
  have clear : ∀ c ∈ bs,
    (⟨h.heapEnd, h.heapEnd + 32 + sizeAt m1 h.heapEnd⟩ : Span).Apart c.extent := fun c member =>
    Or.inr (rep.bounds member).2
  have same : ∀ c ∈ bs,
    Agree h.mem (blkSeal h.cookie (carve h.cookie m1 h.heapEnd size) h.heapEnd) c.extent :=
    fun c member =>
    (off _ ((clear c member).shrink (Nat.le_refl _) (Nat.le_add_right _ _))).trans (agree _ (clear c member))
  obtain ⟨given, place, room⟩ := @carved_given size h.heapEnd (need - 32) (by omega)
  refine .gives (carved h.heapEnd (need - 32) size ++ bs) given (by rw [place])
    ⟨List.mem_append_left bs room.member, room.used, Nat.le_trans enough room.room⟩ ?_ ?_ ?_ ?_
  · have stop : h.heapEnd + 32 + (need - 32) = h.heapEnd + need := by omega
    refine ⟨rep.running, rep.cookie, fun _ => secret, ?_, ?_, ?_, ?_, ?_, ?_⟩
    · refine linked_append.mpr ⟨h.head, linked, rep.linked.frame fun c member => ?_⟩
      exact (same c member).shrink (Nat.le_refl _) (Nat.le_add_right _ _)
    · rw [List.map_append]
      refine @carved_tiled size _ h.heapEnd (need - 32) [] _ ?_
      rw [stop]
      exact rep.tiled.push (by simp only; omega)
    · intro c member
      rcases List.mem_append.mp member with new | old
      · exact carved_shape (by omega) (by omega) rounded c new
      · exact rep.shape c old
    · refine List.pairwise_cons.mpr ⟨fun d member => ?_, rep.descending⟩
      obtain ⟨-, order, below⟩ := rep.within d member
      exact ⟨order, below⟩
    · intro c member
      rcases List.mem_cons.mp member with rfl | old
      · exact ⟨lower, by simp only; omega, Nat.le_refl _⟩
      · obtain ⟨above, order, below⟩ := rep.within c old
        exact ⟨above, order, Nat.le_trans below (Nat.le_add_right _ _)⟩
    · exact ⟨Nat.le_trans lower (Nat.le_add_right _ _), limit, by simp only; omega⟩
  · intro c member _ _
    exact ⟨List.mem_append_right _ member, same c member⟩
  · intro c member _ sameAddr
    have below := (rep.bounds member).2
    omega
  · intro s outside
    have clear : (⟨h.heapEnd, h.heapEnd + 32 + sizeAt m1 h.heapEnd⟩ : Span).Apart s := by
      rcases outside with below | above
      · exact Or.inr (by simp only; omega)
      · exact Or.inl (by simp only; omega)
    exact (off _ (clear.shrink (Nat.le_refl _) (Nat.le_add_right _ _))).trans (agree s clear)

theorem Allocates.of_mem {r : Heap × Nat} (allocates : Allocates W h bs size r)
    (same : h.mem = h'.mem) : Allocates W h' bs size r := by
  cases allocates with
  | fails null rep unchanged => exact .fails null rep (unchanged.trans same)
  | gives bs' given ptr room rep spares fresh off =>
      rw [same] at spares off
      exact .gives bs' given ptr room rep spares fresh off

theorem cosMalloc_spec (rep : Represents W h bs) (roomy : Roomy W h size) (nonzero : size ≠ 0) :
    Allocates W h bs size (cosMalloc W random h size ok) := by
  obtain ⟨inside, window⟩ := roomy
  obtain ⟨rep, secret, sameMem, sameEnd⟩ := @Represents.withCookie W h bs random rep
  have rounding : alignUp size mallocAlign = (size + 15) / 16 * 16 := by
    unfold alignUp
    simp only [mallocAlign]
    omega
  unfold cosMalloc
  rw [if_neg nonzero]
  simp only [rounding]
  rw [← sameEnd] at window
  refine @Allocates.of_mem W (if h.cookie = 0 then { h with cookie := heapCookieInit random }
    else h) h bs size _ ?_ sameMem
  generalize (if h.cookie = 0 then { h with cookie := heapCookieInit random } else h) =
    h0 at rep secret window ⊢
  have rounded : (size + 15) / 16 * 16 % 16 = 0 := Nat.mul_mod_left _ _
  have covers : size ≤ (size + 15) / 16 * 16 := by omega
  generalize (size + 15) / 16 * 16 = whole at inside window rounded covers ⊢
  rcases @findFit_spec h0.mem h0.cookie h0.head whole (walkFuel W h0) bs rep.linked rep.secret
    rep.short with
    none | ⟨pre, blk, post, rfl, free, fits, found⟩
  · have chunk : alignUp ((whole + blockHdr) % 2 ^ 64) sbrkChunk = (whole + 32 + 65535) / 65536 * 65536 := by
      unfold alignUp
      simp only [sbrkChunk, blockHdr]
      omega
    rw [none, chunk]
    have pages : (whole + 32 + 65535) / 65536 * 65536 % 4096 = 0 := by omega
    have enough : whole + 32 ≤ (whole + 32 + 65535) / 65536 * 65536 := by omega
    have less : (whole + 32 + 65535) / 65536 * 65536 < 2 ^ 64 := by omega
    generalize (whole + 32 + 65535) / 65536 * 65536 = need at window pages enough less ⊢
    rcases @cosSbrk_spec W h0 bs ok need rep (by omega) pages window with refused | ⟨granted, limit⟩
    · rw [refused]
      exact .fails rfl rep rfl
    · rw [granted]
      have left : (need + 2 ^ 64 - blockHdr) % 2 ^ 64 = need - 32 := by
        simp only [blockHdr]
        omega
      simp only [left]
      exact rep.takeChunk secret pages enough rounded limit size covers rfl
  · rw [found]
    exact rep.takeFree free fits rounded size covers

theorem freeBlock_spec (rep : Represents W h bs) (member : blk ∈ bs) (used : blk.free = false) :
    ∃ bs', Represents W (freeBlock h blk.addr) bs' ∧ Spares h.mem (freeBlock h blk.addr).mem bs bs' blk.addr ∧
      ∀ s : Span, s.stop ≤ W.start ∨ W.limit ≤ s.start → Agree h.mem (freeBlock h blk.addr).mem s := by
  have holds := rep.linked.sealed member
  have high := rep.high member
  have shape := rep.shape blk member
  have secret := rep.secret (List.ne_nil_of_mem member)
  have hdr : ∀ {s : Span}, s.stop ≤ W.start ∨ W.limit ≤ s.start →
    (hdrSpan blk.addr).Apart s := fun outside =>
    (rep.off member outside).shrink (Nat.le_refl _) (Nat.le_add_right _ _)
  obtain ⟨pre, post, rfl⟩ := List.append_of_mem member
  generalize freed : blkSeal h.cookie (setFree h.mem blk.addr true) blk.addr = m1
  have off : ∀ s, (hdrSpan blk.addr).Apart s → Agree h.mem m1 s := by
    intro s apart
    rw [← freed]
    exact (agree_setFree apart).trans (agree_blkSeal apart)
  have own : Sealed h.cookie m1 ⟨blk.addr, blk.size, true⟩ := by
    have sealed := @sealed_blkSeal (setFree h.mem blk.addr true) h.cookie blk.addr rep.cookie (by omega)
    rw [freed, sizeAt_setFree, freeAt_setFree, holds.size] at sealed
    exact sealed
  have link : nextAt m1 blk.addr = nextAt h.mem blk.addr := by
    rw [← freed, nextAt_blkSeal, nextAt_setFree]
  unfold freeBlock
  rw [holds.check secret, holds.free, used]
  simp only [Bool.not_true, Bool.false_eq_true, if_false, freed]
  split
  next join =>
    obtain ⟨nonzero, nextFree, touch⟩ := join
    rw [link] at nonzero nextFree touch
    rw [own.size] at touch
    simp only [blockHdr] at touch
    -- the next block is the one behind it in the list
    obtain ⟨n, rest, rfl⟩ : ∃ n rest, post = n :: rest := by
      cases post with
      | nil =>
          obtain ⟨middle, -, -, -, -, ended⟩ := linked_append.mp rep.linked
          exact (nonzero ended).elim
      | cons n rest => exact ⟨n, rest, rfl⟩
    have place : nextAt h.mem blk.addr = n.addr := by
      obtain ⟨middle, -, -, -, -, atNext, -⟩ := linked_append.mp rep.linked
      exact atNext
    have member' : n ∈ pre ++ blk :: n :: rest := List.mem_append_right pre (List.mem_cons_of_mem _ List.mem_cons_self)
    have holds' := rep.linked.sealed member'
    have high' := rep.high member'
    have shape' := rep.shape n member'
    rw [place] at nextFree touch
    have clear : (hdrSpan blk.addr).Apart (hdrSpan n.addr) := Or.inl (by simp only [hdrSpan]; omega)
    have behind : Sealed h.cookie m1 n := holds'.frame (off _ clear)
    have free : n.free = true := by rw [← behind.free, nextFree]
    rw [link, place, behind.check secret, own.size, behind.size]
    generalize merged : blkSeal h.cookie (setNext (setSize m1 blk.addr (blk.size + (32 + n.size))) blk.addr
      (nextAt (setSize m1 blk.addr (blk.size + (32 + n.size))) n.addr)) blk.addr = m2
    have keeps : ∀ s, (hdrSpan blk.addr).Apart s → Agree h.mem m2 s := by
      intro s apart
      rw [← merged]
      exact (((off s apart).trans (agree_setSize apart)).trans (agree_setNext apart)).trans (agree_blkSeal apart)
    have whole : Sealed h.cookie m2 ⟨blk.addr, blk.size + (32 + n.size), true⟩ := by
      have sealed := @sealed_blkSeal (setNext (setSize m1 blk.addr (blk.size + (32 + n.size))) blk.addr
        (nextAt (setSize m1 blk.addr (blk.size + (32 + n.size))) n.addr)) h.cookie blk.addr rep.cookie (by omega)
      rw [merged, sizeAt_setNext, sizeAt_setSize, freeAt_setNext, freeAt_setSize, own.free,
        Nat.mod_eq_of_lt (by omega)] at sealed
      exact sealed
    have far : nextAt m2 blk.addr = nextAt h.mem n.addr := by
      have small : nextAt (setSize m1 blk.addr (blk.size + (32 + n.size))) n.addr < 2 ^ 64 := loadWord_lt
      rw [← merged, nextAt_blkSeal, nextAt_setNext, Nat.mod_eq_of_lt small,
        nextAt_frame ((off _ clear).trans (agree_setSize clear))]
    have replaced := @Represents.replace W h pre rest [blk, n]
      [⟨blk.addr, blk.size + (32 + n.size), true⟩] m2 (by simpa using rep)
      (fun s apart => keeps s ((apart blk List.mem_cons_self).shrink (Nat.le_refl _) (Nat.le_add_right _ _))) ?_ ?_ ?_
      (List.cons_ne_nil _ _)
    · refine ⟨_, replaced.1, ?_, fun s outside => keeps s (hdr outside)⟩
      have split : pre ++ blk :: n :: rest = pre ++ [blk, n] ++ rest := by rw [List.append_assoc]; rfl
      rw [split]
      refine Spares.replace ?_ replaced.2
      intro c inner
      rcases List.mem_cons.mp inner with rfl | inner
      · exact .inr rfl
      · rcases List.mem_singleton.mp inner with rfl
        exact .inl free
    · rintro head last ⟨rfl, zero, -, -, -, -, ended⟩
      exact ⟨rfl, zero, whole, far.trans ended⟩
    · have tiled := rep.tiled
      rw [List.map_append, List.map_cons, List.map_cons] at tiled
      have joined := tiled.join touch rep.descending
      have stop : blk.addr + 32 + (blk.size + (32 + n.size)) = n.addr + 32 + n.size := by omega
      simpa [Blk.extent, stop] using joined
    · intro c inner
      rcases List.mem_singleton.mp inner with rfl
      simp only
      omega
  next apart =>
    have replaced := @Represents.replace W h pre post [blk] [⟨blk.addr, blk.size, true⟩] m1 (by simpa using rep)
      (fun s apart => off s ((apart blk List.mem_cons_self).shrink (Nat.le_refl _) (Nat.le_add_right _ _))) ?_ ?_ ?_
      (List.cons_ne_nil _ _)
    · refine ⟨_, replaced.1, ?_, fun s outside => off s (hdr outside)⟩
      have split : pre ++ blk :: post = pre ++ [blk] ++ post := by rw [List.append_assoc]; rfl
      rw [split]
      refine Spares.replace ?_ replaced.2
      intro c inner
      rcases List.mem_singleton.mp inner with rfl
      exact .inr rfl
    · rintro head last ⟨rfl, zero, -, ended⟩
      exact ⟨rfl, zero, own, link.trans ended⟩
    · have tiled := rep.tiled
      simpa [Blk.extent] using tiled
    · intro c inner
      rcases List.mem_singleton.mp inner with rfl
      exact shape

end Cos.Runtime
