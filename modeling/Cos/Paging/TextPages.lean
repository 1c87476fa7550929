import Cos.Lib.Run
import Cos.Paging.PageCache
import Cos.Paging.TextCache

/-! # Sharing the pages of programs and libraries

A page with its final permissions is offered to the cache, which maps the frame of an equal page
instead, if it has one.  A page that is torn down gives up its count, or its private frame.  Every
call of the cache runs with interrupts off and is one step; `drop_page` is two, since others may run
between the unmapping and the release.
-/

namespace Cos.Paging

open Cos.Lib
open Function (update update_of_ne update_self)

/-- The cache, the contents of the frames and the page tables.  `table` leads from a page to its
frame (0 is none), and `dropping` to the frame of a page that `drop_page` has unmapped and not
released yet. Ghost state: the pages of each frame, up to the end of their `drop_page`, and how
often each frame was taken from the allocator and given back. -/
structure TextState where
  cache : TextCache
  content : Nat → TextPage
  table : Mapping → Nat
  dropping : Mapping → Nat
  mappings : Nat → Finset Mapping
  taken : Nat → Nat
  given : Nat → Nat

def TextState.boot (content : Nat → TextPage) : TextState :=
  ⟨.boot, content, fun _ => 0, fun _ => 0, fun _ => ∅, fun _ => 0, fun _ => 0⟩

/-- `paging_free_physical`. -/
def TextState.giveBack (frame : Nat) (state : TextState) : TextState :=
  { state with given := update state.given frame (state.given frame + 1) }

def TextState.point (page : Mapping) (frame : Nat) (state : TextState) : TextState :=
  { state with
    table := update state.table page frame
    mappings := fun f => if f = frame then insert page (state.mappings f) else (state.mappings f).erase page }

/-- `cos_pcache_share`; `memory` says whether the tables can be allocated, `remapped` whether
`paging_remap_page` finds a 4 KiB leaf. -/
def cosPcacheShare (page : Mapping) (writable memory remapped : Bool) (state : TextState) :
    Bool × TextState :=
  let phys := state.table page
  if phys = 0 ∨ writable then (false, state)
  else
    match initTables memory state.cache with
    | (false, cache) => (false, { state with cache := cache })
    | (true, cache) =>
        let state := { state with cache := cache }
        let i := findText cache state.content phys
        if i ≠ 0 then
          if (cache.ent i).phys = phys then (true, state)
          else if remapped then
            let shared := { state with cache := cache.setRefs i ((cache.ent i).refs + 1) }
            (true, (shared.point page (cache.ent i).phys).giveBack phys)
          else (false, state)
        else if cache.free = 0 then (false, state)
        else (true, { state with cache := registerEntry phys (pageHash (state.content phys)) cache })

def cosPcacheRelease (phys : Nat) (state : TextState) : Bool × TextState :=
  if state.cache.ready = false then (false, state)
  else
    let i := findFrame state.cache phys
    if i = 0 then (false, state)
    else
      let refs := (state.cache.ent i).refs - 1
      let counted := state.cache.setRefs i refs
      if refs = 0 then (true, { state with cache := unlinkEntry i counted }.giveBack phys)
      else (true, { state with cache := counted })

/-- `drop_page` up to `paging_unmap_page`. -/
def unmapPage (page : Mapping) (state : TextState) : TextState :=
  { state with
    table := update state.table page 0
    dropping := update state.dropping page (state.table page) }

/-- The rest of `drop_page`: a frame that is not shared is freed. -/
def releasePage (page : Mapping) (state : TextState) : TextState :=
  let phys := state.dropping page
  let released := cosPcacheRelease phys state
  let state := if released.1 then released.2 else released.2.giveBack phys
  { state with
    dropping := update state.dropping page 0
    mappings := update state.mappings phys ((state.mappings phys).erase page) }

inductive TextCall where
  /-- The loader maps a fresh frame and fills it. -/
  | load (page : Mapping) (frame : Nat) (bytes : TextPage)
  | write (page : Mapping) (bytes : TextPage)
  | share (page : Mapping) (writable memory remapped : Bool)
  | unmap (page : Mapping)
  | release (page : Mapping)

def textStep (state : TextState) : TextCall → TextState
  | .load page frame bytes =>
      { state.point page frame with
        content := update state.content frame bytes
        taken := update state.taken frame (state.taken frame + 1) }
  | .write page bytes => { state with content := update state.content (state.table page) bytes }
  | .share page writable memory remapped => (cosPcacheShare page writable memory remapped state).2
  | .unmap page => unmapPage page state
  | .release page => releasePage page state

/-- A fresh frame is one that the allocator has; only private pages are written; `drop_page` goes on
only with a page that is mapped. -/
def TextAllowed (state : TextState) : TextCall → Prop
  | .load page frame _ =>
      frame ≠ 0 ∧ state.taken frame = state.given frame ∧ state.table page = 0 ∧ state.dropping page = 0
  | .write page _ => state.table page ≠ 0 ∧ ∀ i, state.cache.Listed i → (state.cache.ent i).phys ≠ state.table page
  | .share .. => True
  | .unmap page => state.table page ≠ 0
  | .release page => state.dropping page ≠ 0

def TextState.reads (state : TextState) (page : Mapping) : Option TextPage :=
  if state.table page = 0 then none else some (state.content (state.table page))

/-- How often a frame with the given pages is out of the allocator's hands. -/
def held (pages : Finset Mapping) : Nat := if pages = ∅ then 0 else 1

theorem held_empty : held ∅ = 0 := rfl

theorem held_of_ne {pages : Finset Mapping} (mapped : pages ≠ ∅) : held pages = 1 := if_neg mapped

structure TextHolds (state : TextState) : Prop where
  mapped : ∀ page frame, page ∈ state.mappings frame ↔
    frame ≠ 0 ∧ (state.table page = frame ∨ state.dropping page = frame)
  refs : ∀ i, state.cache.Listed i →
    (state.cache.ent i).refs = (state.mappings (state.cache.ent i).phys).card
  frames : ∀ i j, state.cache.Listed i → state.cache.Listed j →
    (state.cache.ent i).phys = (state.cache.ent j).phys → i = j
  contents : ∀ i j, state.cache.Listed i → state.cache.Listed j →
    state.content (state.cache.ent i).phys = state.content (state.cache.ent j).phys → i = j
  ledger : ∀ frame, state.taken frame = state.given frame + held (state.mappings frame)

/-- What every step does: a frame is given back once, with its last mapping, a `drop_page` that ends
has let its frame go, and no process reads anything else than before. -/
structure TextStepHolds (state : TextState) (call : TextCall) : Prop where
  returns : ∀ frame, (textStep state call).given frame ≠ state.given frame →
    (textStep state call).given frame = state.given frame + 1 ∧ state.mappings frame ≠ ∅ ∧
      (textStep state call).mappings frame = ∅
  releases : ∀ page, call = .release page → (textStep state call).dropping page = 0
  reads : ∀ page, (∀ bytes, call ≠ .write page bytes) →
    (∀ frame bytes, call ≠ .load page frame bytes) → call ≠ .unmap page →
    (textStep state call).reads page = state.reads page

structure TextAccounts (state : TextState) (live : Nat → Prop) : Prop where
  mapped : ∀ page frame, page ∈ state.mappings frame ↔
    frame ≠ 0 ∧ (state.table page = frame ∨ state.dropping page = frame)
  apart : ∀ page, state.table page = 0 ∨ state.dropping page = 0
  refs : ∀ i, live i → (state.cache.ent i).refs = (state.mappings (state.cache.ent i).phys).card
  used : ∀ i, live i → state.mappings (state.cache.ent i).phys ≠ ∅
  hash : ∀ i, live i → (state.cache.ent i).hash = pageHash (state.content (state.cache.ent i).phys)
  frames : ∀ i j, live i → live j → (state.cache.ent i).phys = (state.cache.ent j).phys → i = j
  contents : ∀ i j, live i → live j →
    state.content (state.cache.ent i).phys = state.content (state.cache.ent j).phys → i = j
  lone : ∀ frame, (∀ i, live i → (state.cache.ent i).phys ≠ frame) → (state.mappings frame).card ≤ 1
  ledger : ∀ frame, state.taken frame = state.given frame + held (state.mappings frame)

structure TextSound (state : TextState) (live : Nat → Prop) (spare : List Nat) : Prop where
  chains : TextChains state.cache live spare
  accounts : TextAccounts state live

section Accounts

variable {state : TextState} {live : Nat → Prop} {spare : List Nat} {page other : Mapping}
  {frame : Nat}

theorem textSound_boot (content : Nat → TextPage) :
    TextSound (.boot content) (fun _ => False) [] where
  chains := textChains_boot
  accounts := by
    refine ⟨fun page frame => ?_, fun _ => .inl rfl, fun _ used => used.elim, fun _ used => used.elim,
      fun _ used => used.elim, fun _ _ used => used.elim, fun _ _ used => used.elim, fun _ _ => ?_, fun _ => rfl⟩
    · simp only [TextState.boot, Finset.notMem_empty, or_self, false_iff, not_and]
      exact fun nonzero zero => nonzero zero.symm
    · exact Nat.zero_le 1

theorem TextAccounts.table_mem (accounts : TextAccounts state live)
    (mapped : state.table page ≠ 0) : page ∈ state.mappings (state.table page) :=
  (accounts.mapped page _).mpr ⟨mapped, .inl rfl⟩

theorem TextAccounts.unmapped (accounts : TextAccounts state live)
    (free : state.taken frame = state.given frame) : state.mappings frame = ∅ := by
  by_contra mapped
  have count := accounts.ledger frame
  rw [held_of_ne mapped] at count
  omega

theorem TextAccounts.not_entry (accounts : TextAccounts state live)
    (free : state.mappings frame = ∅) : ∀ i, live i → (state.cache.ent i).phys ≠ frame := by
  rintro i used rfl
  exact accounts.used i used free

theorem TextAccounts.private_eq (accounts : TextAccounts state live)
    (isPrivate : ∀ i, live i → (state.cache.ent i).phys ≠ frame)
    (member : page ∈ state.mappings frame) : state.mappings frame = {page} := by
  have few := accounts.lone frame isPrivate
  refine Finset.eq_singleton_iff_unique_mem.mpr ⟨member, fun other there => ?_⟩
  exact Finset.card_le_one.mp few other there page member

theorem TextAccounts.holds (accounts : TextAccounts state live)
    (chains : TextChains state.cache live spare) : TextHolds state where
  mapped := accounts.mapped
  refs := fun i listed => accounts.refs i (chains.listed_iff.mp listed)
  frames := fun i j first second =>
    accounts.frames i j (chains.listed_iff.mp first) (chains.listed_iff.mp second)
  contents := fun i j first second =>
    accounts.contents i j (chains.listed_iff.mp first) (chains.listed_iff.mp second)
  ledger := accounts.ledger

theorem TextAccounts.recache {cache : TextCache} (accounts : TextAccounts state live)
    (same : cache.ent = state.cache.ent) : TextAccounts { state with cache := cache } live := by
  refine ⟨accounts.mapped, accounts.apart, ?_, ?_, ?_, ?_, ?_, ?_, accounts.ledger⟩ <;> rw [same]
  · exact accounts.refs
  · exact accounts.used
  · exact accounts.hash
  · exact accounts.frames
  · exact accounts.contents
  · exact accounts.lone

theorem TextAccounts.not_mem (accounts : TextAccounts state live) (unmapped : state.table page = 0)
    (settled : state.dropping page = 0) (frame : Nat) : page ∉ state.mappings frame := by
  intro member
  obtain ⟨nonzero, here⟩ := (accounts.mapped page frame).mp member
  rw [unmapped, settled, or_self] at here
  exact nonzero here.symm

theorem TextAccounts.point_mapped (accounts : TextAccounts state live)
    (settled : state.dropping page = 0) (nonzero : frame ≠ 0) (p : Mapping) (f : Nat) : p ∈ (state.point page frame).mappings f ↔
      f ≠ 0 ∧ ((state.point page frame).table p = f ∨ state.dropping p = f) := by
  simp only [TextState.point]
  by_cases same : p = page
  · subst same
    rw [Function.update_self, settled]
    split
    · rename_i here
      subst here
      simp [nonzero]
    · rename_i elsewhere
      simp only [Finset.mem_erase, ne_eq, not_true_eq_false, false_and, false_iff, not_and, not_or]
      exact fun isUsed => ⟨fun here => elsewhere here.symm, fun zero => isUsed zero.symm⟩
  · rw [Function.update_of_ne same, ← accounts.mapped]
    split <;> simp [same]

theorem TextAccounts.point_apart (accounts : TextAccounts state live)
    (settled : state.dropping page = 0) (p : Mapping) :
    (state.point page frame).table p = 0 ∨ state.dropping p = 0 := by
  by_cases same : p = page
  · subst same
    exact .inr settled
  · simp only [TextState.point, Function.update_of_ne same]
    exact accounts.apart p

theorem TextSound.load (sound : TextSound state live spare) (nonzero : frame ≠ 0)
    (free : state.taken frame = state.given frame) (unmapped : state.table page = 0)
    (settled : state.dropping page = 0) (bytes : TextPage) :
    TextSound (textStep state (.load page frame bytes)) live spare := by
  obtain ⟨chains, accounts⟩ := sound
  have empty := accounts.unmapped free
  have notEntry := accounts.not_entry empty
  have others : ∀ f, f ≠ frame → (state.point page frame).mappings f = state.mappings f := by
    intro f other
    simp only [TextState.point, if_neg other]
    exact Finset.erase_eq_of_notMem (accounts.not_mem unmapped settled f)
  have here : (state.point page frame).mappings frame = {page} := by
    simp only [TextState.point, if_true, empty]
    rfl
  have kept : ∀ i, live i → update state.content frame bytes (state.cache.ent i).phys =
      state.content (state.cache.ent i).phys :=
    fun i used => update_of_ne (notEntry i used) _ _
  refine ⟨chains, accounts.point_mapped settled nonzero, accounts.point_apart settled, ?_, ?_, ?_,
    accounts.frames, ?_, ?_, ?_⟩
  · intro i used
    refine (accounts.refs i used).trans ?_
    exact (congrArg Finset.card (others _ (notEntry i used))).symm
  · intro i used
    exact (others _ (notEntry i used)).trans_ne (accounts.used i used)
  · intro i used
    exact (accounts.hash i used).trans (congrArg pageHash (kept i used).symm)
  · intro i j first second same
    exact accounts.contents i j first second ((kept i first).symm.trans (same.trans (kept j second)))
  · intro f isPrivate
    by_cases isFrame : f = frame
    · subst isFrame
      exact (congrArg Finset.card here).le
    · exact (congrArg Finset.card (others f isFrame)).le.trans (accounts.lone f isPrivate)
  · intro f
    have count := accounts.ledger f
    change update state.taken frame (state.taken frame + 1) f =
      state.given f + held ((state.point page frame).mappings f)
    by_cases isFrame : f = frame
    · subst isFrame
      rw [Function.update_self, here, held_of_ne (Finset.singleton_ne_empty page), free]
    · rw [Function.update_of_ne isFrame, others f isFrame]
      exact count

theorem TextSound.write (sound : TextSound state live spare)
    (isPrivate : ∀ i, state.cache.Listed i → (state.cache.ent i).phys ≠ state.table page)
    (bytes : TextPage) : TextSound (textStep state (.write page bytes)) live spare := by
  obtain ⟨chains, accounts⟩ := sound
  have kept : ∀ i, live i → update state.content (state.table page) bytes (state.cache.ent i).phys =
      state.content (state.cache.ent i).phys :=
    fun i used => update_of_ne (isPrivate i (chains.listed_iff.mpr used)) _ _
  refine ⟨chains, accounts.mapped, accounts.apart, accounts.refs, accounts.used, ?_,
    accounts.frames, ?_, accounts.lone, accounts.ledger⟩
  · intro i used
    exact (accounts.hash i used).trans (congrArg pageHash (kept i used).symm)
  · intro i j first second same
    exact accounts.contents i j first second ((kept i first).symm.trans (same.trans (kept j second)))

theorem TextSound.unmap (sound : TextSound state live spare) (mapped : state.table page ≠ 0) :
    TextSound (textStep state (.unmap page)) live spare := by
  obtain ⟨chains, accounts⟩ := sound
  have settled := (accounts.apart page).resolve_left mapped
  refine ⟨chains, ?_, ?_, accounts.refs, accounts.used, accounts.hash, accounts.frames,
    accounts.contents, accounts.lone, accounts.ledger⟩
  · intro p f
    refine (accounts.mapped p f).trans (and_congr_right fun nonzero => ?_)
    simp only [textStep, unmapPage]
    by_cases same : p = page
    · subst same
      rw [Function.update_self, Function.update_self, settled]
      exact or_comm
    · rw [Function.update_of_ne same, Function.update_of_ne same]
  · intro p
    simp only [textStep, unmapPage]
    by_cases same : p = page
    · subst same
      exact .inl (Function.update_self ..)
    · rw [Function.update_of_ne same, Function.update_of_ne same]
      exact accounts.apart p

theorem TextSound.register (sound : TextSound state live spare) (ready : state.cache.ready = true)
    (room : state.cache.free ≠ 0) (mapped : state.table page ≠ 0)
    (unlike : ∀ i, live i → (state.cache.ent i).hash = pageHash (state.content (state.table page)) →
      (state.cache.ent i).phys ≠ state.table page ∧
        state.content (state.cache.ent i).phys ≠ state.content (state.table page)) :
    ∃ live spare, TextSound { state with
      cache := registerEntry (state.table page) (pageHash (state.content (state.table page))) state.cache }
      live spare := by
  obtain ⟨chains, accounts⟩ := sound
  obtain ⟨phys, isPhys⟩ : ∃ phys, state.table page = phys := ⟨_, rfl⟩
  rw [isPhys] at mapped unlike ⊢
  obtain ⟨unused, rest, joined⟩ := chains.register ready room phys (pageHash (state.content phys))
  have isPrivate : ∀ i, live i → (state.cache.ent i).phys ≠ phys := by
    intro i used same
    exact (unlike i used (by rw [accounts.hash i used, same])).1 same
  have different : ∀ i, live i → state.content (state.cache.ent i).phys ≠ state.content phys := by
    intro i used same
    exact (unlike i used (by rw [accounts.hash i used, same])).2 same
  have only : state.mappings phys = {page} :=
    accounts.private_eq isPrivate ((accounts.mapped page phys).mpr ⟨mapped, .inl isPhys⟩)
  obtain ⟨cache, isCache⟩ :
    ∃ cache, registerEntry phys (pageHash (state.content phys)) state.cache = cache :=
    ⟨_, rfl⟩
  have new : cache.ent state.cache.free = ⟨phys, pageHash (state.content phys), 1⟩ := by
    rw [← isCache]
    exact update_self ..
  have old : ∀ i, live i → cache.ent i = state.cache.ent i := by
    intro i used
    rw [← isCache]
    refine update_of_ne ?_ _ _
    rintro rfl
    exact unused used
  rw [isCache] at joined ⊢
  refine ⟨_, rest, joined, accounts.mapped, accounts.apart, ?_, ?_, ?_, ?_, ?_, ?_, accounts.ledger⟩
  · rintro i (rfl | used)
    · simp only [new, only, Finset.card_singleton]
    · simp only [old i used]
      exact accounts.refs i used
  · rintro i (rfl | used)
    · simp only [new, only]
      exact Finset.singleton_ne_empty page
    · simp only [old i used]
      exact accounts.used i used
  · rintro i (rfl | used)
    · simp only [new]
    · simp only [old i used]
      exact accounts.hash i used
  · rintro i j (rfl | first) (rfl | second) same
    · rfl
    · simp only [new, old j second] at same
      exact absurd same.symm (isPrivate j second)
    · simp only [new, old i first] at same
      exact absurd same (isPrivate i first)
    · simp only [old i first, old j second] at same
      exact accounts.frames i j first second same
  · rintro i j (rfl | first) (rfl | second) same
    · rfl
    · simp only [new, old j second] at same
      exact absurd same.symm (different j second)
    · simp only [new, old i first] at same
      exact absurd same (different i first)
    · simp only [old i first, old j second] at same
      exact accounts.contents i j first second same
  · intro frame isPrivate
    exact accounts.lone frame fun i used => by
      have elsewhere := isPrivate i (.inr used)
      rwa [show ({ state with cache := cache } : TextState).cache.ent i =
        state.cache.ent i from old i used] at elsewhere

theorem TextSound.remap (sound : TextSound state live spare) {i : Nat}
    (mapped : state.table page ≠ 0) (used : live i)
    (other : (state.cache.ent i).phys ≠ state.table page)
    (equal : state.content (state.cache.ent i).phys = state.content (state.table page)) :
    TextSound ((({ state with cache := state.cache.setRefs i ((state.cache.ent i).refs + 1) } : TextState).point
      page (state.cache.ent i).phys).giveBack (state.table page)) live spare := by
  obtain ⟨chains, accounts⟩ := sound
  obtain ⟨phys, isPhys⟩ : ∃ phys, state.table page = phys := ⟨_, rfl⟩
  obtain ⟨frame, isFrame⟩ : ∃ frame, (state.cache.ent i).phys = frame := ⟨_, rfl⟩
  have settled := (accounts.apart page).resolve_left mapped
  rw [isPhys] at mapped other equal ⊢
  rw [isFrame] at other equal ⊢
  have isPrivate : ∀ j, live j → (state.cache.ent j).phys ≠ phys := by
    intro j usedToo same
    have sameEntry := accounts.contents i j used usedToo (by rw [isFrame, equal, same])
    rw [← sameEntry, isFrame] at same
    exact other same
  have only : state.mappings phys = {page} :=
    accounts.private_eq isPrivate ((accounts.mapped page phys).mpr ⟨mapped, .inl isPhys⟩)
  have elsewhere : ∀ f, f ≠ phys → page ∉ state.mappings f := by
    intro f different member
    obtain ⟨nonzero, here⟩ := (accounts.mapped page f).mp member
    rcases here with here | dropped
    · exact different (here.symm.trans isPhys)
    · exact nonzero (dropped.symm.trans settled)
  have nonzero : frame ≠ 0 := by
    obtain ⟨p, member⟩ := Finset.nonempty_iff_ne_empty.mpr (accounts.used i used)
    rw [isFrame] at member
    exact ((accounts.mapped p frame).mp member).1
  have after : ∀ f, (state.point page frame).mappings f =
      if f = frame then insert page (state.mappings frame) else if f = phys then ∅ else state.mappings f := by
    intro f
    simp only [TextState.point]
    split
    · rename_i here
      rw [here]
    · split
      · rename_i here
        rw [here, only, Finset.erase_singleton]
      · rename_i different
        exact Finset.erase_eq_of_notMem (elsewhere f different)
  have entries : ∀ j, live j → (state.point page frame).mappings (state.cache.ent j).phys =
      if j = i then insert page (state.mappings frame) else state.mappings (state.cache.ent j).phys := by
    intro j usedToo
    rw [after, if_neg (isPrivate j usedToo)]
    by_cases same : j = i
    · rw [if_pos same, same, if_pos isFrame]
    · rw [if_neg same, if_neg fun here => same (accounts.frames j i usedToo used (here.trans isFrame.symm))]
  refine ⟨chains.setRefs i _, accounts.point_mapped settled nonzero, accounts.point_apart settled,
    ?_, ?_, ?_, ?_, ?_, ?_, ?_⟩
  · intro j usedToo
    change ((state.cache.setRefs i _).ent j).refs =
      ((state.point page frame).mappings ((state.cache.setRefs i _).ent j).phys).card
    rw [setRefs_refs, setRefs_phys, entries j usedToo]
    split
    · rw [Finset.card_insert_of_notMem (elsewhere frame other), accounts.refs i used, isFrame]
    · exact accounts.refs j usedToo
  · intro j usedToo
    change (state.point page frame).mappings ((state.cache.setRefs i _).ent j).phys ≠ ∅
    rw [setRefs_phys, entries j usedToo]
    split
    · exact Finset.insert_ne_empty page _
    · exact accounts.used j usedToo
  · intro j usedToo
    change ((state.cache.setRefs i _).ent j).hash = pageHash (state.content ((state.cache.setRefs i _).ent j).phys)
    rw [setRefs_phys, setRefs_hash]
    exact accounts.hash j usedToo
  · intro j k first second same
    change ((state.cache.setRefs i _).ent j).phys = ((state.cache.setRefs i _).ent k).phys at same
    rw [setRefs_phys, setRefs_phys] at same
    exact accounts.frames j k first second same
  · intro j k first second same
    change state.content ((state.cache.setRefs i _).ent j).phys =
      state.content ((state.cache.setRefs i _).ent k).phys at same
    rw [setRefs_phys, setRefs_phys] at same
    exact accounts.contents j k first second same
  · intro f isPrivateToo
    change ((state.point page frame).mappings f).card ≤ 1
    have notEntry : ∀ j, live j → (state.cache.ent j).phys ≠ f := by
      intro j usedToo
      have elsewhere := isPrivateToo j usedToo
      change ((state.cache.setRefs i _).ent j).phys ≠ f at elsewhere
      rwa [setRefs_phys] at elsewhere
    rw [after, if_neg fun here => notEntry i used (isFrame.trans here.symm)]
    split
    · exact Nat.zero_le 1
    · exact accounts.lone f notEntry
  · intro f
    change state.taken f = update state.given phys (state.given phys + 1) f +
      held ((state.point page frame).mappings f)
    have count := accounts.ledger f
    rw [after]
    by_cases isOwn : f = phys
    · subst isOwn
      rw [update_self, if_neg other.symm, if_pos rfl, held_empty]
      rw [only, held_of_ne (Finset.singleton_ne_empty page)] at count
      exact count
    · rw [update_of_ne isOwn, if_neg isOwn]
      split
      · rename_i here
        subst here
        have mappedBefore := accounts.used i used
        rw [isFrame] at mappedBefore
        rw [held_of_ne mappedBefore] at count
        rw [held_of_ne (Finset.insert_ne_empty page _)]
        exact count
      · exact count

theorem TextSound.share (sound : TextSound state live spare) (page : Mapping)
    (writable memory remapped : Bool) :
    ∃ live spare, TextSound (cosPcacheShare page writable memory remapped state).2 live spare := by
  rw [cosPcacheShare]
  dsimp only
  split
  · exact ⟨live, spare, sound⟩
  · rename_i offered
    have mapped : state.table page ≠ 0 := fun zero => offered (.inl zero)
    obtain ⟨readySpare, readied⟩ := sound.chains.initTables memory
    have sameEnt := initTables_ent memory state.cache
    have recached : TextSound { state with cache := (initTables memory state.cache).2 } live readySpare :=
      ⟨readied, sound.accounts.recache sameEnt⟩
    split
    · rename_i cache failed
      rw [failed] at recached
      exact ⟨live, readySpare, recached⟩
    · rename_i cache granted
      have ready := initTables_ready granted
      rw [granted] at recached
      rcases recached.chains.findText_cases state.content (state.table page) with
        ⟨nothing, unlike⟩ | ⟨found, used, alike⟩
      · rw [nothing, if_neg (not_not_intro rfl)]
        split
        · exact ⟨live, readySpare, recached⟩
        · rename_i room
          exact recached.register ready room mapped unlike
      · rw [if_pos found]
        split
        · exact ⟨live, readySpare, recached⟩
        · rename_i other
          split
          · exact ⟨live, readySpare, recached.remap mapped used other (alike.resolve_left other)⟩
          · exact ⟨live, readySpare, recached⟩

/-- The page whose `drop_page` is over leaves its frame. -/
def TextState.leave (page : Mapping) (state : TextState) : TextState :=
  { state with
    dropping := update state.dropping page 0
    mappings := update state.mappings (state.dropping page)
      ((state.mappings (state.dropping page)).erase page) }

theorem TextAccounts.leave_mapped (accounts : TextAccounts state live)
    (dropped : state.dropping page ≠ 0) (p : Mapping) (f : Nat) : p ∈ (state.leave page).mappings
      f ↔ f ≠ 0 ∧ (state.table p = f ∨ (state.leave page).dropping p = f) := by
  have unmapped := (accounts.apart page).resolve_right dropped
  have before := accounts.mapped p f
  simp only [TextState.leave]
  by_cases here : f = state.dropping page
  · subst here
    rw [update_self, Finset.mem_erase, before]
    by_cases same : p = page
    · subst same
      rw [update_self, unmapped]
      simp [dropped.symm]
    · simp [same]
  · rw [update_of_ne here, before]
    by_cases same : p = page
    · subst same
      rw [update_self, unmapped]
      refine and_congr_right fun nonzero => or_congr_right ?_
      exact ⟨fun equal => absurd equal.symm here, fun zero => absurd zero.symm nonzero⟩
    · rw [update_of_ne same]

theorem TextAccounts.leave_apart (accounts : TextAccounts state live) (p : Mapping) :
    state.table p = 0 ∨ (state.leave page).dropping p = 0 := by
  simp only [TextState.leave]
  by_cases same : p = page
  · subst same
    exact .inr (Function.update_self ..)
  · rw [Function.update_of_ne same]
    exact accounts.apart p

theorem TextSound.releasePrivate (sound : TextSound state live spare)
    (dropped : state.dropping page ≠ 0)
    (isPrivate : ∀ i, live i → (state.cache.ent i).phys ≠ state.dropping page) :
    TextSound ((state.leave page).giveBack (state.dropping page)) live spare := by
  obtain ⟨chains, accounts⟩ := sound
  have only : state.mappings (state.dropping page) = {page} :=
    accounts.private_eq isPrivate ((accounts.mapped page _).mpr ⟨dropped, .inr rfl⟩)
  have entries : ∀ i, live i → (state.leave page).mappings (state.cache.ent i).phys =
      state.mappings (state.cache.ent i).phys :=
    fun i used => update_of_ne (isPrivate i used) _ _
  have gone : (state.leave page).mappings (state.dropping page) = ∅ := by
    simp only [TextState.leave, Function.update_self]
    rw [only, Finset.erase_singleton]
  refine ⟨chains, accounts.leave_mapped dropped, accounts.leave_apart, ?_, ?_, accounts.hash,
    accounts.frames, accounts.contents, ?_, ?_⟩
  · exact fun i used => (accounts.refs i used).trans (congrArg Finset.card (entries i used).symm)
  · exact fun i used => (entries i used).trans_ne (accounts.used i used)
  · intro f isPrivateToo
    change ((state.leave page).mappings f).card ≤ 1
    by_cases here : f = state.dropping page
    · rw [here, gone]
      exact Nat.zero_le 1
    · simp only [TextState.leave, update_of_ne here]
      exact accounts.lone f isPrivateToo
  · intro f
    change state.taken f = update state.given _ (state.given (state.dropping page) + 1) f +
      held ((state.leave page).mappings f)
    have count := accounts.ledger f
    by_cases here : f = state.dropping page
    · subst here
      rw [Function.update_self, gone, held_empty]
      rw [only, held_of_ne (Finset.singleton_ne_empty page)] at count
      exact count
    · simp only [TextState.leave, Function.update_of_ne here]
      exact count

theorem TextSound.releaseShared (sound : TextSound state live spare)
    (dropped : state.dropping page ≠ 0) {i : Nat} (used : live i)
    (isEntry : (state.cache.ent i).phys = state.dropping page)
    (more : (state.cache.ent i).refs - 1 ≠ 0) :
    TextSound (({ state with cache := state.cache.setRefs i ((state.cache.ent i).refs - 1) } :
      TextState).leave page) live spare := by
  obtain ⟨chains, accounts⟩ := sound
  have member : page ∈ state.mappings (state.dropping page) :=
    (accounts.mapped page _).mpr ⟨dropped, .inr rfl⟩
  have count := accounts.refs i used
  rw [isEntry] at count
  have shrunk := Finset.card_erase_of_mem member
  have rest : (state.mappings (state.dropping page)).erase page ≠ ∅ := by
    rw [← Finset.card_pos.trans Finset.nonempty_iff_ne_empty, shrunk]
    omega
  have entries : ∀ j, live j → (state.leave page).mappings (state.cache.ent j).phys =
      if j = i then (state.mappings (state.dropping page)).erase page
      else state.mappings (state.cache.ent j).phys := by
    intro j usedToo
    simp only [TextState.leave]
    by_cases same : j = i
    · rw [if_pos same, same, isEntry, update_self]
    · rw [if_neg same]
      exact Function.update_of_ne (fun here => same (accounts.frames j i usedToo used (here.trans isEntry.symm))) _ _
  refine ⟨chains.setRefs i _, accounts.leave_mapped dropped, accounts.leave_apart, ?_, ?_, ?_, ?_,
    ?_, ?_, ?_⟩
  · intro j usedToo
    change ((state.cache.setRefs i _).ent j).refs =
      ((state.leave page).mappings ((state.cache.setRefs i _).ent j).phys).card
    rw [setRefs_refs, setRefs_phys, entries j usedToo]
    split
    · rw [shrunk, count]
    · exact accounts.refs j usedToo
  · intro j usedToo
    change (state.leave page).mappings ((state.cache.setRefs i _).ent j).phys ≠ ∅
    rw [setRefs_phys, entries j usedToo]
    split
    · exact rest
    · exact accounts.used j usedToo
  · intro j usedToo
    change ((state.cache.setRefs i _).ent j).hash = pageHash (state.content ((state.cache.setRefs i _).ent j).phys)
    rw [setRefs_phys, setRefs_hash]
    exact accounts.hash j usedToo
  · intro j k first second same
    change ((state.cache.setRefs i _).ent j).phys = ((state.cache.setRefs i _).ent k).phys at same
    rw [setRefs_phys, setRefs_phys] at same
    exact accounts.frames j k first second same
  · intro j k first second same
    change state.content ((state.cache.setRefs i _).ent j).phys =
      state.content ((state.cache.setRefs i _).ent k).phys at same
    rw [setRefs_phys, setRefs_phys] at same
    exact accounts.contents j k first second same
  · intro f isPrivate
    have notEntry : f ≠ state.dropping page := by
      have elsewhere := isPrivate i used
      change ((state.cache.setRefs i _).ent i).phys ≠ f at elsewhere
      rw [setRefs_phys, isEntry] at elsewhere
      exact elsewhere.symm
    simp only [TextState.leave, update_of_ne notEntry]
    refine accounts.lone f fun j usedToo => ?_
    have elsewhere := isPrivate j usedToo
    change ((state.cache.setRefs i _).ent j).phys ≠ f at elsewhere
    rwa [setRefs_phys] at elsewhere
  · intro f
    have balance := accounts.ledger f
    by_cases here : f = state.dropping page
    · subst here
      simp only [TextState.leave, Function.update_self]
      rw [held_of_ne rest]
      rwa [held_of_ne (Finset.ne_empty_of_mem member)] at balance
    · simp only [TextState.leave, Function.update_of_ne here]
      exact balance

theorem TextAccounts.last_eq (accounts : TextAccounts state live)
    (dropped : state.dropping page ≠ 0) {i : Nat} (used : live i)
    (isEntry : (state.cache.ent i).phys = state.dropping page)
    (last : (state.cache.ent i).refs - 1 = 0) : state.mappings (state.dropping page) = {page} := by
  have member : page ∈ state.mappings (state.dropping page) :=
    (accounts.mapped page _).mpr ⟨dropped, .inr rfl⟩
  have count := accounts.refs i used
  rw [isEntry] at count
  have few : (state.mappings (state.dropping page)).card ≤ 1 := by omega
  refine Finset.eq_singleton_iff_unique_mem.mpr ⟨member, fun other there => ?_⟩
  exact Finset.card_le_one.mp few other there page member

theorem TextSound.releaseLast (sound : TextSound state live spare)
    (dropped : state.dropping page ≠ 0) {i : Nat} (used : live i)
    (isEntry : (state.cache.ent i).phys = state.dropping page)
    (last : (state.cache.ent i).refs - 1 = 0) : TextSound ((({ state with
      cache := unlinkEntry i (state.cache.setRefs i ((state.cache.ent i).refs - 1)) } : TextState).leave page).giveBack
        (state.dropping page)) (fun j => live j ∧ j ≠ i) (i :: spare) := by
  obtain ⟨chains, accounts⟩ := sound
  have only := accounts.last_eq dropped used isEntry last
  have notEntry : ∀ j, live j ∧ j ≠ i → (state.cache.ent j).phys ≠ state.dropping page :=
    fun j stays here => stays.2 (accounts.frames j i stays.1 used (here.trans isEntry.symm))
  have gone : (state.leave page).mappings (state.dropping page) = ∅ := by
    simp only [TextState.leave, Function.update_self]
    rw [only, Finset.erase_singleton]
  have entries : ∀ j, live j ∧ j ≠ i → (state.leave page).mappings (state.cache.ent j).phys =
      state.mappings (state.cache.ent j).phys :=
    fun j stays => update_of_ne (notEntry j stays) _ _
  refine ⟨(chains.setRefs i _).unlink used, accounts.leave_mapped dropped, accounts.leave_apart, ?_,
    ?_, ?_, ?_, ?_, ?_, ?_⟩
  · intro j stays
    change ((state.cache.setRefs i _).ent j).refs =
      ((state.leave page).mappings ((state.cache.setRefs i _).ent j).phys).card
    rw [setRefs_refs, if_neg stays.2, setRefs_phys, entries j stays]
    exact accounts.refs j stays.1
  · intro j stays
    change (state.leave page).mappings ((state.cache.setRefs i _).ent j).phys ≠ ∅
    rw [setRefs_phys, entries j stays]
    exact accounts.used j stays.1
  · intro j stays
    change ((state.cache.setRefs i _).ent j).hash = pageHash (state.content ((state.cache.setRefs i _).ent j).phys)
    rw [setRefs_phys, setRefs_hash]
    exact accounts.hash j stays.1
  · intro j k first second same
    change ((state.cache.setRefs i _).ent j).phys = ((state.cache.setRefs i _).ent k).phys at same
    rw [setRefs_phys, setRefs_phys] at same
    exact accounts.frames j k first.1 second.1 same
  · intro j k first second same
    change state.content ((state.cache.setRefs i _).ent j).phys =
      state.content ((state.cache.setRefs i _).ent k).phys at same
    rw [setRefs_phys, setRefs_phys] at same
    exact accounts.contents j k first.1 second.1 same
  · intro f isPrivate
    change ((state.leave page).mappings f).card ≤ 1
    by_cases here : f = state.dropping page
    · rw [here, gone]
      exact Nat.zero_le 1
    · simp only [TextState.leave, update_of_ne here]
      refine accounts.lone f fun j usedToo => ?_
      by_cases same : j = i
      · rw [same, isEntry]
        exact Ne.symm here
      · have elsewhere := isPrivate j ⟨usedToo, same⟩
        change ((state.cache.setRefs i _).ent j).phys ≠ f at elsewhere
        rwa [setRefs_phys] at elsewhere
  · intro f
    change state.taken f = update state.given _ (state.given (state.dropping page) + 1) f +
      held ((state.leave page).mappings f)
    have balance := accounts.ledger f
    by_cases here : f = state.dropping page
    · subst here
      rw [Function.update_self, gone, held_empty]
      rw [only, held_of_ne (Finset.singleton_ne_empty page)] at balance
      exact balance
    · simp only [TextState.leave, Function.update_of_ne here]
      exact balance

theorem TextSound.release_cases (sound : TextSound state live spare) (page : Mapping) :
    ((∀ i, live i → (state.cache.ent i).phys ≠ state.dropping page) ∧
        releasePage page state = (state.leave page).giveBack (state.dropping page)) ∨
      ∃ i, live i ∧ (state.cache.ent i).phys = state.dropping page ∧
        (((state.cache.ent i).refs - 1 = 0 ∧ releasePage page state = (({ state with
            cache := unlinkEntry i (state.cache.setRefs i ((state.cache.ent i).refs - 1)) } : TextState).leave
              page).giveBack (state.dropping page)) ∨
          ((state.cache.ent i).refs - 1 ≠ 0 ∧ releasePage page state = ({ state with
            cache := state.cache.setRefs i ((state.cache.ent i).refs - 1) } : TextState).leave page)) := by
  rw [releasePage, cosPcacheRelease]
  by_cases unready : state.cache.ready = false
  · rw [if_pos unready]
    exact .inl ⟨fun i used => absurd used (sound.chains.unready unready i), rfl⟩
  · rw [if_neg unready]
    rcases sound.chains.findFrame_cases (state.dropping page) with ⟨nothing, isPrivate⟩ | ⟨found, used, isEntry⟩
    · rw [nothing, if_pos rfl]
      exact .inl ⟨isPrivate, rfl⟩
    · rw [if_neg found]
      refine .inr ⟨_, used, isEntry, ?_⟩
      by_cases last : (state.cache.ent (findFrame state.cache (state.dropping page))).refs - 1 = 0
      · rw [if_pos last]
        exact .inl ⟨last, rfl⟩
      · rw [if_neg last]
        exact .inr ⟨last, rfl⟩

theorem TextSound.release (sound : TextSound state live spare) (dropped : state.dropping page ≠ 0) :
    ∃ live spare, TextSound (releasePage page state) live spare := by
  rcases sound.release_cases page with ⟨isPrivate, after⟩ |
    ⟨i, used, isEntry, ⟨last, after⟩ | ⟨more, after⟩⟩ <;> rw [after]
  · exact ⟨live, spare, sound.releasePrivate dropped isPrivate⟩
  · exact ⟨_, _, sound.releaseLast dropped used isEntry last⟩
  · exact ⟨live, spare, sound.releaseShared dropped used isEntry more⟩

theorem TextSound.step (sound : TextSound state live spare) {call : TextCall}
    (allowed : TextAllowed state call) :
    ∃ live spare, TextSound (textStep state call) live spare := by
  cases call with
  | load page frame bytes =>
      obtain ⟨nonzero, free, unmapped, settled⟩ := allowed
      exact ⟨live, spare, sound.load nonzero free unmapped settled bytes⟩
  | write page bytes => exact ⟨live, spare, sound.write allowed.2 bytes⟩
  | share page writable memory remapped => exact sound.share page writable memory remapped
  | unmap page => exact ⟨live, spare, sound.unmap allowed⟩
  | release page => exact sound.release allowed

end Accounts

section Steps

variable {state : TextState} {live : Nat → Prop} {spare : List Nat}

theorem share_cases (sound : TextSound state live spare) (page : Mapping)
    (writable memory remapped : Bool) :
    (∃ cache, (cosPcacheShare page writable memory remapped state).2 = { state with cache := cache }) ∨
      ∃ cache frame, state.table page ≠ 0 ∧ frame ≠ 0 ∧ state.content frame =
        state.content (state.table page) ∧ (cosPcacheShare page writable memory remapped state).2 =
          (({ state with cache := cache } : TextState).point page frame).giveBack (state.table page) := by
  rw [cosPcacheShare]
  dsimp only
  split
  · exact .inl ⟨state.cache, rfl⟩
  · rename_i offered
    have mapped : state.table page ≠ 0 := fun zero => offered (.inl zero)
    obtain ⟨readySpare, readied⟩ := sound.chains.initTables memory
    have sameEnt := initTables_ent memory state.cache
    split
    · exact .inl ⟨_, rfl⟩
    · rename_i cache granted
      rw [granted] at readied sameEnt
      rcases readied.findText_cases state.content (state.table page) with ⟨nothing, _⟩ | ⟨found, used, alike⟩
      · rw [nothing, if_neg (not_not_intro rfl)]
        split <;> exact .inl ⟨_, rfl⟩
      · rw [if_pos found]
        split
        · exact .inl ⟨_, rfl⟩
        · rename_i other
          split
          · refine .inr ⟨_, _, mapped, ?_, alike.resolve_left other, rfl⟩
            rw [sameEnt]
            obtain ⟨p, member⟩ := Finset.nonempty_iff_ne_empty.mpr (sound.accounts.used _ used)
            exact ((sound.accounts.mapped p _).mp member).1
          · exact .inl ⟨_, rfl⟩

theorem step_given (sound : TextSound state live spare) (call : TextCall) (frame : Nat) :
    (textStep state call).given frame = state.given frame ∨
      ((textStep state call).given frame = state.given frame + 1 ∧
        (textStep state call).taken frame = state.taken frame) := by
  have one : ∀ f, update state.given f (state.given f + 1) frame = state.given frame ∨
      update state.given f (state.given f + 1) frame = state.given frame + 1 := by
    intro f
    by_cases same : frame = f
    · subst same
      exact .inr (update_self ..)
    · exact .inl (update_of_ne same _ _)
  cases call with
  | load page f bytes => exact .inl rfl
  | write page bytes => exact .inl rfl
  | unmap page => exact .inl rfl
  | share page writable memory remapped =>
      rcases share_cases sound page writable memory remapped with ⟨cache, after⟩ |
        ⟨cache, f, _, _, _, after⟩ <;> rw [textStep, after]
      · exact .inl rfl
      · exact (one _).imp_right fun more => ⟨more, rfl⟩
  | release page =>
      rcases sound.release_cases page with ⟨_, after⟩ | ⟨i, _, _, ⟨_, after⟩ | ⟨_, after⟩⟩ <;> rw [textStep, after]
      · exact (one _).imp_right fun more => ⟨more, rfl⟩
      · exact (one _).imp_right fun more => ⟨more, rfl⟩
      · exact .inl rfl

theorem reads_eq {other : TextState} {page : Mapping} (table : other.table page = state.table page)
    (content : state.table page ≠ 0 →
    other.content (state.table page) =
    state.content (state.table page)) : other.reads page = state.reads page := by
  rw [TextState.reads, TextState.reads, table]
  split
  · rfl
  · rename_i mapped
    rw [content mapped]

theorem step_reads (sound : TextSound state live spare) {call : TextCall}
    (allowed : TextAllowed state call) {page : Mapping}
    (notWritten : ∀ bytes, call ≠ .write page bytes)
    (notLoaded : ∀ frame bytes, call ≠ .load page frame bytes) (notUnmapped : call ≠ .unmap page) :
    (textStep state call).reads page = state.reads page := by
  obtain ⟨chains, accounts⟩ := sound
  cases call with
  | load changed frame bytes =>
      have other : page ≠ changed := fun same => notLoaded frame bytes (by rw [same])
      refine reads_eq (update_of_ne other _ _) fun mapped => update_of_ne ?_ _ _
      rintro rfl
      have member := accounts.table_mem mapped
      rw [accounts.unmapped allowed.2.1] at member
      exact absurd member (Finset.notMem_empty page)
  | write changed bytes =>
      have other : page ≠ changed := fun same => notWritten bytes (by rw [same])
      refine reads_eq rfl fun mapped => update_of_ne (fun same => other ?_) _ _
      have only : state.mappings (state.table changed) = {changed} := accounts.private_eq
        (fun i used => allowed.2 i (chains.listed_iff.mpr used)) (accounts.table_mem allowed.1)
      have member := accounts.table_mem mapped
      rw [same, only] at member
      exact Finset.mem_singleton.mp member
  | unmap changed =>
      have other : page ≠ changed := fun same => notUnmapped (by rw [same])
      exact reads_eq (update_of_ne other _ _) fun _ => rfl
  | share changed writable memory remapped =>
      rcases share_cases ⟨chains, accounts⟩ changed writable memory remapped with
        ⟨cache, after⟩ | ⟨cache, frame, mapped, nonzero, equal, after⟩ <;> rw [textStep, after]
      · rfl
      · by_cases same : page = changed
        · subst same
          simp only [TextState.reads, TextState.giveBack, TextState.point, update_self,
            if_neg nonzero, if_neg mapped, equal]
        · exact reads_eq (update_of_ne same _ _) fun _ => rfl
  | release changed =>
      rcases TextSound.release_cases ⟨chains, accounts⟩ changed with
        ⟨_, after⟩ | ⟨i, _, _, ⟨_, after⟩ | ⟨_, after⟩⟩ <;> rw [textStep, after] <;> rfl

theorem TextSound.stepHolds (sound : TextSound state live spare) {call : TextCall}
    (allowed : TextAllowed state call) : TextStepHolds state call where
  returns := by
    intro frame changed
    obtain ⟨more, same⟩ := (step_given sound call frame).resolve_left changed
    obtain ⟨_, _, after⟩ := sound.step allowed
    have before := sound.accounts.ledger frame
    have balance := after.accounts.ledger frame
    refine ⟨more, fun unmapped => ?_, ?_⟩
    · rw [unmapped, held_empty] at before
      omega
    · by_contra mapped
      have atMost : held (state.mappings frame) ≤ 1 := by
        rw [held]
        split <;> omega
      rw [held_of_ne mapped] at balance
      omega
  releases := by
    rintro page rfl
    exact Function.update_self ..
  reads := fun _ notWritten notLoaded notUnmapped =>
    step_reads sound allowed notWritten notLoaded notUnmapped

/-- In every run, whatever the order of the steps, the counts of the cache are the numbers of
mappings, no two entries have one frame or equal contents, every frame is given back once, with its
last mapping, and no process reads anything else in a page than it did before. -/
theorem shared_text_sound {content : Nat → TextPage}
    (reached : Reaches textStep TextAllowed (.boot content) state) :
    TextHolds state ∧ ∀ call, TextAllowed state call → TextStepHolds state call := by
  obtain ⟨live, spare, sound⟩ := @Reaches.invariant _ _ _ _ _ _
    (fun state => ∃ live spare, TextSound state live spare) reached ⟨_, _, textSound_boot content⟩
    fun _ _ ⟨_, _, sound⟩ allowed => sound.step allowed
  exact ⟨sound.accounts.holds sound.chains, fun call allowed => sound.stepHolds allowed⟩

end Steps

def blankPage : TextPage := ⟨List.replicate 512 0, List.length_replicate⟩

/-- Two processes load equal pages and offer them: the second one is mapped to the first one's
frame. -/
def twoReaders : TextState :=
  runSteps textStep (.boot fun _ => blankPage)
    [.load ⟨1, 256⟩ 5 blankPage, .load ⟨2, 256⟩ 6 blankPage,
    .share ⟨1, 256⟩ false true true, .share ⟨2, 256⟩ false true true]

theorem shared_text_sound_twoReaders : TextHolds twoReaders ∧
    ∀ call, TextAllowed twoReaders call → TextStepHolds twoReaders call := by
  refine @shared_text_sound _ (fun _ => blankPage)
    (Reaches.refl.runSteps ⟨?_, ?_, trivial, trivial, trivial⟩)
  · exact ⟨by decide, rfl, rfl, rfl⟩
  · exact ⟨by decide, by decide, by decide, by decide⟩

end Cos.Paging
