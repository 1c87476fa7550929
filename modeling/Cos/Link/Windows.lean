import Cos.Elf.Placement
import Cos.Lib.Run
import Cos.Link.LoadSteps
import Cos.Link.Views

/-! # The address windows of the libraries

`alloc_base` reserves a window for each library, as large as the library's span, and the library
is mapped at the start of its window plus its lowest address.  As long as that stays inside the
window, the objects in use never share a page.
-/

namespace Cos.Link

open Cos.Elf Cos.Lib

inductive LinkCall where
  | load (env : LoadEnv) (program : Program)
  | dlopen (env : LoadEnv) (flags : DlFlags) (name : CString)
  | dlclose (env : LoadEnv) (handle : Nat)

def linkStep (state : LinkState) : LinkCall → LinkState
  | .load env program => (cosLinkLoadExecutable env program state).2
  | .dlopen env flags name => (cosLinkDlopen env flags name state).2
  | .dlclose env handle => (cosLinkDlclose env handle state).2

/-- The objects in use lie apart, each library in its window, and `load_object` has never copied
a segment into a page of another object. -/
structure ObjectsApart (state : LinkState) : Prop where
  disjoint : ∀ i j slot other, state.ns.objs i = some slot → state.ns.objs j = some other → i ≠ j →
    slot.obj.mapEnd ≤ other.obj.mapStart ∨ other.obj.mapEnd ≤ slot.obj.mapStart
  inside : ∀ i slot, state.ns.objs i = some slot → slot.isMain = false →
    slot.vlo ≤ slot.obj.mapStart ∧ slot.obj.mapEnd ≤ slot.vhi
  noTrespass : state.trespassed = false

/-- The files a call may come to: those asked for, and whatever the `DT_NEEDED` names of such a
file can be resolved to. -/
inductive Wanted (env : LoadEnv) (roots : CString → Prop) : CString → Prop
  | root {path : CString} (asked : roots path) : Wanted env roots path
  | needed {path : CString} {image : ElfImage} {name userPath : CString} {requester : Option Requester}
      {dep : CString} (by_ : Wanted env roots path) (file : env.files.image path = some image)
      (listed : name ∈ image.needed)
      (resolved : resolveNeeded env.files env.searchPath userPath requester name = some dep) :
      Wanted env roots dep

/-- The file's addresses start low enough for the window its span is given. -/
def FitsWindow (image : ElfImage) : Prop :=
  ∀ info, cosElfInspect image = some info → image.eType = .dyn →
    info.minVaddr + info.span ≤ libAlignUp info.span

def WantedFit (env : LoadEnv) (roots : CString → Prop) : Prop :=
  ∀ path image, Wanted env roots path → env.files.image path = some image → FitsWindow image

def OutsideLibraries (env : LoadEnv) (program : Program) : Prop :=
  ∀ minV maxV, validateLoads program.image = some (minV, maxV) →
    (programBias env program + pageUp maxV) % 2 ^ 64 ≤ libBase ∨
      libLimit ≤ (programBias env program + pageDown minV) % 2 ^ 64

/-- What a program's load asks for: its preloads and what its `DT_NEEDED` names lead to. -/
def programRoots (env : LoadEnv) (program : Program) (path : CString) : Prop :=
  path ∈ program.preloads ∨ ∃ name ∈ program.image.needed, ∃ userPath requester,
    resolveNeeded env.files env.searchPath userPath requester name = some path

/-- The calls under which the windows hold what they are meant for. -/
def fitsCall (state : LinkState) : LinkCall → Prop
  | .load env program => OutsideLibraries env program ∧ WantedFit env (programRoots env program)
  | .dlopen env flags name => flags.noload = false →
      WantedFit env fun path => resolveFrom env state.ns (some 0) name = some path
  | .dlclose _ _ => True

def LinkObj.place (slot : LinkObj) : Bool × Nat × Nat × Nat × Nat × List Seg :=
  (slot.isMain, slot.vlo, slot.vhi, slot.obj.mapStart, slot.obj.mapEnd, slot.obj.segs)

structure InWindow (nextBase : Nat) (slot : LinkObj) : Prop where
  bottom : libBase ≤ slot.vlo
  aligned : slot.vlo % libAlign = 0
  nonempty : slot.vlo < slot.vhi
  top : slot.vhi ≤ nextBase
  start : slot.vlo ≤ slot.obj.mapStart
  stop : slot.obj.mapEnd ≤ slot.vhi
  segs : ∀ seg ∈ slot.obj.segs, slot.vlo ≤ seg.start ∧ seg.stop ≤ slot.vhi

structure OutsideArea (slot : LinkObj) : Prop where
  range : slot.obj.mapEnd ≤ libBase ∨ libLimit ≤ slot.obj.mapStart
  segs : ∀ seg ∈ slot.obj.segs, seg.stop ≤ libBase ∨ libLimit ≤ seg.start

structure LibraryArea (ns : LinkNs) : Prop where
  bottom : libBase ≤ ns.nextBase
  top : ns.nextBase ≤ libLimit
  aligned : ns.nextBase % libAlign = 0
  main : ∀ i slot, ns.objs i = some slot → slot.isMain = true → i = 0 ∧ OutsideArea slot
  library : ∀ i slot, ns.objs i = some slot → slot.isMain = false → InWindow ns.nextBase slot
  apart : ∀ i j slot other, ns.objs i = some slot → ns.objs j = some other → i ≠ j →
    slot.isMain = false → other.isMain = false → slot.vhi ≤ other.vlo ∨ other.vhi ≤ slot.vlo

variable {ns other : LinkNs} {state : LinkState}

theorem libraryArea_fresh : LibraryArea LinkNs.fresh where
  bottom := Nat.le_refl _
  top := by decide
  aligned := by decide
  main := fun _ _ found => by contradiction
  library := fun _ _ found => by contradiction
  apart := fun _ _ _ _ found => by contradiction

theorem LibraryArea.objectsApart (area : LibraryArea state.ns) (clean : state.trespassed = false) :
    ObjectsApart state where
  disjoint := by
    intro i j slot other found there different
    cases kind : slot.isMain with
    | true =>
        obtain ⟨isZero, outside⟩ := area.main i slot found kind
        cases otherKind : other.isMain with
        | true => exact absurd (isZero.trans (area.main j other there otherKind).1.symm) different
        | false =>
            have window := area.library j other there otherKind
            rcases outside.range with below | above
            · exact .inl (below.trans (window.bottom.trans window.start))
            · exact .inr ((window.stop.trans (window.top.trans area.top)).trans above)
    | false =>
        have window := area.library i slot found kind
        cases otherKind : other.isMain with
        | true =>
            obtain ⟨_, outside⟩ := area.main j other there otherKind
            rcases outside.range with below | above
            · exact .inr (below.trans (window.bottom.trans window.start))
            · exact .inl ((window.stop.trans (window.top.trans area.top)).trans above)
        | false =>
            have otherWindow := area.library j other there otherKind
            rcases area.apart i j slot other found there different kind otherKind with before | after
            · exact .inl (window.stop.trans (before.trans otherWindow.start))
            · exact .inr (otherWindow.stop.trans (after.trans window.start))
  inside := fun i slot found kind =>
    ⟨(area.library i slot found kind).start, (area.library i slot found kind).stop⟩
  noTrespass := clean

theorem InWindow.congr {nextBase : Nat} {slot original : LinkObj}
    (window : InWindow nextBase original) (same : slot.place = original.place) :
    InWindow nextBase slot := by
  simp only [LinkObj.place, Prod.mk.injEq] at same
  obtain ⟨_, vlo, vhi, start, stop, segs⟩ := same
  obtain ⟨bottom, aligned, nonempty, top, starts, stops, segments⟩ := window
  constructor
  case bottom => rwa [vlo]
  case aligned => rwa [vlo]
  case nonempty => rwa [vlo, vhi]
  case top => rwa [vhi]
  case start => rwa [vlo, start]
  case stop => rwa [vhi, stop]
  case segs => rwa [vlo, vhi, segs]

theorem OutsideArea.congr {slot original : LinkObj} (outside : OutsideArea original)
    (same : slot.place = original.place) : OutsideArea slot := by
  simp only [LinkObj.place, Prod.mk.injEq] at same
  obtain ⟨_, _, _, start, stop, segs⟩ := same
  exact ⟨by rw [start, stop]; exact outside.range, by rw [segs]; exact outside.segs⟩

theorem LibraryArea.same (area : LibraryArea ns) (same : SameView LinkObj.place ns other)
    (cursor : other.nextBase = ns.nextBase) : LibraryArea other where
  bottom := cursor ▸ area.bottom
  top := cursor ▸ area.top
  aligned := cursor ▸ area.aligned
  main := by
    intro i slot found kind
    obtain ⟨original, here, place⟩ := same.slot found
    obtain ⟨isZero, outside⟩ := area.main i original here (by rw [← (Prod.mk.inj place).1]; exact kind)
    exact ⟨isZero, outside.congr place⟩
  library := by
    intro i slot found kind
    obtain ⟨original, here, place⟩ := same.slot found
    rw [cursor]
    exact (area.library i original here (by rw [← (Prod.mk.inj place).1]; exact kind)).congr place
  apart := by
    intro i j slot second found there different kind secondKind
    obtain ⟨original, here, place⟩ := same.slot found
    obtain ⟨secondOriginal, secondHere, secondPlace⟩ := same.slot there
    have apart := area.apart i j original secondOriginal here secondHere different
      (by rw [← (Prod.mk.inj place).1]; exact kind) (by rw [← (Prod.mk.inj secondPlace).1]; exact secondKind)
    simp only [LinkObj.place, Prod.mk.injEq] at place secondPlace
    rw [place.2.1, place.2.2.1, secondPlace.2.1, secondPlace.2.2.1]
    exact apart

theorem libAlignUp_of_aligned {v : Nat} (aligned : v % libAlign = 0) (small : v ≤ libLimit) :
    libAlignUp v = v := by
  unfold libAlignUp libAlign libLimit at *
  omega

theorem libAlignUp_bounds (span : Nat) :
    libAlignUp span % libAlign = 0 ∧ libAlignUp span < 2 ^ 64 := by
  unfold libAlignUp libAlign
  omega

theorem LibraryArea.allocBase (area : LibraryArea ns) (span : Nat) :
    ((Link.allocBase ns span).1 = 0 ∧ (Link.allocBase ns span).2 = ns) ∨
      ((Link.allocBase ns span).1 = ns.nextBase ∧ 0 < libAlignUp span ∧
        ns.nextBase + libAlignUp span ≤ libLimit ∧
        (Link.allocBase ns span).2 = { ns with nextBase := ns.nextBase + libAlignUp span }) := by
  have base := libAlignUp_of_aligned area.aligned area.top
  obtain ⟨_, small⟩ := libAlignUp_bounds span
  obtain ⟨size, isSize⟩ : ∃ size, libAlignUp span = size := ⟨_, rfl⟩
  rw [Link.allocBase]
  simp only [base, isSize] at small ⊢
  split
  · exact .inl ⟨rfl, rfl⟩
  · rename_i roomy
    have stop : (ns.nextBase + size) % 2 ^ 64 = ns.nextBase + size ∧ 0 < size ∧
        ns.nextBase + size ≤ libLimit := by
      omega
    rw [stop.1]
    exact .inr ⟨rfl, stop.2.1, stop.2.2, rfl⟩

theorem InWindow.raise {low high : Nat} {slot : LinkObj} (window : InWindow low slot)
    (raised : low ≤ high) : InWindow high slot :=
  ⟨window.bottom, window.aligned, window.nonempty, window.top.trans raised, window.start,
    window.stop, window.segs⟩

theorem LibraryArea.raise (area : LibraryArea ns) {cursor : Nat} (higher : ns.nextBase ≤ cursor)
    (top : cursor ≤ libLimit) (aligned : cursor % libAlign = 0) :
    LibraryArea { ns with nextBase := cursor } where
  bottom := area.bottom.trans higher
  top := top
  aligned := aligned
  main := area.main
  library := fun i slot found kind => (area.library i slot found kind).raise higher
  apart := area.apart

theorem LibraryArea.allocBase_area (area : LibraryArea ns) (span : Nat) :
    LibraryArea (Link.allocBase ns span).2 := by
  rcases area.allocBase span with ⟨_, same⟩ | ⟨_, _, top, isNs⟩
  · rw [same]
    exact area
  · rw [isNs]
    refine area.raise (Nat.le_add_right _ _) top ?_
    rw [Nat.add_mod, area.aligned, (libAlignUp_bounds span).1]
    rfl

theorem LibraryArea.owns_free (area : LibraryArea ns) {ranges : List Seg}
    (free : ∀ seg ∈ ranges, ns.nextBase ≤ seg.start ∧ seg.stop ≤ libLimit) :
    ns.owns ranges = false := by
  simp only [LinkNs.owns, List.any_eq_false, Bool.not_eq_true]
  intro i _
  cases found : ns.objs i with
  | none => rfl
  | some slot =>
      simp only [Option.any_some, List.any_eq_false, Bool.not_eq_true]
      intro seg member range listed
      obtain ⟨low, high⟩ := free range listed
      have bottom := area.bottom
      simp only [Seg.meets, Bool.and_eq_false_iff, decide_eq_false_iff_not, Nat.not_lt]
      cases kind : slot.isMain with
      | true =>
          obtain ⟨_, outside⟩ := area.main i slot found kind
          rcases outside.segs seg member with below | above
          · exact .inr (below.trans (bottom.trans low))
          · exact .inl (high.trans above)
      | false =>
          have window := area.library i slot found kind
          exact .inr ((window.segs seg member).2.trans (window.top.trans low))

theorem owns_congr (same : other.objs = ns.objs) (ranges : List Seg) :
    other.owns ranges = ns.owns ranges := by
  rw [LinkNs.owns, LinkNs.owns, same]

theorem cosElfInspect_some {image : ElfImage} {info : ElfInfo} {minV maxV : Nat}
    (header : cosElfInspect image = some info) (bounds : validateLoads image = some (minV, maxV)) :
    info.minVaddr = pageDown minV ∧ info.span = spanOf minV maxV := by
  rw [cosElfInspect, bounds] at header
  dsimp only at header
  split at header
  · contradiction
  · rw [← Option.some.inj header]
    exact ⟨rfl, rfl⟩

theorem FitsWindow.mapped {image : ElfImage} {info : ElfInfo} {minV maxV base : Nat}
    (fits : FitsWindow image) (header : cosElfInspect image = some info) (kind : image.eType = .dyn)
    (bounds : validateLoads image = some (minV, maxV)) (aligned : base % libAlign = 0)
    (top : base + libAlignUp info.span ≤ libLimit) :
    base ≤ (base + pageDown minV) % 2 ^ 64 ∧
      (base + pageDown minV) % 2 ^ 64 + spanOf minV maxV ≤ base + libAlignUp info.span ∧
      pageUp ((base + pageDown minV) % 2 ^ 64 + spanOf minV maxV) ≤ base + libAlignUp info.span := by
  obtain ⟨isMin, isSpan⟩ := cosElfInspect_some header bounds
  have inside := fits info header kind
  obtain ⟨sizeAligned, _⟩ := libAlignUp_bounds info.span
  unfold libAlign at aligned sizeAligned
  unfold libLimit at top
  unfold pageUp
  rw [if_neg (by omega)]
  omega

/-- What holds while objects are loaded.  A `dlopen`, which may have to take them back, keeps
`tracked` of what it has registered: these are libraries. -/
structure LoadSound (tracked : Bool) (state : LinkState) : Prop where
  area : LibraryArea state.ns
  clean : state.trespassed = false
  fresh : tracked = true → ∀ i ∈ state.ns.newMask, ∀ slot, state.ns.objs i = some slot →
    slot.isMain = false

variable {tracked : Bool}

theorem LoadSound.same {after : LinkState} (sound : LoadSound tracked state)
    (same : SameView LinkObj.place state.ns after.ns)
    (cursor : after.ns.nextBase = state.ns.nextBase) (mask : after.ns.newMask = state.ns.newMask)
    (clean : after.trespassed = state.trespassed) : LoadSound tracked after where
  area := sound.area.same same cursor
  clean := clean.trans sound.clean
  fresh := by
    intro isTracked i member slot found
    obtain ⟨original, here, place⟩ := same.slot found
    rw [(Prod.mk.inj place).1]
    exact sound.fresh isTracked i (mask ▸ member) original here

theorem allocBase_keeps (ns : LinkNs) (span : Nat) :
    (Link.allocBase ns span).2.objs = ns.objs ∧
    (Link.allocBase ns span).2.newMask = ns.newMask := by
  rw [Link.allocBase]
  split <;> exact ⟨rfl, rfl⟩

theorem recordNeed_keeps (ns : LinkNs) (requester : Option Nat) (i : Nat) :
    (ns.recordNeed requester i).nextBase = ns.nextBase ∧
    (ns.recordNeed requester i).newMask = ns.newMask := by
  cases requester with
  | none => exact ⟨rfl, rfl⟩
  | some j =>
      rw [LinkNs.recordNeed]
      split <;> exact ⟨rfl, rfl⟩

theorem LoadSound.allocBase (sound : LoadSound tracked state) (span : Nat) :
    LoadSound tracked { state with ns := (Link.allocBase state.ns span).2 } where
  area := sound.area.allocBase_area span
  clean := sound.clean
  fresh := by
    obtain ⟨objs, mask⟩ := allocBase_keeps state.ns span
    intro isTracked i member slot found
    rw [mask] at member
    rw [objs] at found
    exact sound.fresh isTracked i member slot found

theorem LibraryArea.join (area : LibraryArea ns) {i cursor : Nat} {slot : LinkObj}
    (vacant : ns.objs i = none) (kind : slot.isMain = false) (window : InWindow cursor slot)
    (bottom : ns.nextBase = slot.vlo) (isTop : slot.vhi = cursor) (top : cursor ≤ libLimit)
    (aligned : cursor % libAlign = 0) :
    LibraryArea { ns.setSlot i (some slot) with nextBase := cursor } := by
  have raised := @LibraryArea.raise ns area cursor
    (by rw [bottom, ← isTop]; exact window.nonempty.le) top aligned
  have cases_ : ∀ j found, (ns.setSlot i (some slot)).objs j = some found →
      (j = i ∧ found = slot) ∨ (j ≠ i ∧ ns.objs j = some found) := by
    intro j found there
    rw [LinkNs.setSlot_objs] at there
    split at there
    · rename_i here
      exact .inl ⟨here, (Option.some.inj there).symm⟩
    · rename_i elsewhere
      exact .inr ⟨elsewhere, there⟩
  constructor
  case bottom => exact raised.bottom
  case top => exact top
  case aligned => exact aligned
  case main =>
    intro j found there isMain
    rcases cases_ j found there with ⟨_, rfl⟩ | ⟨_, old⟩
    · rw [kind] at isMain
      contradiction
    · exact area.main j found old isMain
  case library =>
    intro j found there isLibrary
    rcases cases_ j found there with ⟨_, rfl⟩ | ⟨_, old⟩
    · exact window
    · exact raised.library j found old isLibrary
  case apart =>
    intro j k found second there secondThere different isLibrary secondLibrary
    rcases cases_ j found there with ⟨rfl, rfl⟩ | ⟨_, old⟩
    · rcases cases_ k second secondThere with ⟨same, _⟩ | ⟨_, old⟩
      · exact absurd same.symm different
      · exact .inr ((area.library k second old secondLibrary).top.trans_eq bottom)
    · rcases cases_ k second secondThere with ⟨rfl, rfl⟩ | ⟨_, secondOld⟩
      · exact .inl ((area.library j found old isLibrary).top.trans_eq bottom)
      · exact area.apart j k found second old secondOld different isLibrary secondLibrary

theorem allocSlot_vacant {i : Nat} (free : allocSlot ns = some i) : ns.objs i = none := by
  simpa using List.find?_some free

theorem FitsWindow.placed {image : ElfImage} {info : ElfInfo} {memory : Nat → Bool} {pie : Nat}
    {before after : UserPages} {result : Option ElfObject} (fits : FitsWindow image)
    (header : cosElfInspect image = some info) (area : LibraryArea ns) (nonzero : ns.nextBase ≠ 0)
    (top : ns.nextBase + libAlignUp info.span ≤ libLimit)
    (ran : cosElfMap memory pie image ns.nextBase before = (result, after)) :
    (∀ seg ∈ after.copied.drop before.copied.length, ns.nextBase ≤ seg.start ∧
        seg.stop ≤ ns.nextBase + libAlignUp info.span) ∧
      ∀ obj, result = some obj → ns.nextBase ≤ obj.mapStart ∧
        obj.mapEnd ≤ ns.nextBase + libAlignUp info.span ∧
        ∀ seg ∈ obj.segs, ns.nextBase ≤ seg.start ∧ seg.stop ≤ ns.nextBase + libAlignUp info.span := by
  rcases cosElfMap_within ran with ⟨failed, rfl⟩ |
    ⟨minV, maxV, copies, bounds, fixed, placed, within, isObj⟩
  · exact ⟨by simp, fun obj same => by rw [failed] at same; contradiction⟩
  · have kind : image.eType = .dyn := by
      cases isKind : image.eType with
      | dyn => rfl
      | exec => exact absurd (fixed isKind) nonzero
    have bias : effectiveBias pie image ns.nextBase = ns.nextBase := by simp [effectiveBias, nonzero]
    rw [bias] at placed within isObj
    obtain ⟨start, stop, pagesStop⟩ := fits.mapped header kind bounds area.aligned top
    have inWindow : ∀ seg ∈ copies, ns.nextBase ≤ seg.start ∧
        seg.stop ≤ ns.nextBase + libAlignUp info.span := by
      intro seg member
      obtain ⟨low, high⟩ := within.within seg member
      exact ⟨start.trans low, high.trans pagesStop⟩
    refine ⟨?_, fun obj same => ?_⟩
    · rw [within.copied, List.drop_left]
      exact inWindow
    · rw [isObj obj same]
      refine ⟨start, ?_, inWindow⟩
      rw [mappedObject, placed.mapEnd]
      exact stop

theorem place_ignores_needs (slot : LinkObj) (needs : Finset Nat) :
    LinkObj.place { slot with needsMask := needs } = slot.place := rfl

theorem LoadSound.mapLibrary {env : LoadEnv} {path : CString} {image : ElfImage} {info : ElfInfo}
    {global : Bool} {requester : Option Nat} (sound : LoadSound tracked state)
    (fits : FitsWindow image) (header : cosElfInspect image = some info) :
    LoadSound tracked (Link.mapLibrary env path image info global requester state).2 := by
  have area := sound.area
  have reserved := sound.allocBase info.span
  obtain ⟨objs, mask⟩ := allocBase_keeps state.ns info.span
  obtain ⟨result, ran⟩ :
    ∃ result, Link.mapLibrary env path image info global requester state = result :=
    ⟨_, rfl⟩
  rw [ran]
  obtain ⟨slot, after⟩ := result
  -- where the base is used, it is the cursor, and the copies go to free pages
  have placed : ∀ mapped, (Link.allocBase state.ns info.span).1 ≠ 0 →
      cosElfMap env.memory (cosElfPieBase env.random) image (Link.allocBase state.ns info.span).1
        state.ticked.pages = (mapped, after.pages) →
      (Link.allocBase state.ns info.span).1 = state.ns.nextBase ∧ 0 < libAlignUp info.span ∧
        state.ns.nextBase + libAlignUp info.span ≤ libLimit ∧
        (Link.allocBase state.ns info.span).2 =
          { state.ns with nextBase := state.ns.nextBase + libAlignUp info.span } ∧
        state.ns.owns (after.pages.copied.drop state.pages.copied.length) = false ∧
        ∀ obj, mapped = some obj → state.ns.nextBase ≤ obj.mapStart ∧
          obj.mapEnd ≤ state.ns.nextBase + libAlignUp info.span ∧
          ∀ seg ∈ obj.segs, state.ns.nextBase ≤ seg.start ∧
            seg.stop ≤ state.ns.nextBase + libAlignUp info.span := by
    intro mapped nonzero isMapped
    rcases area.allocBase info.span with ⟨isZero, _⟩ | ⟨isBase, positive, top, isNs⟩
    · exact absurd isZero nonzero
    · rw [isBase] at nonzero isMapped
      obtain ⟨copies, isObj⟩ := fits.placed header area nonzero top isMapped
      refine ⟨isBase, positive, top, isNs, area.owns_free fun seg member => ?_, isObj⟩
      exact ⟨(copies seg member).1, (copies seg member).2.trans top⟩
  cases slot with
  | none =>
      rcases mapLibrary_none ran with rfl | rfl | rfl | ⟨isMapped, nonzero, isNs, isTrespassed⟩
      · exact sound
      · exact reserved
      · exact reserved.same (.refl _) rfl rfl rfl
      · obtain ⟨_, _, _, _, untouched, _⟩ := placed none nonzero isMapped
        refine reserved.same ?_ ?_ ?_ ?_
        · rw [isNs]
          exact .refl _
        · rw [isNs]
        · rw [isNs]
        · rw [isTrespassed, owns_congr objs, untouched, Bool.or_false]
  | some i =>
      obtain ⟨obj, free, nonzero, isMapped, isNs, isTrespassed⟩ := mapLibrary_some ran
      obtain ⟨isBase, positive, top, isRoom, untouched, isObj⟩ := placed (some obj) nonzero isMapped
      obtain ⟨start, stop, segs⟩ := isObj obj rfl
      have vacant := allocSlot_vacant free
      obtain ⟨sizeAligned, _⟩ := libAlignUp_bounds info.span
      have topAligned : (state.ns.nextBase + libAlignUp info.span) % libAlign = 0 := by
        rw [Nat.add_mod, area.aligned, sizeAligned]
        rfl
      rw [isBase, isRoom] at isNs
      obtain ⟨added, isAdded⟩ : ∃ added, newSlot { state.ns with
          nextBase := state.ns.nextBase + libAlignUp info.span } path image info global
          state.ns.nextBase obj = added := ⟨_, rfl⟩
      rw [isAdded] at isNs
      have vlo : added.vlo = state.ns.nextBase := by rw [← isAdded]; rfl
      have vhi : added.vhi = state.ns.nextBase + libAlignUp info.span := by
        rw [← isAdded]
        show (state.ns.nextBase + libAlignUp info.span) % 2 ^ 64 = _
        unfold libLimit at top
        omega
      have isObject : added.obj = obj := by rw [← isAdded]; rfl
      have library : added.isMain = false := by rw [← isAdded]; rfl
      have window : InWindow (state.ns.nextBase + libAlignUp info.span) added := by
        constructor
        case bottom => rw [vlo]; exact area.bottom
        case aligned => rw [vlo]; exact area.aligned
        case nonempty => omega
        case top => rw [vhi]
        case start => rw [vlo, isObject]; exact start
        case stop => rw [vhi, isObject]; exact stop
        case segs => rw [vlo, vhi, isObject]; exact segs
      have joined := area.join vacant library window vlo.symm vhi top topAligned
      have recorded := @recordNeed_view _ LinkObj.place
        (LinkNs.setSlot { state.ns with nextBase := state.ns.nextBase + libAlignUp info.span } i (some added))
        place_ignores_needs requester i
      obtain ⟨cursor, _⟩ := recordNeed_keeps
        (LinkNs.setSlot { state.ns with nextBase := state.ns.nextBase + libAlignUp info.span } i (some added))
        requester i
      constructor
      case area =>
        rw [isNs]
        exact joined.same recorded cursor
      case clean => rw [isTrespassed, sound.clean, owns_congr objs, untouched]; rfl
      case fresh =>
        intro isTracked j member found there
        rw [isNs] at member there
        obtain ⟨original, here, place⟩ := recorded.slot there
        rw [(Prod.mk.inj place).1]
        rw [LinkNs.setSlot_objs] at here
        split at here
        · rw [← Option.some.inj here]
          exact library
        · rename_i elsewhere
          rcases Finset.mem_insert.mp member with isHere | old
          · exact absurd isHere elsewhere
          · exact sound.fresh isTracked j old original here

theorem reuse_place (global : Bool) (requester : Option Nat) (i : Nat) :
    SameView LinkObj.place ns (ns.reuse global requester i) := by
  have recorded := @recordNeed_view _ LinkObj.place ns place_ignores_needs requester i
  rw [LinkNs.reuse]
  split
  · refine recorded.trans (updateSlot_view ?_ i)
    exact fun _ => rfl
  · exact recorded

theorem reuse_keeps (global : Bool) (requester : Option Nat) (i : Nat) :
    (ns.reuse global requester i).nextBase = ns.nextBase ∧
      (ns.reuse global requester i).newMask = ns.newMask := by
  have recorded := recordNeed_keeps ns requester i
  rw [LinkNs.reuse]
  split <;> exact recorded

theorem loadSound_invariant {env : LoadEnv} {roots : CString → Prop} (fit : WantedFit env roots)
    (global : Bool) : LoadInvariant env global (Wanted env roots) (LoadSound tracked) where
  needed := fun _ _ _ _ _ _ isWanted file listed resolved => .needed isWanted file listed resolved
  tick := fun _ sound => sound.same (.refl _) rfl rfl rfl
  reuse := fun _ requester i _ sound =>
    sound.same (reuse_place global requester i) (reuse_keeps global requester i).1
      (reuse_keeps global requester i).2 rfl
  library := fun _ path image _ _ isWanted file header _ sound =>
    sound.mapLibrary (fit path image isWanted file) header

theorem dropSlot_objs (ns : LinkNs) (j k : Nat) : (ns.dropSlot j).objs k =
    if k = j then none else (ns.objs k).map fun slot =>
    { slot with needsMask := slot.needsMask.erase j } :=
  rfl

theorem dropSlot_some {j k : Nat} {slot : LinkObj} (found : (ns.dropSlot j).objs k = some slot) :
    k ≠ j ∧ ∃ original, ns.objs k = some original ∧ slot.place = original.place := by
  rw [dropSlot_objs] at found
  split at found
  · contradiction
  · rename_i different
    obtain ⟨original, here, rfl⟩ := Option.map_eq_some_iff.mp found
    exact ⟨different, original, here, rfl⟩

theorem LibraryArea.drop (area : LibraryArea ns) (j : Nat) {cursor : Nat}
    (bottom : libBase ≤ cursor) (top : cursor ≤ libLimit) (aligned : cursor % libAlign = 0)
    (below : ∀ k slot, k ≠ j → ns.objs k = some slot → slot.isMain = false → slot.vhi ≤ cursor) :
    LibraryArea { ns.dropSlot j with nextBase := cursor } where
  bottom := bottom
  top := top
  aligned := aligned
  main := by
    intro k slot found kind
    obtain ⟨_, original, here, place⟩ := dropSlot_some found
    obtain ⟨isZero, outside⟩ := area.main k original here (by rw [← (Prod.mk.inj place).1]; exact kind)
    exact ⟨isZero, outside.congr place⟩
  library := by
    intro k slot found kind
    obtain ⟨different, original, here, place⟩ := dropSlot_some found
    have isLibrary : original.isMain = false := by rw [← (Prod.mk.inj place).1]; exact kind
    have window := area.library k original here isLibrary
    exact InWindow.congr ⟨window.bottom, window.aligned, window.nonempty,
      below k original different here isLibrary, window.start, window.stop, window.segs⟩ place
  apart := by
    intro k l slot second found there different kind secondKind
    obtain ⟨_, original, here, place⟩ := dropSlot_some found
    obtain ⟨_, secondOriginal, secondHere, secondPlace⟩ := dropSlot_some there
    have apart := area.apart k l original secondOriginal here secondHere different
      (by rw [← (Prod.mk.inj place).1]; exact kind) (by rw [← (Prod.mk.inj secondPlace).1]; exact secondKind)
    simp only [LinkObj.place, Prod.mk.injEq] at place secondPlace
    rw [place.2.1, place.2.2.1, secondPlace.2.1, secondPlace.2.2.1]
    exact apart

theorem unloadSlot_area (area : LibraryArea state.ns) {j : Nat}
    (library : ∀ slot, state.ns.objs j = some slot → slot.isMain = false) :
    LibraryArea (unloadSlot state j).ns := by
  rw [unloadSlot]
  cases found : state.ns.objs j with
  | none => exact area
  | some slot =>
      have window := area.library j slot found (library slot found)
      dsimp only
      split
      · rename_i isTop
        refine area.drop j window.bottom
          (window.nonempty.le.trans (window.top.trans area.top)) window.aligned ?_
        intro k other different there kind
        have otherWindow := area.library k other there kind
        rcases area.apart k j other slot there found different kind (library slot found) with before | after
        · exact before
        · have above := otherWindow.top.trans_eq isTop.2.symm
          exact absurd (otherWindow.nonempty.trans_le (above.trans after)) (Nat.lt_irrefl _)
      · exact area.drop j area.bottom area.top area.aligned fun k other _ there kind =>
          (area.library k other there kind).top

theorem unloadSlot_objs (state : LinkState) (j k : Nat) : (unloadSlot state j).ns.objs k =
    if k = j then none else
      if (state.ns.objs j).isNone then state.ns.objs k
      else (state.ns.objs k).map fun slot => { slot with needsMask := slot.needsMask.erase j } := by
  rw [unloadSlot]
  cases found : state.ns.objs j with
  | none =>
      dsimp only
      split
      · rename_i here
        rw [here, found]
      · rfl
  | some slot => rfl

theorem unloadSlot_kind {j k : Nat} {slot : LinkObj}
    (found : (unloadSlot state j).ns.objs k = some slot) :
    ∃ original, state.ns.objs k = some original ∧ slot.isMain = original.isMain := by
  rw [unloadSlot_objs] at found
  split at found
  · contradiction
  · split at found
    · exact ⟨slot, found, rfl⟩
    · obtain ⟨original, here, rfl⟩ := Option.map_eq_some_iff.mp found
      exact ⟨original, here, rfl⟩

theorem unloadSlot_trespassed (state : LinkState) (j : Nat) :
    (unloadSlot state j).trespassed = state.trespassed := by
  rw [unloadSlot]
  cases state.ns.objs j <;> rfl

theorem unloadAll_area {order : List Nat} (area : LibraryArea state.ns)
    (clean : state.trespassed = false)
    (libraries : ∀ j ∈ order, ∀ slot, state.ns.objs j = some slot → slot.isMain = false) :
    LibraryArea (order.foldl unloadSlot state).ns ∧
    (order.foldl unloadSlot state).trespassed = false := by
  induction order generalizing state with
  | nil => exact ⟨area, clean⟩
  | cons j rest ih =>
      refine ih (unloadSlot_area area (libraries j (List.mem_cons_self ..)))
        ((unloadSlot_trespassed state j).trans clean) ?_
      intro k member slot found
      obtain ⟨original, here, kind⟩ := unloadSlot_kind found
      rw [kind]
      exact libraries k (List.mem_cons_of_mem j member) original here

theorem unloadRound_libraries {used : List Nat} {gone : Finset Nat}
    (before : ∀ j ∈ gone, ∀ slot, ns.objs j = some slot → slot.isMain = false) :
    ∀ j ∈ unloadRound ns used gone, ∀ slot, ns.objs j = some slot → slot.isMain = false := by
  induction used generalizing gone with
  | nil => exact before
  | cons i rest ih =>
      rw [unloadRound]
      cases found : ns.objs i with
      | none => exact ih before
      | some object =>
          dsimp only
          split
          · exact ih before
          · rename_i leaves
            refine ih fun j member slot here => ?_
            rcases Finset.mem_insert.mp member with rfl | old
            · rw [found] at here
              rw [← Option.some.inj here]
              simpa using (not_or.mp leaves).1
            · exact before j old slot here

theorem unloadSet_libraries {rounds : Nat} {gone : Finset Nat}
    (before : ∀ j ∈ gone, ∀ slot, ns.objs j = some slot → slot.isMain = false) :
    ∀ j ∈ unloadSet ns rounds gone, ∀ slot, ns.objs j = some slot → slot.isMain = false := by
  induction rounds generalizing gone with
  | zero => exact before
  | succ rounds ih =>
      rw [unloadSet]
      split
      · exact before
      · exact ih (unloadRound_libraries before)

structure AreaSound (state : LinkState) : Prop where
  area : LibraryArea state.ns
  clean : state.trespassed = false

theorem AreaSound.same {after : LinkState} (sound : AreaSound state)
    (same : SameView LinkObj.place state.ns after.ns)
    (cursor : after.ns.nextBase = state.ns.nextBase) (clean : after.trespassed = state.trespassed) :
    AreaSound after :=
  ⟨sound.area.same same cursor, clean.trans sound.clean⟩

theorem AreaSound.sameSlots {after : LinkState} (sound : AreaSound state)
    (same : SameSlots state after) : AreaSound after :=
  sound.same (.of_objs same.objs) same.nextBase same.trespassed

structure SamePlaces (before after : LinkState) : Prop where
  view : SameView LinkObj.place before.ns after.ns
  nextBase : after.ns.nextBase = before.ns.nextBase
  trespassed : after.trespassed = before.trespassed

theorem SamePlaces.trans {middle after : LinkState} (first : SamePlaces state middle)
    (second : SamePlaces middle after) : SamePlaces state after :=
  ⟨first.view.trans second.view, second.nextBase.trans first.nextBase,
    second.trespassed.trans first.trespassed⟩

theorem SameSlots.places {after : LinkState} (same : SameSlots state after) :
    SamePlaces state after :=
  ⟨.of_objs same.objs, same.nextBase, same.trespassed⟩

theorem relocate_places (deepbind : Option Nat) (order : List Nat) (state : LinkState) :
    SamePlaces state (state.relocate (relocateSlots deepbind order)).2 := by
  obtain ⟨isNs, _, clean⟩ := relocate_ns (relocateSlots deepbind order) state
  have kept := @relocateSlots_keeps (fun ns => SameView LinkObj.place state.ns ns ∧
      ns.nextBase = state.ns.nextBase) deepbind
    (fun req ns before => ⟨before.1.trans (scopeResolve_view place_ignores_needs deepbind req ns),
      (scopeResolve_nextBase deepbind req ns).trans before.2⟩)
    order ⟨state.pages.userMem, state.ns, [], 0, []⟩ ⟨.refl _, rfl⟩
  rw [← isNs] at kept
  exact ⟨kept.1, kept.2, clean⟩

theorem AreaSound.startProgram (sound : AreaSound state) (env : LoadEnv) :
    AreaSound (Link.startProgram env state).2 := by
  rw [Link.startProgram]
  cases layout : tlsLayout (List.range state.ns.count) 0 8 0 state.ns with
  | none => exact sound
  | some pair =>
      obtain ⟨ns, sizes⟩ := pair
      dsimp only
      have laidOut : AreaSound { state with ns := ns } :=
        sound.same (tlsLayout_view (fun _ _ _ => rfl) layout) (tlsLayout_cursors layout).1 rfl
      have places := relocate_places none (List.range ns.count).reverse { state with ns := ns }
      have relocated := laidOut.same places.view places.nextBase places.trespassed
      obtain ⟨result, isResult⟩ : ∃ result,
        ({ state with ns := ns } : LinkState).relocate relocateAll = result := ⟨_, rfl⟩
      have isRelocated : AreaSound result.2 := by
        rw [← isResult]
        exact relocated
      rw [isResult]
      obtain ⟨bindings, middle⟩ := result
      cases bindings with
      | none => exact isRelocated
      | some bindings =>
          dsimp only
          have tls := isRelocated.sameSlots (setupTls_slots env middle)
          split
          · rename_i failed
            rw [failed] at tls
            exact tls
          · rename_i withTls isTls
            rw [isTls] at tls
            have linkmap := tls.sameSlots (publishLinkmap_slots env withTls)
            split
            · rename_i failed
              rw [failed] at linkmap
              exact linkmap
            · rename_i withMap isMap
              rw [isMap] at linkmap
              have ticked : AreaSound withMap.ticked := linkmap.same (.refl _) rfl rfl
              rw [LinkState.allocate_eq]
              cases env.memory withMap.pages.tick <;> exact ticked

theorem releasePid_sound (clean : state.trespassed = false) : AreaSound (releasePid state) :=
  ⟨libraryArea_fresh, clean⟩

theorem LibraryArea.main_joins (area : LibraryArea ns) {program : Program} {obj : ElfObject}
    (outside : OutsideArea (mainSlot ns program obj)) :
    LibraryArea (registerMain program obj ns) := by
  have cases_ : ∀ j found, (registerMain program obj ns).objs j = some found →
      (j = 0 ∧ found = mainSlot ns program obj) ∨ (j ≠ 0 ∧ ns.objs j = some found) := by
    intro j found there
    have isThere : (ns.setSlot 0 (some (mainSlot ns program obj))).objs j = some found := there
    rw [LinkNs.setSlot_objs] at isThere
    split at isThere
    · rename_i here
      exact .inl ⟨here, (Option.some.inj isThere).symm⟩
    · rename_i elsewhere
      exact .inr ⟨elsewhere, isThere⟩
  constructor
  case bottom => exact area.bottom
  case top => exact area.top
  case aligned => exact area.aligned
  case main =>
    intro j found there kind
    rcases cases_ j found there with ⟨isZero, rfl⟩ | ⟨_, old⟩
    · exact ⟨isZero, outside⟩
    · exact area.main j found old kind
  case library =>
    intro j found there kind
    rcases cases_ j found there with ⟨_, rfl⟩ | ⟨_, old⟩
    · exact absurd kind (by simp [mainSlot])
    · exact area.library j found old kind
  case apart =>
    intro j k found second there secondThere different kind secondKind
    rcases cases_ j found there with ⟨_, rfl⟩ | ⟨_, old⟩
    · exact absurd kind (by simp [mainSlot])
    · rcases cases_ k second secondThere with ⟨_, rfl⟩ | ⟨_, secondOld⟩
      · exact absurd secondKind (by simp [mainSlot])
      · exact area.apart j k found second old secondOld different kind secondKind

theorem effectiveBias_program (env : LoadEnv) (program : Program) :
    effectiveBias (cosElfPieBase env.random) program.image (programBias env program) =
      programBias env program := by
  unfold effectiveBias programBias
  cases program.image.eType with
  | exec => simp
  | dyn => simp

theorem OutsideLibraries.outside {env : LoadEnv} {program : Program} {before after : UserPages}
    {obj : ElfObject} (apart : OutsideLibraries env program)
    (mapped : cosElfMap env.memory (cosElfPieBase env.random) program.image (programBias env program) before =
      (some obj, after)) (ns : LinkNs) : OutsideArea (mainSlot ns program obj) := by
  rcases cosElfMap_within mapped with ⟨failed, _⟩ |
    ⟨minV, maxV, copies, bounds, _, placed, within, isObj⟩
  · contradiction
  · rw [effectiveBias_program] at placed within isObj
    have object := isObj obj rfl
    have range := apart minV maxV bounds
    have user := placed.user
    have stop := placed.mapEnd
    obtain ⟨start, isStart⟩ : ∃ start, (programBias env program + pageDown minV) % 2 ^ 64 = start := ⟨_, rfl⟩
    rw [isStart] at range within user stop
    rw [stop] at range
    refine ⟨?_, fun seg member => ?_⟩
    · rw [show (mainSlot ns program obj).obj = obj from rfl, object, mappedObject, isStart, stop]
      exact range
    · rw [show (mainSlot ns program obj).obj = obj from rfl, object] at member
      obtain ⟨low, high⟩ := within.within seg member
      rcases range with below | above
      · left
        refine high.trans ?_
        unfold pageUp libBase at *
        rw [if_neg (by omega)]
        omega
      · exact .inr (above.trans low)

theorem AreaSound.mapProgram {env : LoadEnv} {program : Program} (sound : AreaSound state)
    (apart : OutsideLibraries env program) : AreaSound (Link.mapProgram env program state).2 := by
  obtain ⟨result, ran⟩ : ∃ result, Link.mapProgram env program state = result := ⟨_, rfl⟩
  rw [ran]
  obtain ⟨ok, after⟩ := result
  rcases mapProgram_cases ran with ⟨_, rfl | rfl⟩ | ⟨mapped, isMapped, _, clean, isNs⟩
  · exact sound
  · exact sound.same (.refl _) rfl rfl
  · cases mapped with
    | none => exact sound.same (by rw [isNs]; exact .refl _) (by rw [isNs]; rfl) clean
    | some obj =>
        refine ⟨?_, clean.trans sound.clean⟩
        rw [isNs]
        exact sound.area.main_joins (apart.outside isMapped state.ns)

theorem AreaSound.load {env : LoadEnv} {program : Program} (sound : AreaSound state)
    (apart : OutsideLibraries env program) (fit : WantedFit env (programRoots env program)) :
    AreaSound (cosLinkLoadExecutable env program state).2 := by
  have mapped := sound.mapProgram apart
  rw [cosLinkLoadExecutable]
  obtain ⟨result, ran⟩ : ∃ result, Link.mapProgram env program state = result := ⟨_, rfl⟩
  rw [ran] at mapped ⊢
  obtain ⟨ok, middle⟩ := result
  cases ok with
  | false => exact mapped
  | true =>
      dsimp only
      have invariant := @loadSound_invariant false env _ fit true
      have start : LoadSound false middle := ⟨mapped.area, mapped.clean, fun isTracked => by contradiction⟩
      have preloaded := invariant.loadPreloads (fun one member => .root (Or.inl member)) start
      have needed := @loadNeeded_invariant env _ _ _
        (fun _ _ isWanted held => invariant.loadObject (maxDepth - 1) (some 0) isWanted held) 0
        program.image.needed (fun name member userPath requester dep resolved =>
          .root (Or.inr ⟨name, member, userPath, requester, resolved⟩)) _ preloaded
      split
      · rename_i failed
        rw [failed] at needed
        exact releasePid_sound needed.clean
      · rename_i loaded isLoaded
        rw [isLoaded] at needed
        have started := AreaSound.startProgram ⟨needed.area, needed.clean⟩ env
        split
        · rename_i failed
          rw [failed] at started
          exact releasePid_sound started.clean
        · rename_i final
          rw [final] at started
          exact started

theorem markGlobal_places (value : Bool) (order : List Nat) (state : LinkState) :
    SamePlaces state { state with ns := state.ns.markGlobal value order } :=
  ⟨markGlobal_view (fun _ _ => rfl) value order, rfl, rfl⟩

theorem addHandle_places (flags : DlFlags) (i : Nat) (state : LinkState) :
    SamePlaces state { state with ns := state.ns.addHandle flags i } := by
  refine ⟨updateSlot_view ?_ i, rfl, rfl⟩
  exact fun _ => rfl

theorem finishOpen_places (env : LoadEnv) (flags : DlFlags) (i : Nat) (order : List Nat)
    (state : LinkState) : SamePlaces state (finishOpen env flags i order state).2 := by
  rw [finishOpen]
  split
  · exact ⟨.refl _, rfl, rfl⟩
  · have relocated := (markGlobal_places true order state).trans
      (relocate_places (if flags.deepbind = true then some i else none) order _)
    split
    · rename_i failed
      rw [failed] at relocated
      exact relocated
    · rename_i now bound
      rw [bound] at relocated
      refine relocated.trans (SamePlaces.trans ?_ (publishLinkmap_slots env _).places)
      refine SamePlaces.trans ?_ (addHandle_places flags i { now with
        ns := if flags.global = true then now.ns else now.ns.markGlobal false order })
      split
      · exact ⟨.refl _, rfl, rfl⟩
      · exact markGlobal_places false order _

theorem mem_slotsBySerial {mask : Finset Nat} {j : Nat} (member : j ∈ slotsBySerial ns mask) :
    j ∈ mask := by
  have filtered := (List.mem_insertionSort _).mp member
  simpa using (List.mem_filter.mp filtered).2

theorem rollBack_sound {env : LoadEnv} {order : List Nat} (sound : AreaSound state)
    (libraries : ∀ j ∈ order, ∀ slot, state.ns.objs j = some slot → slot.isMain = false) :
    AreaSound (rollBack env order state) := by
  obtain ⟨area, clean⟩ := unloadAll_area sound.area sound.clean libraries
  exact AreaSound.sameSlots ⟨area, clean⟩ (publishLinkmap_slots env _)

theorem AreaSound.openPath {env : LoadEnv} {flags : DlFlags} {path : CString}
    {roots : CString → Prop} (sound : AreaSound state) (fit : WantedFit env roots)
    (asked : roots path) : AreaSound (Link.openPath env flags path state).2 := by
  have start : LoadSound true { state with ns := { state.ns with newMask := ∅ } } :=
    ⟨sound.area.same (.refl _) rfl, sound.clean, fun _ i member => by simp at member⟩
  have loaded := (@loadSound_invariant true env roots fit flags.global).loadObject (maxDepth - 1)
    none (.root asked) start
  obtain ⟨result, ran⟩ : ∃ result, loadObject env flags.global (maxDepth - 1) none path
    { state with ns := { state.ns with newMask := ∅ } } = result := ⟨_, rfl⟩
  rw [ran] at loaded
  rw [Link.openPath, ran]
  obtain ⟨found, middle⟩ := result
  have reset : AreaSound { middle with ns := { middle.ns with newMask := ∅ } } :=
    ⟨loaded.area.same (.refl _) rfl, loaded.clean⟩
  have libraries : ∀ j ∈ slotsBySerial middle.ns middle.ns.newMask, ∀ slot, middle.ns.objs j =
      some slot → slot.isMain = false :=
    fun j member slot here => loaded.fresh rfl j (mem_slotsBySerial member) slot here
  cases found with
  | none => exact rollBack_sound reset libraries
  | some i =>
      dsimp only
      have places := finishOpen_places env flags i (slotsBySerial middle.ns middle.ns.newMask)
        { middle with ns := { middle.ns with newMask := ∅ } }
      have finished := reset.same places.view places.nextBase places.trespassed
      split
      · rename_i failed
        rw [failed] at finished places
        refine rollBack_sound finished fun j member slot here => ?_
        obtain ⟨original, there, place⟩ := places.view.slot here
        rw [(Prod.mk.inj place).1]
        exact libraries j member original there
      · rename_i opened
        rw [opened] at finished
        exact finished

theorem AreaSound.dlopen {env : LoadEnv} {flags : DlFlags} {name : CString}
    (sound : AreaSound state)
    (fit : flags.noload = false →
    WantedFit env fun path =>
    resolveFrom env state.ns (some 0) name = some path) : AreaSound (cosLinkDlopen env flags name state).2 := by
  rw [cosLinkDlopen]
  cases resolved : resolveFrom env state.ns (some 0) name with
  | none => exact sound
  | some path =>
      dsimp only
      split
      · cases findLoaded state.ns path (baseName path) with
        | none => exact sound
        | some i =>
            have places := addHandle_places flags i state
            exact sound.same places.view places.nextBase places.trespassed
      · rename_i loads
        exact sound.openPath (fit (by simpa using loads)) resolved

theorem AreaSound.dlclose {env : LoadEnv} {handle : Nat} (sound : AreaSound state) :
    AreaSound (cosLinkDlclose env handle state).2 := by
  rw [cosLinkDlclose]
  cases handleSlot state.ns handle with
  | none => exact sound
  | some i =>
      dsimp only
      split
      · exact sound
      · obtain ⟨closed, isClosed⟩ : ∃ closed, state.ns.updateSlot i (fun slot =>
          { slot with refcount := slot.refcount - 1 }) = closed := ⟨_, rfl⟩
        have view : SameView LinkObj.place state.ns closed := by
          rw [← isClosed]
          refine updateSlot_view ?_ i
          exact fun _ => rfl
        have kept : AreaSound { state with ns := closed } := sound.same view (by rw [← isClosed]; rfl) rfl
        rw [isClosed]
        split
        · exact kept
        · have libraries := @unloadSet_libraries closed maxObjects ∅ (fun j member => by simp at member)
          obtain ⟨area, clean⟩ := @unloadAll_area { state with ns := closed }
            (slots.filter (· ∈ unloadSet closed maxObjects ∅)) kept.area kept.clean
            (fun j member => libraries j (by simpa using (List.mem_filter.mp member).2))
          exact AreaSound.sameSlots ⟨area, clean⟩ (publishLinkmap_slots env _)

/-- In every run whose calls load only files that fit their windows, and programs outside the
library area, the objects in use lie apart. -/
theorem objectsApart_reachable {pages : UserPages}
    (reached : Reaches linkStep fitsCall ⟨.fresh, pages, false⟩ state) : ObjectsApart state := by
  have sound : AreaSound state := by
    refine reached.invariant ⟨libraryArea_fresh, rfl⟩ fun before call sound permitted => ?_
    cases call with
    | load env program => exact sound.load permitted.1 permitted.2
    | dlopen env flags name => exact sound.dlopen permitted
    | dlclose env handle => exact sound.dlclose
  exact sound.area.objectsApart sound.clean

theorem plainImage_bounds (entry : Nat) (needed : List CString) :
    validateLoads (plainImage 0 entry needed) = some (0, 0x1000) := by
  have bare : validateLoads (plainImage 0 0 []) = some (0, 0x1000) := by decide
  exact bare

theorem plainImage_fits (entry : Nat) (needed : List CString) :
    FitsWindow (plainImage 0 entry needed) := by
  intro info header _
  obtain ⟨isMin, isSpan⟩ := cosElfInspect_some header (plainImage_bounds entry needed)
  rw [isMin, isSpan]
  decide

theorem threeLibraries_fit (roots : CString → Prop) :
    WantedFit (plainEnv threeLibraries) roots := by
  intro path image _ file
  simp only [plainEnv, threeLibraries, diskOf] at file
  split at file
  · rw [← Option.some.inj file]
    exact plainImage_fits 0 _
  · split at file
    · rw [← Option.some.inj file]
      exact plainImage_fits 0 _
    · contradiction

theorem plainProgram_outside (needed : List CString) :
    OutsideLibraries (plainEnv threeLibraries) (plainProgram needed) := by
  intro minV maxV bounds
  obtain ⟨rfl, rfl⟩ :=
    Prod.mk.inj (Option.some.inj ((plainImage_bounds 0x40 needed).symm.trans bounds))
  have bias : programBias (plainEnv threeLibraries) (plainProgram needed) = cosElfPieBase 0 := rfl
  rw [bias]
  exact .inl (by decide)

def localNow : DlFlags := ⟨false, false, false, false⟩

/-- A program with `/a` and `/c`, which then opens and closes `/b`. -/
theorem objectsApart_program : ObjectsApart (runSteps linkStep ⟨.fresh, noPages, false⟩
    [.load (plainEnv threeLibraries) (plainProgram [[47, 97]]),
      .dlopen (plainEnv threeLibraries) localNow [47, 98], .dlclose (plainEnv threeLibraries) 1028]) := by
  refine @objectsApart_reachable _ noPages
    (Reaches.refl.runSteps ⟨⟨?_, ?_⟩, fun _ => ?_, trivial, trivial⟩)
  · exact plainProgram_outside _
  · exact threeLibraries_fit _
  · exact threeLibraries_fit _

/-- Libraries `/h`, whose addresses start at 2 MiB, and `/l`, whose addresses start at zero. -/
def highAndLow : FileSystem :=
  diskOf fun path =>
    if path = [47, 104] then some (plainImage 0x200000 0 [])
    else if path = [47, 108] then some (plainImage 0 0 [])
    else none

/-- `/h` is mapped after its window, and `/l` is then copied over it. -/
theorem objectsApart_fails : ¬ ObjectsApart (runSteps linkStep ⟨.fresh, noPages, false⟩
    [.dlopen (plainEnv highAndLow) localNow [47, 104],
    .dlopen (plainEnv highAndLow) localNow [47, 108]]) := by
  intro apart
  have trespassed : (runSteps linkStep ⟨.fresh, noPages, false⟩
      [.dlopen (plainEnv highAndLow) localNow [47, 104],
        .dlopen (plainEnv highAndLow) localNow [47, 108]]).trespassed = true := by
    decide
  rw [apart.noTrespass] at trespassed
  contradiction

end Cos.Link
