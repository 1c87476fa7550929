import Cos.Link.Namespace
import Cos.Link.Paths

/-! # Loading

`load_object` maps an object, registers it in the first free slot and then does the same for
its dependencies; `cos_link_load_executable` loads a program with its preloads and
dependencies and relocates everything.
-/

namespace Cos.Link

open Cos.Elf

/-- `COS_LINK_LIB_BASE`, `COS_LINK_LIB_LIMIT`, `COS_LINK_LIB_ALIGN`. -/
def libBase : Nat := 0x20000000000
def libLimit : Nat := 0x27000000000
def libAlign : Nat := 0x200000

/-- `COS_LINK_TLS_BASE`, `COS_LINK_MAP_BASE`, and the pages of a `cos_elf_linkmap_t` (10024
bytes). -/
def tlsBase : Nat := 0x27800000000
def mapBase : Nat := 0x27C00000000
def linkmapSize : Nat := 3

def maxDepth : Nat := 8

/-- What a call meets: the disk, the system search path, whether the allocation with the
given number succeeds, and the random number behind the base of a PIE. -/
structure LoadEnv where
  files : FileSystem
  searchPath : CString
  memory : Nat → Bool
  random : Nat

/-- A process's namespace and pages.  `trespassed` says, for the record only, whether
`load_object` ever copied a segment into a page of an object in use. -/
structure LinkState where
  ns : LinkNs
  pages : UserPages
  trespassed : Bool

/-- The namespace `ns_get_or_create` makes. -/
def LinkNs.fresh : LinkNs where
  objs := fun _ => none
  count := 0
  nextBase := libBase
  nextSerial := 0
  newMask := ∅
  userPath := []
  tlsTp := 0
  tlsPages := 0
  linkmapPages := 0

def findLoaded (ns : LinkNs) (path soname : CString) : Option Nat :=
  slots.find? fun i => (ns.objs i).any fun slot =>
    slot.path = path ∨ (soname ≠ [] ∧ slot.soname = soname)

def allocSlot (ns : LinkNs) : Option Nat := slots.find? fun i => (ns.objs i).isNone

def libAlignUp (v : Nat) : Nat := libAlign * ((libAlign - 1 + v) % 2 ^ 64 / libAlign)

/-- `alloc_base`; 0 when there is no room. -/
def allocBase (ns : LinkNs) (span : Nat) : Nat × LinkNs :=
  let base := libAlignUp ns.nextBase
  let stop := (base + libAlignUp span) % 2 ^ 64
  if stop ≤ base ∨ stop > libLimit then (0, ns) else (base, { ns with nextBase := stop })

def LinkState.allocate (env : LoadEnv) (state : LinkState) : Bool × LinkState :=
  let granted := state.pages.allocate env.memory
  (granted.1, { state with pages := granted.2 })

def LinkState.ticked (state : LinkState) : LinkState :=
  { state with pages := { state.pages with tick := state.pages.tick + 1 } }

@[simp] theorem LinkState.ticked_ns (state : LinkState) : state.ticked.ns = state.ns := rfl

theorem LinkState.allocate_eq (env : LoadEnv) (state : LinkState) :
    state.allocate env = (env.memory state.pages.tick, state.ticked) := rfl

def LinkNs.setSlot (ns : LinkNs) (i : Nat) (slot : Option LinkObj) : LinkNs :=
  { ns with objs := Function.update ns.objs i slot }

theorem LinkNs.setSlot_objs (ns : LinkNs) (i : Nat) (slot : Option LinkObj) (j : Nat) :
    (ns.setSlot i slot).objs j = if j = i then slot else ns.objs j := Function.update_apply ..

def LinkNs.updateSlot (ns : LinkNs) (i : Nat) (change : LinkObj → LinkObj) : LinkNs :=
  ns.setSlot i ((ns.objs i).map change)

/-- Records that `requester`, if there is one, needs `slot`. -/
def LinkNs.recordNeed (ns : LinkNs) (requester : Option Nat) (slot : Nat) : LinkNs :=
  match requester with
  | none => ns
  | some i => if i = slot then ns else ns.addNeed i slot

def LinkNs.owns (ns : LinkNs) (ranges : List Seg) : Bool :=
  slots.any fun i => (ns.objs i).any fun slot => slot.obj.segs.any fun seg =>
    ranges.any (Seg.meets seg)

def newSlot (ns : LinkNs) (path : CString) (image : ElfImage) (info : ElfInfo) (global : Bool)
    (base : Nat) (obj : ElfObject) : LinkObj where
  obj := obj
  path := path
  soname := image.soname
  isMain := false
  global := global
  nodelete := obj.nodelete
  refcount := 0
  serial := ns.nextSerial + 1
  needsMask := ∅
  vlo := base
  vhi := (base + libAlignUp info.span) % 2 ^ 64

/-- The part of `load_object` that registers a mapped library in a free slot. -/
def LinkNs.register (ns : LinkNs) (i : Nat) (requester : Option Nat) (slot : LinkObj) : LinkNs :=
  { (ns.setSlot i (some slot)).recordNeed requester i with
    nextSerial := ns.nextSerial + 1
    newMask := insert i ns.newMask
    count := max ns.count (i + 1) }

/-- The end of mapping a library: `mapped` is what `cos_elf_map` made of it. -/
def finishLibrary (path : CString) (image : ElfImage) (info : ElfInfo) (global : Bool)
    (requester : Option Nat) (i base : Nat) (state : LinkState) (mapped : Option ElfObject)
    (pages : UserPages) : Option Nat × LinkState :=
  let copies := pages.copied.drop state.pages.copied.length
  let trespassed := state.trespassed || state.ns.owns copies
  match mapped with
  | none => (none, ⟨state.ns, pages, trespassed⟩)
  | some obj =>
      let slot := newSlot state.ns path image info global base obj
      (some i, ⟨state.ns.register i requester slot, pages, trespassed⟩)

def placeLibrary (env : LoadEnv) (path : CString) (image : ElfImage) (info : ElfInfo)
    (global : Bool) (requester : Option Nat) (i base : Nat) (state : LinkState) :
    Option Nat × LinkState :=
  if base = 0 then (none, state)
  else
    match state.allocate env with
    | (false, state) => (none, state)
    | (true, state) =>
        let mapped := cosElfMap env.memory (cosElfPieBase env.random) image base state.pages
        finishLibrary path image info global requester i base state mapped.1 mapped.2

/-- The part of `load_object` that maps and registers a library that is not loaded yet. -/
def mapLibrary (env : LoadEnv) (path : CString) (image : ElfImage) (info : ElfInfo) (global : Bool)
    (requester : Option Nat) (state : LinkState) : Option Nat × LinkState :=
  match allocSlot state.ns with
  | none => (none, state)
  | some i =>
      let room := allocBase state.ns info.span
      placeLibrary env path image info global requester i room.1 { state with ns := room.2 }

/-- What `resolve_needed` reads of the object that asks. -/
def LinkObj.requester (slot : LinkObj) : Requester :=
  ⟨slot.path, slot.obj.dyn.runpath, slot.obj.dyn.rpath⟩

def resolveFrom (env : LoadEnv) (ns : LinkNs) (asker : Option Nat) (name : CString) :
    Option CString :=
  resolveNeeded env.files env.searchPath ns.userPath
    (asker.bind fun i => (ns.objs i).map LinkObj.requester) name

/-- The loop over the dependencies of the object in slot `i`. -/
def loadNeeded (env : LoadEnv) (load : CString → LinkState → Option Nat × LinkState) (i : Nat) :
    List CString → LinkState → Bool × LinkState
  | [], state => (true, state)
  | name :: rest, state =>
      match resolveFrom env state.ns (some i) name with
      | none => (false, state)
      | some path =>
          match load path state with
          | (none, state) => (false, state)
          | (some _, state) => loadNeeded env load i rest state

/-- What `load_object` does when it finds the library loaded. -/
def LinkNs.reuse (ns : LinkNs) (global : Bool) (requester : Option Nat) (existing : Nat) : LinkNs :=
  let ns := ns.recordNeed requester existing
  if global then ns.updateSlot existing ({ · with global := true }) else ns

/-- `load_object` with so many levels of depth left. -/
def loadObject (env : LoadEnv) (global : Bool) : Nat → Option Nat → CString → LinkState →
    Option Nat × LinkState
  | 0, _, _, state => (none, state)
  | levels + 1, requester, path, state =>
      match state.allocate env with
      | (false, state) => (none, state)
      | (true, state) =>
          match env.files.image path with
          | none => (none, state)
          | some image =>
              match cosElfInspect image with
              | none => (none, state)
              | some info =>
                  match findLoaded state.ns path image.soname with
                  | some existing =>
                      (some existing, { state with ns := state.ns.reuse global requester existing })
                  | none =>
                      match mapLibrary env path image info global requester state with
                      | (none, state) => (none, state)
                      | (some i, state) =>
                          match loadNeeded env (loadObject env global levels (some i)) i image.needed
                              state with
                          | (false, state) => (none, state)
                          | (true, state) => (some i, state)

def alignUp (v a : Nat) : Nat :=
  if a ≤ 1 ∨ a &&& (a - 1) ≠ 0 then v else a * ((a - 1 + v) % 2 ^ 64 / a)

/-- The alignment of an object's TLS block; one that is no power of two is not trusted. -/
def tlsAlignOf (obj : ElfObject) : Nat :=
  if obj.tlsAlign = 0 ∨ obj.tlsAlign &&& (obj.tlsAlign - 1) ≠ 0 then 8 else obj.tlsAlign

/-- `cos_elf_tls_layout` over the given slots: the offset, the largest alignment and the
number of modules so far. -/
def tlsLayout : List Nat → Nat → Nat → Nat → LinkNs → Option (LinkNs × Nat × Nat × Nat)
  | [], offset, maxAlign, modid, ns => some (ns, offset, maxAlign, modid)
  | i :: rest, offset, maxAlign, modid, ns =>
      match ns.objs i with
      | none => tlsLayout rest offset maxAlign modid ns
      | some slot =>
          let obj := slot.obj
          if !obj.hasTls ∨ obj.tlsMemsz = 0 then
            tlsLayout rest offset maxAlign modid
              (ns.setSlot i (some { slot with obj := { obj with tlsModid := 0, tlsOffset := 0 } }))
          else
            let offset := alignUp ((offset + obj.tlsMemsz) % 2 ^ 64) (tlsAlignOf obj)
            if tlsAlignOf obj > 2 ^ 16 ∨ offset > maxSegmentBytes then none
            else
              tlsLayout rest offset (max (tlsAlignOf obj) maxAlign) (modid + 1) (ns.setSlot i (some { slot with
                obj := { obj with tlsModid := modid + 1, tlsOffset := BitVec.ofNat 64 offset } }))

/-- `map_zeroed` over whole pages. -/
def mapZeroed (env : LoadEnv) (at_ count : Nat) (state : LinkState) : Bool × LinkState :=
  let mapped := mapRangeRw env.memory (at_ / 4096) count state.pages
  (mapped.1, { state with pages := mapped.2 })

/-- `cos_elf_tls_region_size` and the slack `setup_tls` adds to it, in pages. -/
def tlsRegionPages (offset maxAlign modules : Nat) : Nat :=
  let region := alignUp (64 + (8 * (1 + modules) + alignUp offset maxAlign)) 64
  (4095 + (4096 + (maxAlign + region))) / 4096

/-- `setup_tls`: the layout is computed again, to the offsets the objects have already.  The
contents of the block are not modelled; whether it can be built is up to the environment. -/
def setupTls (env : LoadEnv) (state : LinkState) : Bool × LinkState :=
  let used := List.range state.ns.count
  if used.all fun i => !(state.ns.objs i).any fun slot => slot.obj.hasTls then
    (true, { state with ns := { state.ns with tlsTp := 0 } })
  else
    match tlsLayout used 0 8 0 state.ns with
    | none => (false, state)
    | some (_, offset, maxAlign, modules) =>
        match mapZeroed env tlsBase (tlsRegionPages offset maxAlign modules) state with
        | (false, state) => (false, state)
        | (true, state) =>
            match state.allocate env with
            | (false, state) => (false, state)
            | (true, state) =>
                (true, { state with ns := { state.ns with
                  tlsTp := BitVec.ofNat 64 (alignUp (tlsBase + alignUp offset maxAlign) maxAlign)
                  tlsPages := tlsRegionPages offset maxAlign modules } })

/-- `publish_linkmap`; what the map says is not modelled. -/
def publishLinkmap (env : LoadEnv) (state : LinkState) : Bool × LinkState :=
  match state.allocate env with
  | (false, state) => (false, state)
  | (true, state) =>
      match mapZeroed env mapBase linkmapSize state with
      | (false, state) => (false, state)
      | (true, state) => (true, { state with ns := { state.ns with linkmapPages := linkmapSize } })

/-- `cos_link_unmap_pid` and `cos_link_release_pid`: every object's pages, the TLS block and the
link map are given back, and the namespace is forgotten. -/
def releasePid (state : LinkState) : LinkState :=
  let segs := (slots.filterMap state.ns.objs).flatMap fun slot => slot.obj.segs
  let tls : Seg := ⟨tlsBase, tlsBase + state.ns.tlsPages * 4096⟩
  let linkmap : Seg := ⟨mapBase, mapBase + state.ns.linkmapPages * 4096⟩
  { state with ns := .fresh, pages := state.pages.unmap (segs ++ [tls, linkmap]) }

/-- Runs a relocation pass on the process; the bindings it made, if it succeeds. -/
def LinkState.relocate (pass : RelocState LinkNs → Except (RelocState LinkNs) (RelocState LinkNs))
    (state : LinkState) : Option (List Binding) × LinkState :=
  match pass ⟨state.pages.userMem, state.ns, [], 0, []⟩ with
  | .ok after =>
      (some after.bindings, { state with ns := after.scope, pages := state.pages.withMem after.mem })
  | .error after =>
      (none, { state with ns := after.scope, pages := state.pages.withMem after.mem })

def envValue (envp : List CString) (name : CString) : Option CString :=
  (envp.find? fun entry => (name ++ [61]).isPrefixOf entry).map fun entry =>
    entry.drop (name.length + 1)

/-- The first entries of `COS_PRELOAD`, which is separated by colons. -/
def preloadEntries : Nat → CString → List CString
  | 0, _ => []
  | _ + 1, [] => []
  | count + 1, c :: rest =>
      let one := (c :: rest).takeWhile (· ≠ colon)
      one.take maxPath :: preloadEntries count (((c :: rest).dropWhile (· ≠ colon)).drop 1)

/-- The preload loop: an entry that is not absolute or cannot be loaded is skipped.  The
entries that were loaded are returned. -/
def loadPreloads (env : LoadEnv) : List CString → LinkState → List CString × LinkState
  | [], state => ([], state)
  | one :: rest, state =>
      if one.head? ≠ some slash then loadPreloads env rest state
      else
        match loadObject env true (maxDepth - 1) (some 0) one state with
        | (none, state) => loadPreloads env rest state
        | (some _, state) =>
            let others := loadPreloads env rest state
            (one :: others.1, others.2)

/-- What `cos_link_load_executable` is given: the path, the file and the environment. -/
structure Program where
  path : CString
  image : ElfImage
  envp : List CString

/-- `COS_LIBRARY_PATH` and `COS_PRELOAD`. -/
def libraryPathName : CString := [67, 79, 83, 95, 76, 73, 66, 82, 65, 82, 89, 95, 80, 65, 84, 72]
def preloadName : CString := [67, 79, 83, 95, 80, 82, 69, 76, 79, 65, 68]

def Program.preloads (program : Program) : List CString :=
  preloadEntries 4 ((envValue program.envp preloadName).getD [])

/-- Slot 0 after the program has been mapped: what is not set stays as it was. -/
def mainSlot (ns : LinkNs) (program : Program) (obj : ElfObject) : LinkObj where
  obj := obj
  path := program.path.take maxPath
  soname := (ns.objs 0).elim [] LinkObj.soname
  isMain := true
  global := true
  nodelete := (ns.objs 0).any LinkObj.nodelete
  refcount := 1
  serial := ns.nextSerial + 1
  needsMask := ns.needs 0
  vlo := (ns.objs 0).elim 0 LinkObj.vlo
  vhi := (ns.objs 0).elim 0 LinkObj.vhi

def registerMain (program : Program) (obj : ElfObject) (ns : LinkNs) : LinkNs :=
  { ns.setSlot 0 (some (mainSlot ns program obj)) with
    nextSerial := ns.nextSerial + 1
    count := max ns.count 1
    userPath := ((envValue program.envp libraryPathName).map (·.take maxPath)).getD ns.userPath }

/-- The part of `cos_link_load_executable` that follows loading: TLS, relocation, the link map
and the stack, whose contents are not modelled. -/
def startProgram (env : LoadEnv) (state : LinkState) : Option (List Binding) × LinkState :=
  match tlsLayout (List.range state.ns.count) 0 8 0 state.ns with
  | none => (none, state)
  | some (ns, _) =>
      match ({ state with ns := ns } : LinkState).relocate relocateAll with
      | (none, state) => (none, state)
      | (some bindings, state) =>
          match setupTls env state with
          | (false, state) => (none, state)
          | (true, state) =>
              match publishLinkmap env state with
              | (false, state) => (none, state)
              | (true, state) =>
                  match state.allocate env with
                  | (false, state) => (none, state)
                  | (true, state) => (some bindings, state)

/-- What a successful load leaves behind: the preloads that were not skipped and the symbol
bindings that were made. -/
structure Loaded where
  preloads : List CString
  bindings : List Binding

def programBias (env : LoadEnv) (program : Program) : Nat :=
  if program.image.eType = .exec then 0 else cosElfPieBase env.random

/-- The part of `cos_link_load_executable` that maps the program into slot 0. -/
def mapProgram (env : LoadEnv) (program : Program) (state : LinkState) : Bool × LinkState :=
  match cosElfInspect program.image with
  | none => (false, state)
  | some _ =>
      if (program.image.eType = .dyn ∧ program.image.entry = 0) ∨
          program.image.phdrs.any (fun ph => ph.type == .interp) then (false, state)
      else
        match state.allocate env with
        | (false, state) => (false, state)
        | (true, state) =>
            match cosElfMap env.memory (cosElfPieBase env.random) program.image
                (programBias env program) state.pages with
            | (none, pages) => (false, { state with pages := pages })
            | (some obj, pages) =>
                (true, { state with ns := registerMain program obj state.ns, pages := pages })

def cosLinkLoadExecutable (env : LoadEnv) (program : Program) (state : LinkState) :
    Option Loaded × LinkState :=
  match mapProgram env program state with
  | (false, state) => (none, state)
  | (true, state) =>
      let preloaded := loadPreloads env program.preloads state
      match loadNeeded env (loadObject env true (maxDepth - 1) (some 0)) 0 program.image.needed
          preloaded.2 with
      | (false, state) => (none, releasePid state)
      | (true, state) =>
          match startProgram env state with
          | (none, state) => (none, releasePid state)
          | (some bindings, state) => (some ⟨preloaded.1, bindings⟩, state)

/-- A file of one page at the given address, with nothing to relocate. -/
def plainImage (vaddr entry : Nat) (needed : List CString) : ElfImage where
  eType := .dyn
  entry := entry
  length := 0x1000
  bytes := fun _ => 0
  phdrs := [⟨.load, 0, vaddr, 0x1000, 0x1000, 0x1000⟩,
    ⟨.dynamic, 0x100, 0x100 + vaddr, 0x100, 0x100, 8⟩]
  dynamicOk := true
  dynamicReadable := true
  needed := needed
  soname := []
  nodelete := false
  dyn := .empty

def diskOf (image : CString → Option ElfImage) : FileSystem where
  magic := fun path => if (image path).isSome then elfMagic else []
  image := image

/-- A disk with libraries `/a`, `/b` and `/c`, of which `/a` needs `/c`. -/
def threeLibraries : FileSystem :=
  diskOf fun path =>
    if path = [47, 97] then some (plainImage 0 0 [[47, 99]])
    else if path = [47, 98] ∨ path = [47, 99] then some (plainImage 0 0 [])
    else none

def plainEnv (files : FileSystem) : LoadEnv := ⟨files, [], fun _ => true, 0⟩

/-- `/p`, a program that needs the given libraries. -/
def plainProgram (needed : List CString) : Program := ⟨[47, 112], plainImage 0 0x40 needed, []⟩

def noPages : UserPages := ⟨fun _ => false, fun _ => 0, 0, []⟩

end Cos.Link
