import Mathlib.Data.List.Sort
import Cos.Link.Load

/-! # Opening and closing libraries

`cos_link_dlopen` loads a library with its dependencies and relocates what is new; when
anything fails it unloads what it had mapped.  `cos_link_dlclose` unloads whatever a closed
handle leaves without a use.
-/

namespace Cos.Link

open Cos.Elf

/-- `while (ns->count > 0 && !ns->objs[ns->count - 1].used) ns->count--`. -/
def trimCount (objs : Nat → Option LinkObj) : Nat → Nat
  | 0 => 0
  | count + 1 => if (objs count).isNone then trimCount objs count else count + 1

/-- The namespace without the object in slot `j`. -/
def LinkNs.dropSlot (ns : LinkNs) (j : Nat) : LinkNs :=
  let objs : Nat → Option LinkObj := fun k =>
    if k = j then none else (ns.objs k).map fun slot => { slot with needsMask := slot.needsMask.erase j }
  { ns with objs := objs, count := trimCount objs ns.count }

/-- `unload_slot`: the top of the library area is taken back. -/
def unloadSlot (state : LinkState) (j : Nat) : LinkState :=
  match state.ns.objs j with
  | none => state
  | some slot =>
      let nextBase := if slot.vhi ≠ 0 ∧ slot.vhi = state.ns.nextBase then slot.vlo else state.ns.nextBase
      { state with
        ns := { state.ns.dropSlot j with nextBase := nextBase }
        pages := state.pages.unmap slot.obj.segs }

/-- An object that stays uses the one in slot `j`. -/
def LinkNs.stillNeeded (ns : LinkNs) (gone : Finset Nat) (j : Nat) : Bool :=
  slots.any fun k => k ≠ j ∧ k ∉ gone ∧ j ∈ ns.needs k

/-- One round of `unload_set` over the given slots. -/
def unloadRound (ns : LinkNs) : List Nat → Finset Nat → Finset Nat
  | [], gone => gone
  | j :: rest, gone =>
      match ns.objs j with
      | none => unloadRound ns rest gone
      | some slot =>
          if slot.isMain ∨ slot.nodelete ∨ slot.refcount ≠ 0 ∨ j ∈ gone ∨ ns.stillNeeded gone j then
            unloadRound ns rest gone
          else unloadRound ns rest (insert j gone)

/-- `unload_set` once a handle is closed; every round but the last adds a slot. -/
def unloadSet (ns : LinkNs) : Nat → Finset Nat → Finset Nat
  | 0, gone => gone
  | rounds + 1, gone =>
      if unloadRound ns slots gone = gone then gone else unloadSet ns rounds (unloadRound ns slots gone)

def LinkNs.serialAt (ns : LinkNs) (i : Nat) : Nat := (ns.objs i).elim 0 LinkObj.serial

/-- `slots_by_serial`, the highest serial first. -/
def slotsBySerial (ns : LinkNs) (mask : Finset Nat) : List Nat :=
  (slots.filter (· ∈ mask)).insertionSort fun a b => ns.serialAt b ≤ ns.serialAt a

/-- The `RTLD_` flags that change what happens. -/
structure DlFlags where
  global : Bool
  nodelete : Bool
  noload : Bool
  deepbind : Bool
deriving DecidableEq

def makeHandle (ns : LinkNs) (i : Nat) : Nat := 256 * ns.serialAt i + (i + 1)

def handleSlot (ns : LinkNs) (handle : Nat) : Option Nat :=
  let i := handle % 256 - 1
  if handle % 256 = 0 ∨ maxObjects ≤ i then none
  else (ns.objs i).bind fun slot => if slot.serial = handle / 256 % 2 ^ 32 then some i else none

def baseName (path : CString) : CString := (path.reverse.takeWhile (· ≠ slash)).reverse

def LinkNs.addHandle (ns : LinkNs) (flags : DlFlags) (i : Nat) : LinkNs :=
  ns.updateSlot i fun slot => { slot with
    refcount := slot.refcount + 1
    global := slot.global || flags.global
    nodelete := slot.nodelete || flags.nodelete }

/-- The objects with their `global` mark set to the given value. -/
def LinkNs.markGlobal (ns : LinkNs) (value : Bool) (order : List Nat) : LinkNs :=
  { ns with objs := fun i =>
      (ns.objs i).map fun slot => if i ∈ order then { slot with global := value } else slot }

/-- A library with thread-local storage cannot join a process whose TLS block is fixed. -/
def LinkNs.refusesTls (ns : LinkNs) (order : List Nat) : Bool :=
  ns.tlsTp ≠ 0 && order.any fun i => (ns.objs i).any fun slot => slot.obj.hasTls

/-- `cos_link_dlopen` after loading: everything new is relocated in the process-wide scope, put
where the flags want it, and the link map is written. -/
def finishOpen (env : LoadEnv) (flags : DlFlags) (i : Nat) (order : List Nat) (state : LinkState) :
    Bool × LinkState :=
  if state.ns.refusesTls order then (false, state)
  else
    match ({ state with ns := state.ns.markGlobal true order } : LinkState).relocate
        (relocateSlots (if flags.deepbind then some i else none) order) with
    | (none, state) => (false, state)
    | (some _, state) =>
        let ns := if flags.global then state.ns else state.ns.markGlobal false order
        publishLinkmap env { state with ns := ns.addHandle flags i }

/-- All or nothing: what the call mapped is unloaded, in the given order. -/
def rollBack (env : LoadEnv) (order : List Nat) (state : LinkState) : LinkState :=
  (publishLinkmap env (order.foldl unloadSlot state)).2

/-- `cos_link_dlopen` without `RTLD_NOLOAD`, on a path. -/
def openPath (env : LoadEnv) (flags : DlFlags) (path : CString) (state : LinkState) :
    Option Nat × LinkState :=
  let loaded := loadObject env flags.global (maxDepth - 1) none path
    { state with ns := { state.ns with newMask := ∅ } }
  let order := slotsBySerial loaded.2.ns loaded.2.ns.newMask
  let state := { loaded.2 with ns := { loaded.2.ns with newMask := ∅ } }
  match loaded.1 with
  | none => (none, rollBack env order state)
  | some i =>
      match finishOpen env flags i order state with
      | (false, state) => (none, rollBack env order state)
      | (true, state) => (some (makeHandle state.ns i), state)

def cosLinkDlopen (env : LoadEnv) (flags : DlFlags) (name : CString) (state : LinkState) :
    Option Nat × LinkState :=
  match resolveFrom env state.ns (some 0) name with
  | none => (none, state)
  | some path =>
      if flags.noload then
        match findLoaded state.ns path (baseName path) with
        | none => (none, state)
        | some i => (some (makeHandle state.ns i), { state with ns := state.ns.addHandle flags i })
      else openPath env flags path state

def cosLinkDlclose (env : LoadEnv) (handle : Nat) (state : LinkState) : Bool × LinkState :=
  match handleSlot state.ns handle with
  | none => (false, state)
  | some i =>
      if (state.ns.objs i).any fun slot => slot.isMain ∨ slot.refcount = 0 then (false, state)
      else
        let ns := state.ns.updateSlot i fun slot => { slot with refcount := slot.refcount - 1 }
        let gone := unloadSet ns maxObjects ∅
        if gone = ∅ then (true, { state with ns := ns })
        else
          let unloaded := (slots.filter (· ∈ gone)).foldl unloadSlot { state with ns := ns }
          (true, (publishLinkmap env unloaded).2)

end Cos.Link
