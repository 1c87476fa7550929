import Mathlib.Data.Finset.Union
import Mathlib.Data.Finset.Range
import Cos.Elf.Relocate

/-! # A process's link namespace

The objects of a process sit in a table of 24 slots.  `scope_resolve` searches them in
slot order: first the process-wide scope, then what the asking object depends on.
-/

namespace Cos.Link

open Cos.Elf

def maxObjects : Nat := 24

/-- `cos_link_obj_t` of a used slot.  `needsMask` is a set of slots. -/
structure LinkObj where
  obj : ElfObject
  path : CString
  soname : CString
  isMain : Bool
  global : Bool
  nodelete : Bool
  refcount : Nat
  serial : Nat
  needsMask : Finset Nat
  vlo : Nat
  vhi : Nat
deriving DecidableEq

/-- `cos_link_ns_t`; a slot that is not used is `none`.  `tlsPages` and `linkmapPages` are the
pages of the TLS block and of the link map, once there are any. -/
structure LinkNs where
  objs : Nat → Option LinkObj
  count : Nat
  nextBase : Nat
  nextSerial : Nat
  newMask : Finset Nat
  userPath : CString
  tlsTp : Addr
  tlsPages : Nat
  linkmapPages : Nat

def slots : List Nat := List.range maxObjects

def LinkNs.globalSlots (ns : LinkNs) : List Nat :=
  slots.filter fun i => (ns.objs i).any LinkObj.global

def LinkNs.needs (ns : LinkNs) (i : Nat) : Finset Nat := (ns.objs i).elim ∅ LinkObj.needsMask

/-- The rounds in which `scope_resolve` follows `needs_mask`. -/
def closureRounds (ns : LinkNs) : Nat → Finset Nat → Finset Nat → Finset Nat
  | 0, _, closure => closure
  | rounds + 1, frontier, closure =>
      if frontier = ∅ then closure
      else
        let frontier := frontier.biUnion ns.needs \ closure
        closureRounds ns rounds frontier (closure ∪ frontier)

/-- The slots that the object in slot `asker` depends on, in search order. -/
def LinkNs.closureSlots (ns : LinkNs) (asker : Option Nat) : List Nat :=
  match asker with
  | none => []
  | some i =>
      let closure := closureRounds ns maxObjects (ns.needs i) (ns.needs i)
      slots.filter fun j => j ∈ closure ∧ j ∉ ns.globalSlots

/-- One pass over a list of slots; a `COPY` relocation skips the object that asks. -/
def searchSlots (ns : LinkNs) (req : SymReq) (version : Option CString) (order : List Nat) :
    Option (Nat × SymVal) :=
  order.findSome? fun i =>
    if req.copy ∧ i = req.requester then none
    else (ns.objs i).bind fun slot => (cosElfLookup slot.obj req.name version).map (i, ·)

def scopeSearch (ns : LinkNs) (req : SymReq) (asker : Option Nat) : Option (Nat × SymVal) :=
  let passes (version : Option CString) :=
    (searchSlots ns req version ns.globalSlots).or
      (searchSlots ns req version (ns.closureSlots asker))
  if req.version.isSome then (passes req.version).or (passes none) else passes req.version

/-- `ns->objs[i].needs_mask |= 1u << j`. -/
def LinkNs.addNeed (ns : LinkNs) (i j : Nat) : LinkNs :=
  { ns with objs := fun k =>
      if k = i then (ns.objs k).map fun slot => { slot with needsMask := insert j slot.needsMask }
      else ns.objs k }

/-- `scope_resolve`; `deepbind` is the slot of an object opened with `RTLD_DEEPBIND`. -/
def scopeResolve (deepbind : Option Nat) (req : SymReq) (ns : LinkNs) : Option SymVal × LinkNs :=
  let asker := if (ns.objs req.requester).isSome then some req.requester else none
  let own :=
    if deepbind = some req.requester ∧ req.copy = false then
      (ns.objs req.requester).bind fun slot => cosElfLookup slot.obj req.name req.version
    else none
  match own with
  | some value => (some value, ns)
  | none =>
      match scopeSearch ns req asker with
      | none => (none, ns)
      | some (i, value) =>
          (some value, if asker.isSome ∧ i ≠ req.requester then ns.addNeed req.requester i else ns)

/-- The first loop of `relocate_all`, over the given slots. -/
def relocateSlots (deepbind : Option Nat) : List Nat → RelocState LinkNs →
    Except (RelocState LinkNs) (RelocState LinkNs)
  | [], state => .ok state
  | i :: rest, state =>
      match state.scope.objs i with
      | none => relocateSlots deepbind rest state
      | some slot =>
          match cosElfRelocate (scopeResolve deepbind) i slot.obj state with
          | .error state => .error state
          | .ok state => relocateSlots deepbind rest state

/-- `relocate_all`: dependents are registered first, so the slots go from last to first. -/
def relocateAll (state : RelocState LinkNs) : Except (RelocState LinkNs) (RelocState LinkNs) :=
  relocateSlots none (List.range state.scope.count).reverse state

end Cos.Link
