import Mathlib.Logic.Function.Basic
import Mathlib.Data.List.Basic

/-! # Kernel modules

The table of loaded modules, the seven tables of their callbacks, and the steps
of cos_kmod.c on them.  Sections under the table lock are one step each; a load
or an unload, which the busy flag keeps alone, goes on in several, between which
other processors dispatch callbacks. -/

namespace Cos.Kmod

open Function (update)

def kmodMaxMods : Nat := 16
def kmodMaxDeps : Nat := 4

def levelBasic : Nat := 0
def levelService : Nat := 1
def levelDevice : Nat := 2
def levelSystem : Nat := 3
def levelMax : Nat := 3

def ksyms : List (String × Nat) :=
  [("cosys_log", levelBasic), ("cosys_log_hex", levelBasic), ("cosys_log_dec", levelBasic),
   ("cosys_lock", levelBasic), ("cosys_unlock", levelBasic), ("cosys_subscribe", levelService),
   ("cosys_unsubscribe", levelService), ("cosys_time_ms", levelBasic), ("cosys_alloc", levelBasic),
   ("cosys_free", levelBasic), ("memcpy", levelBasic), ("memmove", levelBasic),
   ("memset", levelBasic), ("memcmp", levelBasic), ("strlen", levelBasic),
   ("cosys_register_syscall", levelService), ("cosys_unregister_syscall", levelService),
   ("cosys_copy_from_user", levelService), ("cosys_copy_to_user", levelService),
   ("cosys_current_pid", levelService), ("cosys_current_caps", levelService),
   ("cosys_inb", levelDevice), ("cosys_inw", levelDevice), ("cosys_inl", levelDevice),
   ("cosys_outb", levelDevice), ("cosys_outw", levelDevice), ("cosys_outl", levelDevice),
   ("cosys_pci_read32", levelDevice), ("cosys_irq_register", levelDevice),
   ("cosys_irq_unregister", levelDevice), ("cosys_msi_register", levelDevice),
   ("cosys_msi_unregister", levelDevice), ("cosys_ioapic_route", levelDevice),
   ("cosys_ioapic_unroute", levelDevice), ("cosys_mmio_map", levelDevice),
   ("cosys_mmio_unmap", levelDevice), ("cosys_dma_alloc", levelDevice),
   ("cosys_dma_free", levelDevice), ("cosys_fs_read", levelSystem), ("cosys_fs_write", levelSystem),
   ("cosys_fs_stat", levelSystem), ("cosys_fs_filter_register", levelSystem),
   ("cosys_fs_filter_unregister", levelSystem), ("cosys_net_rewrite_register", levelSystem),
   ("cosys_net_rewrite_unregister", levelSystem), ("cosys_net_fix_checksums", levelSystem),
   ("cosys_net_filter_register", levelSystem), ("cosys_net_filter_unregister", levelSystem),
   ("cosys_pci_enable", levelDevice), ("cosys_yield", levelService)]

/-- A symbol that an object leaves undefined; `odd` are the TLS, IFUNC and COPY requests. -/
structure Import where
  name : String
  weak : Bool
  odd : Bool

/-- What a .c-osys file is to the loader, and how the parts of the load that only concern its own
pages come out. -/
structure ModFile where
  /-- The level of the key that the trailer names, and whether the signature is right for it. -/
  keyId : Nat
  signature : Bool
  wellFormed : Bool
  needed : List String
  mapOk : Bool
  abiOk : Bool
  level : Nat
  imports : List Import
  exports : List String
  protectOk : Bool
  metadataOk : Bool
  name : String

structure Mod where
  used : Bool
  unloading : Bool
  name : String
  level : Nat
  deps : List Nat
  refs : Int
  inflight : Int
  exports : List String
  /-- Auxiliary: its dependencies count it. -/
  linked : Bool
  /-- Auxiliary: which of all modules that ever were loaded this is. -/
  gen : Nat
  /-- Auxiliary: the level of the key that signed it. -/
  keyLevel : Nat
  /-- Auxiliary: the levels of the kernel exports it is bound to. -/
  bound : List Nat

def Mod.clear : Mod := ⟨false, false, "", 0, [], 0, 0, [], false, 0, 0, []⟩

inductive Kind
  | syscall
  | event
  | irq
  | apic
  | fsFilter
  | netFilter
  | netRewrite
deriving DecidableEq

def Kind.size : Kind → Nat
  | .syscall => 64
  | .event | .irq => 16
  | .apic => 32
  | .fsFilter | .netFilter | .netRewrite => 4

/-- An entry of a callback table.  The key is the number of a system call, the mask of a
subscription, the line of an interrupt or the source of an APIC vector. -/
structure Entry where
  used : Bool
  owner : Nat
  fn : Nat
  key : Nat
  /-- Auxiliary: the module that the callback belongs to. -/
  gen : Nat

def Entry.free : Entry := ⟨false, 0, 0, 0, 0⟩

abbrev Table := List Entry

def Table.setFree (t : Table) (e : Entry) : Option Table :=
  (t.findIdx? (!·.used)).map fun i => t.set i e

def Table.mine (t : Table) (o : Nat) : Nat :=
  t.countP fun e => e.used && decide (e.owner = o)

def registerSyscall (t : Table) (e : Entry) : Option Table :=
  match t[e.key]? with
  | some old => if old.used then none else some (t.set e.key e)
  | none => none

/-- Subscriptions and the three kinds of filters: a function is there once. -/
def registerFunction (t : Table) (e : Entry) : Option Table :=
  if t.any fun old => old.used && decide (old.fn = e.fn) then none else t.setFree e

def irqRegister (lineFree : Bool) (t : Table) (e : Entry) : Option Table :=
  if t.any fun old => old.used && decide (old.key = e.key ∧ old.fn = e.fn) then none
  else if t.mine e.owner < 4 ∧ (t.any (fun old => old.used && decide (old.key = e.key)) ∨ lineFree)
    then t.setFree e
  else none

def apicAlloc (t : Table) (e : Entry) : Option Table :=
  if t.any fun old => old.used && decide (old.key = e.key) then none
  else if t.mine e.owner < 8 then t.setFree e
  else none

def register (kind : Kind) (lineFree : Bool) : Table → Entry → Option Table :=
  match kind with
  | .syscall => registerSyscall
  | .event | .fsFilter | .netFilter | .netRewrite => registerFunction
  | .irq => irqRegister lineFree
  | .apic => apicAlloc

def unregisters (kind : Kind) (o fn key : Nat) (e : Entry) : Bool :=
  match kind with
  | .syscall | .apic => decide (e.owner = o ∧ e.key = key)
  | .event | .fsFilter | .netFilter | .netRewrite => decide (e.owner = o ∧ e.fn = fn)
  | .irq => decide (e.owner = o ∧ e.key = key ∧ e.fn = fn)

def Table.drop (t : Table) (out : Entry → Bool) : Table :=
  t.map fun e => if e.used && out e then { e with used := false } else e

inductive Loader
  | idle
  /-- The slot is taken and its dependencies are known. -/
  | reserved (slot : Nat) (file : ModFile)
  /-- Rejected before any of its code ran. -/
  | rejected (slot : Nat)
  | initing (slot : Nat)
  /-- Its init failed. -/
  | failed (slot : Nat)
  | exiting (slot : Nat)
  /-- Its exit has returned. -/
  | left (slot : Nat)
  /-- In release_slot_memory, with the sources of its APIC vectors that are still to be silenced. -/
  | dropping (slot : Nat) (sources : List Nat)

/-- A callback that a dispatch has counted and that has not come back: the slot it was counted in
and its module. -/
structure Active where
  owner : Nat
  gen : Nat
deriving DecidableEq

structure World where
  mods : Nat → Mod
  tables : Kind → Table
  loader : Loader
  active : List Active
  /-- Auxiliary. -/
  nextGen : Nat
  /-- Auxiliary: the modules whose pages were freed. -/
  freed : List Nat

def World.start : World :=
  ⟨fun _ => Mod.clear, fun kind => List.replicate kind.size Entry.free, .idle, [], 0, []⟩

def World.setMod (w : World) (slot : Nat) (m : Mod) : World :=
  { w with mods := update w.mods slot m }

def World.freeSlot (w : World) : Option Nat :=
  (List.range kmodMaxMods).find? fun i => !(w.mods i).used

def World.find (w : World) (name : String) : Option Nat :=
  ((List.range kmodMaxMods).filter fun i =>
    (w.mods i).used && !(w.mods i).unloading && decide ((w.mods i).name = name)).getLast?

/-- The first half of load_buffer, up to the reservation of a slot; `keys` are the levels of the
keys that the kernel trusts. -/
def World.load (keys : List Nat) (w : World) (file : ModFile) : World :=
  match w.loader with
  | .idle =>
      if file.keyId ∉ keys ∨ file.signature = false then w
      else if file.wellFormed = false then w
      else match w.freeSlot with
        | none => w
        | some slot =>
            if kmodMaxDeps < file.needed.length then w
            else match file.needed.mapM w.find with
              | none => w
              | some deps =>
                  { w.setMod slot { Mod.clear with used := true, deps := deps, gen := w.nextGen, keyLevel := file.keyId } with
                    loader := .reserved slot file
                    nextGen := w.nextGen + 1 }
  | _ => w

inductive Binding
  | kernel (level : Nat)
  | dependency (slot : Nat)

/-- resolver: the kernel's exports first, then those of the modules that this one needs. -/
def World.resolve (w : World) (level : Nat) (deps : List Nat) (i : Import) : Option Binding :=
  if i.odd then none
  else match ksyms.find? fun sym => decide (sym.1 = i.name) with
    | some (_, need) => if level < need then none else some (.kernel need)
    | none => (deps.find? fun d => decide (i.name ∈ (w.mods d).exports)).map .dependency

def Binding.kernelLevel : Binding → Option Nat
  | .kernel level => some level
  | .dependency _ => none

def World.bindings (w : World) (slot : Nat) (file : ModFile) : List (Option Binding) :=
  file.imports.map (w.resolve file.level (w.mods slot).deps)

def World.rejects (w : World) (slot : Nat) (file : ModFile) : Bool :=
  !file.mapOk || !file.abiOk || decide (levelMax < file.level) ||
    decide ((w.mods slot).keyLevel < file.level) ||
    ((w.mods slot).deps.any fun d => decide (file.level < (w.mods d).level)) ||
    ((file.imports.zip (w.bindings slot file)).any fun b => b.2.isNone && !b.1.weak) ||
    !file.protectOk || !file.metadataOk || decide (file.name = "") ||
    ((List.range kmodMaxMods).any fun i =>
      decide (i ≠ slot) && (w.mods i).used && decide ((w.mods i).name = file.name))

def World.link (w : World) : World :=
  match w.loader with
  | .reserved slot file =>
      if w.rejects slot file then { w with loader := .rejected slot }
      else
        -- every dependency counts the module
        let counted := fun s => { w.mods s with refs := (w.mods s).refs + (w.mods slot).deps.count s }
        { w with
          mods := update counted slot { counted slot with
            name := file.name
            level := file.level
            exports := file.exports
            linked := true
            bound := (w.bindings slot file).filterMap (·.bind Binding.kernelLevel) }
          loader := .initing slot }
  | _ => w

def World.unlink (w : World) (slot : Nat) : World :=
  let counted := fun s => { w.mods s with refs := (w.mods s).refs - (w.mods slot).deps.count s }
  { w with mods := update counted slot { counted slot with linked := false } }

def World.initReturns (w : World) (ok : Bool) : World :=
  match w.loader with
  | .initing slot => if ok then { w with loader := .idle } else { w.unlink slot with loader := .failed slot }
  | _ => w

def World.named (w : World) (name : String) : Option Nat :=
  (List.range kmodMaxMods).find? fun i => (w.mods i).used && decide ((w.mods i).name = name)

def World.unload (w : World) (name : String) : World :=
  match w.loader with
  | .idle =>
      match w.named name with
      | none => w
      | some slot =>
          let m := w.mods slot
          if m.refs = 0 ∧ m.unloading = false ∧ m.inflight ≤ 0 then
            { w.setMod slot { m with unloading := true } with loader := .exiting slot }
          else w
  | _ => w

def World.exitReturns (w : World) : World :=
  match w.loader with
  | .exiting slot => { w.unlink slot with loader := .left slot }
  | _ => w

/-- The part of release_slot_memory under the table lock: the entries of all tables go but for the
APIC vectors. -/
def World.clearTables (w : World) (slot : Nat) : World :=
  { w with
    tables := fun kind => if kind = .apic then w.tables kind else (w.tables kind).drop fun e => decide (e.owner = slot)
    loader := .dropping slot
      (((w.tables .apic).filter fun e => e.used && decide (e.owner = slot)).map (·.key)) }

def World.clear (w : World) : World :=
  match w.loader with
  | .rejected slot | .failed slot | .left slot => w.clearTables slot
  | _ => w

def World.apicDrop (w : World) : World :=
  match w.loader with
  | .dropping slot (source :: rest) =>
      { w with
        tables := update w.tables .apic
          ((w.tables .apic).drop fun e => decide (e.owner = slot ∧ e.key = source))
        loader := .dropping slot rest }
  | _ => w

/-- free_pages, the clearing of the slot and the release of the busy flag. -/
def World.free (w : World) : World :=
  match w.loader with
  | .dropping slot [] =>
      { w.setMod slot Mod.clear with
        loader := .idle
        freed := (w.mods slot).gen :: w.freed }
  | _ => w

/-- Whether code of the module in a slot may run: it is linked, or one of its callbacks has not come
back. -/
def World.mayRun (w : World) (slot : Nat) : Bool :=
  (w.mods slot).used && ((w.mods slot).linked || w.active.any fun a => decide (a.owner = slot))

def World.register (w : World) (slot : Nat) (kind : Kind) (fn key : Nat) (lineFree : Bool) :
    World :=
  if w.mayRun slot then
    match Kmod.register kind lineFree (w.tables kind) ⟨true, slot, fn, key, (w.mods slot).gen⟩ with
    | none => w
    | some t => { w with tables := update w.tables kind t }
  else w

def World.unregister (w : World) (slot : Nat) (kind : Kind) (fn key : Nat) : World :=
  if w.mayRun slot then
    { w with tables := update w.tables kind ((w.tables kind).drop (unregisters kind slot fn key)) }
  else w

/-- The entries that a dispatch reaches: those it selects whose owner is there and not going. -/
def World.reached (w : World) (kind : Kind) (selects : Entry → Bool) : List Entry :=
  (w.tables kind).filter fun e =>
    e.used && selects e && (w.mods e.owner).used && !(w.mods e.owner).unloading

def World.dispatch (w : World) (kind : Kind) (selects : Entry → Bool) : World :=
  { w with
    mods := fun s => { w.mods s with
      inflight := (w.mods s).inflight + (w.reached kind selects).countP fun e => decide (e.owner = s) }
    active := ((w.reached kind selects).map fun e => ⟨e.owner, e.gen⟩) ++ w.active }

/-- A callback comes back.  Its decrement is lost where it falls into the plain increment of a
dispatch. -/
def World.finish (w : World) (k : Nat) (lost : Bool) : World :=
  match w.active[k]? with
  | none => w
  | some a =>
      { w with
        mods := if lost then w.mods else update w.mods a.owner
          { w.mods a.owner with inflight := (w.mods a.owner).inflight - 1 }
        active := w.active.eraseIdx k }

inductive Step
  | load (file : ModFile)
  | link
  | initReturns (ok : Bool)
  | unload (name : String)
  | exitReturns
  | clear
  | apicDrop
  | free
  | register (slot : Nat) (kind : Kind) (fn key : Nat) (lineFree : Bool)
  | unregister (slot : Nat) (kind : Kind) (fn key : Nat)
  | dispatch (kind : Kind) (selects : Entry → Bool)
  | finish (k : Nat) (lost : Bool)

def World.step (keys : List Nat) (w : World) : Step → World
  | .load file => w.load keys file
  | .link => w.link
  | .initReturns ok => w.initReturns ok
  | .unload name => w.unload name
  | .exitReturns => w.exitReturns
  | .clear => w.clear
  | .apicDrop => w.apicDrop
  | .free => w.free
  | .register slot kind fn key lineFree => w.register slot kind fn key lineFree
  | .unregister slot kind fn key => w.unregister slot kind fn key
  | .dispatch kind selects => w.dispatch kind selects
  | .finish k lost => w.finish k lost

end Cos.Kmod
