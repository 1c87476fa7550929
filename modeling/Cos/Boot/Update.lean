import Mathlib.Logic.Function.Basic
import Cos.Lib.Run
import Mathlib.Algebra.Group.Nat.Defs

/-! # Kernel updates

`cos_bootupd.c`, and the rule of `grub.cfg` that says which kernel starts.  The
environment block, the two slot files and the running kernel are one state.
Every read of the blob of an install has a view of its own, since the program
that installs may write its memory at any time, and every operation of the disk
has luck: it works, fails, or the machine stops in it. -/

namespace Cos.Boot

abbrev Image := List UInt8

inductive Slot
  | a
  | b
  deriving DecidableEq

def Slot.other : Slot → Slot
  | .a => .b
  | .b => .a

theorem Slot.other_ne (slot : Slot) : slot.other ≠ slot := by
  cases slot <;> exact nofun

/-- The variables of `grubenv`: a number that is not there reads as zero. -/
structure Env where
  active : Option Slot
  trial : Option Slot
  trialSeen : Bool
  trialSerial : Nat
  failed : Option Slot
  badSerial : Nat
  deriving DecidableEq

def Env.activeSlot (e : Env) : Slot :=
  e.active.getD .a

/-- What the kernel is built with: its hash, its signature check under the
kernel-update key, and the serial a kernel image was compiled with. -/
structure Build where
  sha256 : List UInt8 → List UInt8
  vrfy : List UInt8 → List UInt8 → Bool
  serial : Image → Nat

/-- The kernel that runs.  `image` is what was loaded; `rewritten` says that its
slot was written since. -/
structure Kernel where
  slot : Slot
  image : Image
  booted : Bool
  espOk : Bool
  trialPending : Bool
  rewritten : Bool
  deriving DecidableEq

/-- The machine.  `proven` are the images that ran and confirmed, `failures` the
serials whose kernel did not start, `activeOpened` and `restaged` what must not
happen. -/
structure World where
  env : Env
  slots : Slot → Image
  running : Option Kernel
  proven : List Image
  failures : List Nat
  activeOpened : Bool
  restaged : Bool

inductive Luck
  | done
  | failed (took : Bool)
  | stopped (took : Bool)
  deriving DecidableEq

def World.off (w : World) : World :=
  { w with running := none }

def World.took (w : World) (effect : World → World) (took : Bool) : World :=
  if took then effect w else w

/-- `env_store`, and what is done after it when it works. -/
def World.envStore (w : World) (effect : World → World) (luck : Luck) (next : World → World) :
    World :=
  match luck with
  | .done => next (effect w)
  | .failed took => w.took effect took
  | .stopped took => (w.took effect took).off

inductive FileLuck
  | done
  | failed (left : Image)
  | stopped (left : Image)

def Kernel.slotWritten (k : Kernel) (slot : Slot) : Kernel :=
  { k with rewritten := k.rewritten || decide (k.slot = slot) }

/-- A slot file is opened for writing, and holds `content` afterwards. -/
def World.fill (w : World) (slot : Slot) (content : Image) : World :=
  { w with
    slots := Function.update w.slots slot content
    running := w.running.map (·.slotWritten slot)
    activeOpened := w.activeOpened || decide (slot = w.env.activeSlot) }

def World.writeSlot (w : World) (slot : Slot) (written : Image) (luck : FileLuck)
    (next : World → World) : World :=
  match luck with
  | .done => next (w.fill slot written)
  | .failed left => w.fill slot left
  | .stopped left => (w.fill slot left).off

def maxBlob : Nat := 64 * 2 ^ 20

def trailer : Nat := 81

inductive Read
  | magic
  | keyId
  | serial
  | hashed
  | hashedSerial
  | signature
  | gzip
  | written
  | compared
  deriving DecidableEq

abbrev Views := Read → Nat → UInt8

def Views.bytes (views : Views) (read : Read) (offset count : Nat) : List UInt8 :=
  (List.range count).map fun i => views read (offset + i)

def littleEndian : List UInt8 → Nat
  | [] => 0
  | byte :: rest => littleEndian rest * 256 + byte.toNat

def cosKsig1 : List UInt8 := [0x43, 0x4f, 0x53, 0x4b, 0x53, 0x49, 0x47, 0x31]

def cosKser1 : List UInt8 := [0x43, 0x4f, 0x53, 0x4b, 0x53, 0x45, 0x52, 0x31]

def signatureOk (build : Build) (views : Views) (n : Nat) : Option Nat :=
  if n < trailer + 1024 then none
  else
    let t := n - trailer
    if views.bytes .magic t 8 ≠ cosKsig1 ∨ views .keyId (t + 16) ≠ 1 then none
    else
      let serial := littleEndian (views.bytes .serial (t + 8) 8)
      let h := build.sha256 (views.bytes .hashed 0 t ++ cosKser1 ++ views.bytes .hashedSerial (t + 8) 8)
      if build.vrfy h (views.bytes .signature (t + 17) 64) = true then some serial
      else none

/-- The luck of an install: whether `grubenv` is read, the store that takes the
trial away, the slot file, whether it is read back, the store of the trial. -/
structure InstallLuck where
  loaded : Bool
  cleared : Luck
  file : FileLuck
  readBack : Bool
  staged : Luck

def World.clearTrial (w : World) : World :=
  { w with env := { w.env with trial := none, trialSeen := false, trialSerial := 0 } }

def World.setTrial (w : World) (slot : Slot) (serial : Nat) : World :=
  { w with
    env := { w.env with trial := some slot, trialSeen := false, trialSerial := serial }
    restaged := w.restaged || decide (serial ∈ w.failures) }

/-- The slot is read back and compared, and then the trial is named. -/
def World.stage (build : Build) (w : World) (slot : Slot) (serial : Nat) (compared : Image)
    (luck : InstallLuck) : World :=
  if luck.readBack = false then w
  else if (w.slots slot).length ≠ compared.length ∨
    build.sha256 compared ≠ build.sha256 (w.slots slot) then w
  else w.envStore (·.setTrial slot serial) luck.staged id

/-- What an install checks before it touches the disk: the serial it goes on with. -/
def World.accepted (build : Build) (w : World) (k : Kernel) (len : Nat) (views : Views)
    (loaded : Bool) : Option Nat :=
  if k.espOk = false then none
  else if len < trailer + 1024 ∨ maxBlob < len then none
  else
    match signatureOk build views len with
    | none => none
    | some serial =>
        if views .gzip 0 ≠ 0x1f ∨ views .gzip 1 ≠ 0x8b then none
        else if loaded = false then none
        else if serial ≤ build.serial k.image then none
        else if serial ≤ w.env.badSerial then none
        else some serial

def World.install (build : Build) (w : World) (k : Kernel) (len : Nat) (views : Views)
    (luck : InstallLuck) : World :=
  match w.accepted build k len views luck.loaded with
  | none => w
  | some serial =>
      let plen := len - trailer
      let slot := w.env.activeSlot.other
      -- nothing may try the slot while it is being written
      w.envStore World.clearTrial luck.cleared fun w =>
        w.writeSlot slot (views.bytes .written 0 plen) luck.file fun w =>
          w.stage build slot serial (views.bytes .compared 0 plen) luck

/-- The entries of the menu: the kernel that was chosen, or the previous one,
which is also where a kernel that cannot be loaded falls through to. -/
inductive Entry
  | chosen
  | previous
  deriving DecidableEq

/-- `grub.cfg`: the block it saves and the slot it chooses. -/
def Env.grub (e : Env) : Env × Slot :=
  match e.trial with
  | none => (e, e.activeSlot)
  | some t =>
      if e.trialSeen = true then
        ({ e with failed := some t, trial := none, trialSeen := false }, e.activeSlot)
      else ({ e with trialSeen := true }, t)

def Env.startSlot (e : Env) : Entry → Slot
  | .chosen => e.grub.2
  | .previous => e.activeSlot

/-- The trial kernel did not start: GRUB gives it up, or the other kernel runs. -/
def Env.trialFails (e : Env) (entry : Option Entry) : Bool :=
  match e.trial with
  | none => false
  | some t => e.trialSeen || entry.any fun entry => decide (e.startSlot entry ≠ t)

/-- A start: whether `save_env` works, and the entry whose kernel runs, if one
comes to run at all. -/
def World.start (w : World) (saved : Bool) (entry : Option Entry) : World :=
  { w with
    env := if saved then w.env.grub.1 else w.env
    running := entry.map fun entry =>
      { slot := w.env.startSlot entry
        image := w.slots (w.env.startSlot entry)
        booted := false
        espOk := false
        trialPending := false
        rewritten := false }
    failures := if w.env.trialFails entry then w.env.trialSerial :: w.failures else w.failures }

def World.noteFailed (w : World) : World :=
  { w with
    env := { w.env with
      active := some w.env.activeSlot
      badSerial := max w.env.trialSerial w.env.badSerial
      failed := none
      trialSerial := 0 } }

def World.kernelBooted (w : World) (k : Kernel) : World :=
  { w with running := some { k with booted := true, espOk := true, trialPending := decide (w.env.trial = some k.slot) } }

/-- `cos_bootupd_boot`: what a failed store leaves is not looked at. -/
def World.boot (w : World) (k : Kernel) (espOk loaded : Bool) (luck : Luck) : World :=
  if espOk = false ∨ loaded = false
    then { w with running := some { k with booted := true, espOk := espOk } }
  else if w.env.failed.isSome then
    match luck with
    | .done => w.noteFailed.kernelBooted k
    | .failed took => (w.took World.noteFailed took).kernelBooted k
    | .stopped took => (w.took World.noteFailed took).off
  else w.kernelBooted k

def World.makeActive (w : World) (k : Kernel) : World :=
  { w with
    env := { w.env with active := some k.slot, trial := none, trialSeen := false, trialSerial := 0, failed := none }
    proven := k.image :: w.proven }

def World.confirmed (w : World) : World :=
  { w with running := w.running.map fun k => { k with trialPending := false } }

def World.doConfirm (w : World) (k : Kernel) (loaded : Bool) (luck : Luck) : World :=
  if k.trialPending = true ∧ k.espOk = true ∧ loaded = true ∧ w.env.trial = some k.slot then
    w.envStore (·.makeActive k) luck World.confirmed
  else w

def World.forgetBad (w : World) : World :=
  { w with
    env := { w.env with badSerial := 0, failed := none }
    failures := [] }

def World.clearBad (w : World) (k : Kernel) (loaded : Bool) (luck : Luck) : World :=
  if k.espOk = true ∧ loaded = true ∧ w.env.trial = none then w.envStore World.forgetBad luck id
    else w

inductive Step
  | start (saved : Bool) (entry : Option Entry)
  | boot (espOk loaded : Bool) (luck : Luck)
  | install (len : Nat) (views : Views) (luck : InstallLuck)
  | confirm (loaded : Bool) (luck : Luck)
  | clearBad (loaded : Bool) (luck : Luck)
  | stop

/-- Programs run, and the trial kernel confirms itself, only after
`cos_bootupd_boot` has returned. -/
def World.step (build : Build) (w : World) : Step → World
  | .start saved entry => if w.running = none then w.start saved entry else w
  | .boot espOk loaded luck =>
      match w.running with
      | some k => if k.booted then w else w.boot k espOk loaded luck
      | none => w
  | .install len views luck =>
      match w.running with
      | some k => if k.booted then w.install build k len views luck else w
      | none => w
  | .confirm loaded luck =>
      match w.running with
      | some k => if k.booted then w.doConfirm k loaded luck else w
      | none => w
  | .clearBad loaded luck =>
      match w.running with
      | some k => if k.booted then w.clearBad k loaded luck else w
      | none => w
  | .stop => w.off

/-- A disk as it is written: nothing on trial, and the active slot holds the
original kernel. -/
def World.fresh (active : Option Slot) (badSerial : Nat) (slots : Slot → Image) : World :=
  { env := { active, trial := none, trialSeen := false, trialSerial := 0, failed := none, badSerial }
    slots
    running := none
    proven := [slots (active.getD .a)]
    failures := []
    activeOpened := false
    restaged := false }

end Cos.Boot
