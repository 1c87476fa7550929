import Cos.Lib.Ring
import Cos.Lib.Run
import Mathlib.Algebra.BigOperators.Group.Finset.Basic

/-! # The mailboxes of `ipc.c`

A mailbox is a ring of messages under a lock, a semaphore that counts them and a count of references
under the lock of the table.  What runs under one lock is one step, and so is every operation of the
semaphore.
-/

namespace Cos.Ipc

open Cos.Lib
open Function (update)

/-- `IPC_QUEUE_SIZE` and `IPC_MAX_DATA_SIZE`. -/
def ipcQueueSize : Nat := 64

def ipcMaxDataSize : Nat := 1024

inductive Status
  | success
  | notInitialized
  | invalidPid
  | dataTooLarge
  | queueFull
  | timeout
deriving DecidableEq

/-- `ipc_message_t`. -/
structure Message where
  srcPid : Nat
  dstPid : Nat
  msgType : Nat
  msgId : Nat
  dataSize : Nat
  data : List UInt8
deriving DecidableEq

/-- The arguments of `mailbox_enqueue`; `data` is `none` for a null pointer. -/
structure Request where
  srcPid : Nat
  dstPid : Nat
  msgType : Nat
  msgId : Nat
  dataSize : Nat
  data : Option (List UInt8)
deriving DecidableEq

/-- Why a thread asks for a mailbox; `forever` is `IPC_WAIT_FOREVER`. -/
inductive Purpose
  | send (request : Request)
  | receive (forever : Bool)
deriving DecidableEq

inductive Pc
  | out
  /-- In `mailbox_enqueue_in`, before `mb->lock` and before `sem_post`. -/
  | sending (box : Nat) (request : Request)
  | posting (box : Nat)
  /-- In `ipc_receive_in`: at the semaphore, on its queue, woken from it, past it. -/
  | waiting (box : Nat) (forever : Bool)
  | asleep (box : Nat)
  | woken (box : Nat)
  | taking (box : Nat)
  /-- Before `mailbox_put`. -/
  | leaving (box : Nat) (status : Status)
  /-- In `mailbox_retire_locked`, with so many posts to go; `next` is what `mailbox_get_or_create`
  still has to do. -/
  | retiring (box : Nat) (left : Nat) (next : Option (Nat × Nat × Purpose))
deriving DecidableEq

/-- `mailbox_t`; `items` and `waiters` are the semaphore. -/
structure Mailbox (T : Type) where
  entries : Nat → Message
  head : Nat
  tail : Nat
  count : Nat
  ownerPid : Nat
  items : Int
  waiters : List T
  totalEnqueued : Nat
  totalDequeued : Nat
  refs : Nat
  dead : Bool
  /-- Auxiliary: who has a reference; how often the mailbox was freed; the messages that were put in
  and taken out. -/
  inside : Finset T
  freed : Nat
  accepted : List Message
  received : List Message

structure World (T : Type) where
  /-- The mailboxes there ever were; `next` is the first number that is free. -/
  box : Nat → Mailbox T
  next : Nat
  mailboxes : Nat → Option Nat
  /-- Who keeps `mailbox_table_lock` over several steps. -/
  tableLock : Option T
  pc : T → Pc
  status : T → Status

/-- `slot` is what `process_get_slot_index` says. -/
inductive Step (T : Type)
  | enqueue (t : T) (slot : Option Nat) (memory : Bool) (request : Request)
  | receive (t : T) (pid : Nat) (slot : Option Nat) (memory : Bool) (forever : Bool)
  | releaseOwner (t : T) (pid : Nat) (slot : Option Nat)
  /-- `memory`: `kmalloc` finds room; `late`: the deadline has passed. -/
  | go (t : T) (memory late : Bool)
deriving DecidableEq

variable {T : Type} [DecidableEq T]

def Mailbox.fresh (pid : Nat) (t : T) : Mailbox T where
  entries := fun _ => ⟨0, 0, 0, 0, 0, []⟩
  head := 0
  tail := 0
  count := 0
  ownerPid := pid
  items := 0
  waiters := []
  totalEnqueued := 0
  totalDequeued := 0
  refs := 1
  dead := false
  inside := {t}
  freed := 0
  accepted := []
  received := []

/-- The message that a request leaves in the slot `old`. -/
def Request.stored (request : Request) (old : Message) : Message where
  srcPid := request.srcPid
  dstPid := request.dstPid
  msgType := request.msgType
  msgId := request.msgId
  dataSize := request.dataSize
  data :=
    match request.data with
    | none => old.data
    | some bytes => bytes.take request.dataSize ++ old.data.drop request.dataSize

section

variable (w : World T) (t : T)

def World.goto (pc : Pc) : World T := { w with pc := update w.pc t pc }

def World.setBox (i : Nat) (box : Mailbox T) : World T := { w with box := update w.box i box }

def World.return (status : Status) : World T :=
  { w with status := update w.status t status }.goto t .out

def Purpose.start (i : Nat) : Purpose → Pc
  | .send request => .sending i request
  | .receive forever => .waiting i forever

/-- `sem_post(&mb->items)`. -/
def World.post (i : Nat) : World T :=
  match (w.box i).waiters with
  | [] => w.setBox i { w.box i with items := (w.box i).items + 1 }
  | first :: rest =>
      (w.setBox i { w.box i with items := (w.box i).items + 1, waiters := rest }).goto first (.woken i)

/-- The end of `mailbox_get_or_create`, for a slot without a mailbox. -/
def World.create (pid slot : Nat) (purpose : Purpose) (memory : Bool) : World T :=
  if memory then
    { w with
      box := update w.box w.next (Mailbox.fresh pid t)
      next := w.next + 1
      mailboxes := update w.mailboxes slot (some w.next) }.goto t (purpose.start w.next)
  else w.return t .notInitialized

/-- `mailbox_retire_locked` up to its posts: the mailbox leaves the table, and is freed if nobody
uses it. -/
def World.retire (i slot : Nat) : World T :=
  { w.setBox i { w.box i with
      dead := true
      freed := (w.box i).freed + if (w.box i).refs = 0 then 1 else 0 } with
    mailboxes := update w.mailboxes slot none }

def World.getOrCreate (pid : Nat) (slot : Option Nat) (purpose : Purpose) (memory : Bool) :
    World T :=
  match slot with
  | none => w.return t .notInitialized
  | some slot =>
      match w.mailboxes slot with
      | none => w.create t pid slot purpose memory
      | some i =>
          if (w.box i).ownerPid = pid then
            (w.setBox i { w.box i with refs := (w.box i).refs + 1, inside := insert t (w.box i).inside }).goto t
              (purpose.start i)
          else if (w.box i).refs = 0 then (w.retire i slot).create t pid slot purpose memory
          else { w.retire i slot with tableLock := some t }.goto t (.retiring i 8 (some (pid, slot, purpose)))

def World.releaseOwner (pid : Nat) (slot : Option Nat) : World T :=
  match slot with
  | none => w
  | some slot =>
      match w.mailboxes slot with
      | none => w
      | some i =>
          if (w.box i).ownerPid = pid then
            if (w.box i).refs = 0 then w.retire i slot
            else { w.retire i slot with tableLock := some t }.goto t (.retiring i 8 none)
          else w

def World.put (i : Nat) (status : Status) : World T :=
  (w.setBox i { w.box i with
    refs := (w.box i).refs - 1
    inside := (w.box i).inside.erase t
    freed := (w.box i).freed + if (w.box i).refs = 1 ∧ (w.box i).dead then 1 else 0 }).return t status

/-- `mailbox_enqueue_in` under `mb->lock`. -/
def World.enqueueIn (i : Nat) (request : Request) : World T :=
  let mb := w.box i
  if ipcQueueSize ≤ mb.count then w.goto t (.leaving i .queueFull)
  else
    let message := request.stored (mb.entries mb.tail)
    (w.setBox i { mb with
      entries := update mb.entries mb.tail message
      tail := (mb.tail + 1) % ipcQueueSize
      count := mb.count + 1
      totalEnqueued := mb.totalEnqueued + 1
      accepted := mb.accepted ++ [message] }).goto t (.posting i)

/-- `sem_wait(&mb->items)` and the loop over `sem_trywait`. -/
def World.waitItem (i : Nat) (forever late : Bool) : World T :=
  let mb := w.box i
  if 0 < mb.items then (w.setBox i { mb with items := mb.items - 1 }).goto t (.taking i)
  else if forever then (w.setBox i { mb with waiters := mb.waiters ++ [t] }).goto t (.asleep i)
  else if late then w.goto t (.leaving i .timeout)
  else w

/-- `ipc_receive_in` under `mb->lock`. -/
def World.dequeue (i : Nat) : World T :=
  let mb := w.box i
  if mb.count = 0 then w.goto t (.leaving i .timeout)
  else
    (w.setBox i { mb with
      head := (mb.head + 1) % ipcQueueSize
      count := mb.count - 1
      totalDequeued := mb.totalDequeued + 1
      received := mb.received ++ [mb.entries mb.head] }).goto t (.leaving i .success)

def World.go (memory late : Bool) : World T :=
  match w.pc t with
  | .out | .asleep _ => w
  | .sending i request => w.enqueueIn t i request
  | .posting i => (w.post i).goto t (.leaving i .success)
  | .waiting i forever => w.waitItem t i forever late
  | .woken i => w.waitItem t i true late
  | .taking i => w.dequeue t i
  | .leaving i status => if w.tableLock = none then w.put t i status else w
  | .retiring i (left + 1) next => (w.post i).goto t (.retiring i left next)
  | .retiring _ 0 none => { w with tableLock := none }.goto t .out
  | .retiring _ 0 (some (pid, slot, purpose)) =>
    { w with tableLock := none }.create t pid slot purpose memory

end

/-- A thread that is in no call may begin one; the table is free for it. -/
def World.idle (w : World T) (t : T) : Prop := w.pc t = .out ∧ w.tableLock = none

instance (w : World T) (t : T) : Decidable (w.idle t) := inferInstanceAs (Decidable (_ ∧ _))

def World.step (w : World T) : Step T → World T
  | .enqueue t slot memory request =>
      if w.idle t then
        if ipcMaxDataSize < request.dataSize then w.return t .dataTooLarge
        else if request.dstPid = 0 then w.return t .invalidPid
        else w.getOrCreate t request.dstPid slot (.send request) memory
      else w
  | .receive t pid slot memory forever =>
      if w.idle t then w.getOrCreate t pid slot (.receive forever) memory else w
  | .releaseOwner t pid slot => if w.idle t then w.releaseOwner t pid slot else w
  | .go t memory late => w.go t memory late

def World.init [Inhabited T] : World T where
  box := fun _ => { Mailbox.fresh 0 default with refs := 0, inside := ∅ }
  next := 0
  mailboxes := fun _ => none
  tableLock := none
  pc := fun _ => .out
  status := fun _ => .success

def Pc.box : Pc → Option Nat
  | .sending i _ | .posting i | .waiting i _ | .asleep i | .woken i | .taking i | .leaving i _ =>
    some i
  | .out | .retiring _ _ _ => none

/-- Whether a receiver is not past the semaphore, and cannot give up, or is past it. -/
def Pc.needs : Pc → Nat
  | .waiting _ _ | .asleep _ | .woken _ => 1
  | _ => 0

def Pc.forever : Pc → Nat
  | .waiting _ true | .asleep _ | .woken _ => 1
  | _ => 0

def Pc.past : Pc → Nat
  | .taking _ => 1
  | _ => 0

/-- Whether a sender has not put its message in, or has and has not posted. -/
def Pc.sends : Pc → Nat
  | .sending _ _ => 1
  | _ => 0

def Pc.posts : Pc → Nat
  | .posting _ => 1
  | _ => 0

/-- How many of the threads inside a mailbox are in such a place. -/
def World.tally (w : World T) (role : Pc → Nat) (i : Nat) : Nat :=
  ∑ t ∈ (w.box i).inside, role (w.pc t)

def Mailbox.queued (mb : Mailbox T) : List Message :=
  ringGet ipcQueueSize mb.entries mb.count mb.head

/-- Receivers sleep in a mailbox that is gone, and nobody is left to wake them. -/
def World.Stranded (w : World T) (i : Nat) : Prop :=
  (w.box i).dead = true ∧ (∃ t, w.pc t = .asleep i) ∧
    ∀ t, ((w.pc t).box = some i → w.pc t = .asleep i) ∧ ∀ left next, w.pc t ≠ .retiring i left next

structure MailboxesOk (w : World T) : Prop where
  /-- Every message that was accepted was taken out once or is still there, in the order they were
  accepted. -/
  inOrder : ∀ i, (w.box i).accepted = (w.box i).received ++ (w.box i).queued
  users : ∀ i t, t ∈ (w.box i).inside ↔ (w.pc t).box = some i
  /-- A sender that has not posted yet has its message still in hand. -/
  counted : ∀ i, (w.box i).dead = false →
    (w.box i).items = (w.box i).count - w.tally Pc.posts i - w.tally Pc.past i
  freedOnce : ∀ i, (w.box i).freed = if (w.box i).dead = true ∧ (w.box i).inside = ∅ then 1 else 0
  returns : ∀ i, ¬ w.Stranded i

def World.retires (w : World T) : Step T → Option Nat
  | .enqueue _ (some slot) _ request =>
      (w.mailboxes slot).filter fun i => request.dataSize ≤ ipcMaxDataSize ∧ request.dstPid ≠ 0 ∧
        (w.box i).ownerPid ≠ request.dstPid
  | .receive _ pid (some slot) _ _ => (w.mailboxes slot).filter fun i => (w.box i).ownerPid ≠ pid
  | .releaseOwner _ pid (some slot) => (w.mailboxes slot).filter fun i => (w.box i).ownerPid = pid
  | _ => none

/-- So many posts are enough for the receivers that are not past the semaphore, unless all of them
can give up: there are also the permits, and the posts of the senders that find room. -/
def World.Covers (w : World T) (i posts : Nat) : Prop :=
  w.tally Pc.forever i = 0 ∨ (w.tally Pc.needs i : Int) ≤
    (w.box i).items + posts + w.tally Pc.posts i +
    min (w.tally Pc.sends i) (ipcQueueSize - (w.box i).count)

def RetireCovers (w : World T) (label : Step T) : Prop := ∀ i ∈ w.retires label, w.Covers i 8

instance (w : World T) (i posts : Nat) : Decidable (w.Covers i posts) :=
  inferInstanceAs (Decidable (_ ∨ _))

instance (w : World T) (label : Step T) : Decidable (RetireCovers w label) :=
  inferInstanceAs (Decidable (∀ i ∈ w.retires label, w.Covers i 8))

end Cos.Ipc
