import Mathlib.Data.List.Forall2
import Cos.Linux.UnixQueue
import Mathlib.Tactic.Linarith
import Mathlib.Data.List.Pairwise
import Cos.Lib.Run

/-! # What a unix socket delivers

Bytes, messages and descriptors come out of a queue once and in the order they went in, in every
run that does not queue descriptors without a byte to carry them.
-/

namespace Cos.Linux

open Cos.Lib

namespace UnixEvent

def sent : UnixEvent → List UInt8
  | accepted _ data _ => data
  | _ => []

def got : UnixEvent → List UInt8
  | received _ false data _ _ => data
  | _ => []

def sentFds : UnixEvent → List (List Nat)
  | accepted _ _ fds => if fds = [] then [] else [fds]
  | _ => []

def gotFds : UnixEvent → List (List Nat)
  | received _ false _ fds _ => if fds = [] then [] else [fds]
  | _ => []

def released : UnixEvent → List (List Nat)
  | freed lists => lists
  | _ => []

end UnixEvent

/-- The descriptor lists of a history, each with the number of bytes before it. -/
def listsFrom (bytes : UnixEvent → List UInt8) (lists : UnixEvent → List (List Nat)) :
    Nat → List UnixEvent → List AncEntry
  | _, [] => []
  | at_, event :: rest =>
    (lists event).map (AncEntry.mk at_) ++ listsFrom bytes lists (at_ + (bytes event).length) rest

def sentBytes (events : List UnixEvent) : List UInt8 := events.flatMap UnixEvent.sent
def gotBytes (events : List UnixEvent) : List UInt8 := events.flatMap UnixEvent.got
def releasedLists (events : List UnixEvent) : List (List Nat) := events.flatMap UnixEvent.released

/-- The descriptor lists sent, each with the offset of the first byte of its message. -/
def sentLists : List UnixEvent → List AncEntry := listsFrom UnixEvent.sent UnixEvent.sentFds 0

/-- The descriptor lists handed out, each with the offset of the first byte its receive returned. -/
def handedLists : List UnixEvent → List AncEntry := listsFrom UnixEvent.got UnixEvent.gotFds 0

theorem listsFrom_append {bytes : UnixEvent → List UInt8} {lists : UnixEvent → List (List Nat)}
    {at_ : Nat} (events more : List UnixEvent) :
    listsFrom bytes lists at_ (events ++ more) =
      listsFrom bytes lists at_ events ++ listsFrom bytes lists (at_ + (events.flatMap bytes).length) more := by
  induction events generalizing at_ with
  | nil => rfl
  | cons event rest ih =>
      rw [List.cons_append, listsFrom, listsFrom, ih, List.append_assoc, List.flatMap_cons,
        List.length_append, Nat.add_assoc]

theorem sentLists_snoc (events : List UnixEvent) (event : UnixEvent) :
    sentLists (events ++ [event]) =
      sentLists events ++ event.sentFds.map (AncEntry.mk (sentBytes events).length) := by
  rw [sentLists, listsFrom_append, listsFrom, listsFrom, List.append_nil, Nat.zero_add]
  rfl

theorem handedLists_snoc (events : List UnixEvent) (event : UnixEvent) :
    handedLists (events ++ [event]) =
      handedLists events ++ event.gotFds.map (AncEntry.mk (gotBytes events).length) := by
  rw [handedLists, listsFrom_append, listsFrom, listsFrom, List.append_nil, Nat.zero_add]
  rfl

theorem sentBytes_snoc (events : List UnixEvent) (event : UnixEvent) :
    sentBytes (events ++ [event]) = sentBytes events ++ event.sent := by
  simp [sentBytes]

theorem gotBytes_snoc (events : List UnixEvent) (event : UnixEvent) :
    gotBytes (events ++ [event]) = gotBytes events ++ event.got := by
  simp [gotBytes]

theorem releasedLists_snoc (events : List UnixEvent) (event : UnixEvent) :
    releasedLists (events ++ [event]) = releasedLists events ++ event.released := by
  simp [releasedLists]

theorem sentFds_tag (number : Nat) (data : List UInt8) (fds : List Nat) (at_ : Nat) :
    (UnixEvent.accepted number data fds).sentFds.map (AncEntry.mk at_) = if fds = [] then []
    else [⟨at_, fds⟩] := by
  rw [UnixEvent.sentFds]
  split <;> rfl

theorem UPipe.tag_fields (q : UPipe) (fds : List Nat) :
    (q.tag fds).buf = q.buf ∧ (q.tag fds).cap = q.cap ∧ (q.tag fds).len = q.len ∧ (q.tag fds).head = q.head ∧
      (q.tag fds).packet = q.packet ∧ (q.tag fds).wtotal = q.wtotal ∧ (q.tag fds).rtotal =
      q.rtotal ∧ (q.tag fds).anc = q.anc ++ if fds = [] then [] else [⟨q.wtotal, fds⟩] := by
  rw [UPipe.tag]
  split <;> simp

def UPipe.content (q : UPipe) : List UInt8 := ringGet q.cap q.buf q.len q.head

def plainRecv (room : Nat) (fit : Option Nat) : UnixOp := .recv room false false false false fit

structure StreamDelivers (state : UnixQueue) : Prop where
  bytes : gotBytes state.events <+: sentBytes state.events
  /-- Each list sent was handed out with the first byte of its message, or released with the pipe,
  or waits in the queue. -/
  handed : ∃ left, sentLists state.events = handedLists state.events ++ left ∧
    left.map AncEntry.fds = releasedLists state.events ++ state.pipe.anc.map AncEntry.fds
  once : (sentLists state.events).Pairwise fun first second => first.at_ < second.at_
  carried : ∀ room data fds trunc, .received room false data fds trunc ∈ state.events → fds ≠ [] →
    data ≠ []
  reachable : ∀ room, 0 < room →
    ∃ fits : List (Option Nat), (runSteps unixStep state (fits.map (plainRecv room))).pipe.anc = []

structure UnixMessage where
  data : List UInt8
  fds : List Nat

/-- What a receive of a packet socket returned to a buffer of the given size. -/
structure UnixReceipt where
  room : Nat
  data : List UInt8
  fds : List Nat
  trunc : Bool

def UnixEvent.message : UnixEvent → Option UnixMessage
  | .accepted _ data fds => some ⟨data, fds⟩
  | _ => none

def UnixEvent.receipt : UnixEvent → Option UnixReceipt
  | .received room false data fds trunc => some ⟨room, data, fds, trunc⟩
  | _ => none

/-- The receipt is the message, whole or cut with the truncation flag, and its descriptors. -/
structure ReceivedAs (message : UnixMessage) (receipt : UnixReceipt) : Prop where
  data : receipt.data = message.data.take receipt.room
  trunc : receipt.trunc = decide (receipt.room < message.data.length)
  fds : receipt.fds = message.fds

def carriedLists (messages : List UnixMessage) : List (List Nat) :=
  (messages.map UnixMessage.fds).filter fun fds => fds ≠ []

structure PacketDelivers (state : UnixQueue) : Prop where
  messages : ∃ taken left, state.events.filterMap UnixEvent.message = taken ++ left ∧
    List.Forall₂ ReceivedAs taken (state.events.filterMap UnixEvent.receipt) ∧
    carriedLists left = releasedLists state.events ++ state.pipe.anc.map AncEntry.fds
  reachable : ∀ room, ∃ fits : List (Option Nat),
    (runSteps unixStep state (fits.map (plainRecv room))).pipe.anc = []

def callParts (number : Nat) (events : List UnixEvent) : List (List UInt8 × List Nat) :=
  events.filterMap fun
    | .accepted call data fds => if call = number then some (data, fds) else none
    | _ => none

/-- A call has queued the bytes it counts, its descriptors with the first of them, and it returns
what it queued. -/
structure CallSound (number : Nat) (call : SendCall) (events : List UnixEvent) : Prop where
  bytes : (callParts number events).flatMap Prod.fst = call.data.take call.done
  bound : call.done ≤ call.data.length
  lists : callParts number events = [] ∨
    ∃ more, (callParts number events).map Prod.snd = call.fds :: List.replicate more []
  begun : call.done ≠ 0 → callParts number events ≠ []
  fresh : call.result = none → call.done = 0 → callParts number events = []
  result : ∀ value, call.result = some value →
    (value = call.done ∧ (call.fds ≠ [] → callParts number events ≠ [])) ∨
      (value < 0 ∧ callParts number events = [])

structure CallsSound (state : UnixQueue) : Prop where
  calls : ∀ number call, state.calls[number]? = some call → CallSound number call state.events
  numbered : ∀ number, state.calls.length ≤ number → callParts number state.events = []
  whole : state.pipe.packet = true → ∀ call ∈ state.calls, call.result = none → call.done = 0

/-- Descriptors on a stream are sent with at least one byte and received into a buffer with room
for one; what receives them has room for all of them; and fewer than `2 ^ 64` bytes go through the
queue. -/
def unixAllowed (state : UnixQueue) : UnixOp → Prop
  | .send data fds _ _ => state.pipe.packet = false → data = [] → fds = []
  | .sendTurn number _ => ∀ call, state.calls[number]? = some call →
      state.pipe.wtotal + call.data.length + 4 < 2 ^ 64
  | .recv room peek _ _ _ fit => peek = false → ∀ entry, state.pipe.atRead = some entry →
      entry.fds.length ≤ fit.getD 0 ∧ (state.pipe.packet = false → room ≠ 0)
  | .dropReader | .dropWriter | .free => True

def pairAllowed (state : Bool → UnixQueue) (op : Bool × UnixOp) : Prop :=
  unixAllowed (state op.1) op.2

section Calls

variable {state : UnixQueue} {q : UPipe} {call after : SendCall} {events more : List UnixEvent}
  {number : Nat}

theorem callParts_append (number : Nat) (events more : List UnixEvent) :
    callParts number (events ++ more) = callParts number events ++ callParts number more := by
  simp [callParts]

theorem callParts_accepted (number call : Nat) (data : List UInt8) (fds : List Nat) :
    callParts number [.accepted call data fds] = if call = number then [(data, fds)] else [] := by
  rw [callParts, List.filterMap_cons, List.filterMap_nil]
  split <;> simp_all

theorem CallSound.events_congr (sound : CallSound number call events)
    (same : callParts number more = callParts number events) : CallSound number call more := by
  obtain ⟨bytes, bound, lists, begun, fresh, result⟩ := sound
  exact ⟨same ▸ bytes, bound, same ▸ lists, same ▸ begun, same ▸ fresh, same ▸ result⟩

theorem CallSound.returns (sound : CallSound number call events) (running : call.result = none)
    {result : Option Int}
    (honest : ∀ value, result = some value → (call.done ≠ 0 ∧ value = call.done) ∨
    (call.done = 0 ∧ value < 0)) : CallSound number { call with result := result } events := by
  refine ⟨sound.bytes, sound.bound, sound.lists, sound.begun, fun _ => sound.fresh running,
    fun value returned => ?_⟩
  rcases honest value returned with ⟨some_, same⟩ | ⟨none_, negative⟩
  · exact .inl ⟨same, fun _ => sound.begun some_⟩
  · exact .inr ⟨negative, sound.fresh running none_⟩

theorem giveUp_honest {interrupted : Bool} (value : Int)
    (returned : call.giveUp interrupted = some value) :
    (call.done ≠ 0 ∧ value = call.done) ∨ (call.done = 0 ∧ value < 0) := by
  rw [SendCall.giveUp] at returned
  split at returned
  · rename_i started
    exact .inl ⟨started.1, (Option.some.inj returned).symm⟩
  · rename_i notStarted
    rcases Nat.eq_zero_or_pos call.done with zero | positive
    · refine .inr ⟨zero, ?_⟩
      split at returned
      · rw [← Option.some.inj returned]
        decide
      · split at returned
        · rw [← Option.some.inj returned]
          decide
        · contradiction
    · simp only [not_and_or, not_or] at notStarted
      have idle := notStarted.resolve_left (by omega)
      simp [idle.1, idle.2] at returned

theorem packetTurn_sound {interrupted : Bool} (sound : CallSound number call events)
    (running : call.result = none) (unstarted : call.done = 0) :
    CallSound number (packetTurn number interrupted call q).1
      (events ++ (packetTurn number interrupted call q).2.2) := by
  have none_ := sound.fresh running unstarted
  rw [packetTurn]
  split
  · rw [List.append_nil]
    exact sound.returns running fun value returned => .inr ⟨unstarted, by rw [← Option.some.inj returned]; decide⟩
  · split
    · have parts : callParts number (events ++ [.accepted number call.data call.fds]) = [(call.data, call.fds)] := by
        rw [callParts_append, none_, callParts_accepted, if_pos rfl, List.nil_append]
      refine ⟨?_, le_rfl, ?_, ?_, ?_, ?_⟩
      · rw [parts]
        simp
      · exact .inr ⟨0, by rw [parts]; rfl⟩
      · rw [parts]
        simp
      · simp
      · intro value returned
        exact .inl ⟨(Option.some.inj returned).symm, fun _ => by rw [parts]; simp⟩
    · rw [List.append_nil]
      exact sound.returns running giveUp_honest

theorem streamTurn_sound {interrupted : Bool} (sound : CallSound number call events)
    (running : call.result = none) : CallSound number (streamTurn number interrupted call q).1
      (events ++ (streamTurn number interrupted call q).2.2) := by
  rw [streamTurn]
  split
  · rw [List.append_nil]
    refine sound.returns running fun value returned => ?_
    split at returned
    · rename_i started
      exact .inl ⟨started, (Option.some.inj returned).symm⟩
    · rename_i notStarted
      exact .inr ⟨not_not.mp notStarted, by rw [← Option.some.inj returned]; decide⟩
  · split
    · rename_i room
      dsimp only
      obtain ⟨k, isK⟩ : ∃ k, min (call.data.length - call.done) (q.cap - q.len) = k := ⟨_, rfl⟩
      rw [isK]
      have bound := sound.bound
      have parts : callParts number (events ++ [.accepted number ((call.data.drop call.done).take k)
          (if call.done = 0 then call.fds else [])]) = callParts number events ++
            [((call.data.drop call.done).take k, if call.done = 0 then call.fds else [])] := by
        rw [callParts_append, callParts_accepted, if_pos rfl]
      refine ⟨?_, ?_, ?_, ?_, ?_, ?_⟩
      · rw [parts, List.flatMap_append, sound.bytes, List.take_add]
        simp
      · dsimp only
        omega
      · right
        rw [parts, List.map_append]
        rcases Nat.eq_zero_or_pos call.done with zero | positive
        · rw [sound.fresh running zero]
          exact ⟨0, by simp [zero]⟩
        · obtain ⟨count, same⟩ := sound.lists.resolve_left (sound.begun (by omega))
          refine ⟨count + 1, ?_⟩
          rw [same, List.cons_append, List.replicate_succ']
          simp [show call.done ≠ 0 by omega]
      · rw [parts]
        simp
      · intro unfinished zero
        dsimp only at unfinished zero
        split at unfinished
        · omega
        · contradiction
      · intro value returned
        left
        dsimp only at returned
        split at returned
        · contradiction
        · exact ⟨(Option.some.inj returned).symm, fun _ => by rw [parts]; simp⟩
    · rw [List.append_nil]
      exact sound.returns running giveUp_honest

theorem sendTurn_events (number : Nat) (interrupted : Bool) (call : SendCall) (q : UPipe) :
    (∀ other, other ≠ number → callParts other (sendTurn number interrupted call q).2.2 = []) ∧
      (sendTurn number interrupted call q).2.1.packet = q.packet ∧
      (q.packet = true → (sendTurn number interrupted call q).1.result = none →
        (sendTurn number interrupted call q).1.done = call.done) := by
  have tagged : ∀ fds data, ((q.tag fds).put data).packet = q.packet := by
    intro fds data
    rw [UPipe.put, UPipe.tag]
    split <;> rfl
  have others : ∀ other data fds, other ≠ number →
    callParts other [.accepted number data fds] = [] := by
    intro other data fds different
    rw [callParts_accepted, if_neg different.symm]
  have quiet : ∀ other, callParts other [] = [] := fun _ => rfl
  rw [sendTurn]
  split
  · rw [packetTurn]
    split
    · exact ⟨fun other _ => quiet other, rfl, fun _ _ => rfl⟩
    · split
      · exact ⟨fun other => others other _ _, tagged _ _, fun _ running => by contradiction⟩
      · exact ⟨fun other _ => quiet other, rfl, fun _ _ => rfl⟩
  · rename_i stream
    rw [streamTurn]
    split
    · exact ⟨fun other _ => quiet other, rfl, fun _ _ => rfl⟩
    · split
      · exact ⟨fun other => others other _ _, tagged _ _, fun packet => absurd packet stream⟩
      · exact ⟨fun other _ => quiet other, rfl, fun _ _ => rfl⟩

theorem unixStep_sendTurn (state : UnixQueue) (number : Nat) (interrupted : Bool) :
    unixStep state (.sendTurn number interrupted) = state ∨
      ∃ call, state.calls[number]? = some call ∧ call.result = none ∧
        unixStep state (.sendTurn number interrupted) =
          ⟨(sendTurn number interrupted call state.pipe).2.1,
            state.calls.set number (sendTurn number interrupted call state.pipe).1,
            state.events ++ (sendTurn number interrupted call state.pipe).2.2⟩ := by
  rw [unixStep]
  cases found : (state.calls[number]?).filter fun call => call.result = none with
  | none => exact .inl rfl
  | some call =>
      obtain ⟨here, running⟩ := Option.filter_eq_some_iff.mp found
      exact .inr ⟨call, here, of_decide_eq_true running, rfl⟩

theorem CallsSound.sendTurn {interrupted : Bool} (sound : CallsSound state) :
    CallsSound (unixStep state (.sendTurn number interrupted)) := by
  rcases unixStep_sendTurn state number interrupted with same | ⟨call, here, running, isStep⟩
  · rw [same]
    exact sound
  · obtain ⟨others, packet, done⟩ := sendTurn_events number interrupted call state.pipe
    have here' := sound.calls number call here
    have member := List.mem_of_getElem? here
    have own : CallSound number (Linux.sendTurn number interrupted call state.pipe).1
        (state.events ++ (Linux.sendTurn number interrupted call state.pipe).2.2) := by
      rw [Linux.sendTurn]
      split
      · rename_i isPacket
        exact packetTurn_sound here' running (sound.whole isPacket call member running)
      · exact streamTurn_sound here' running
    rw [isStep]
    refine ⟨fun other after found => ?_, fun other beyond => ?_, fun isPacket after listed unfinished => ?_⟩
    · rcases eq_or_ne other number with rfl | different
      · rw [List.getElem?_set_self (List.getElem?_eq_some_iff.mp here).1] at found
        rw [← Option.some.inj found]
        exact own
      · rw [List.getElem?_set_ne different.symm] at found
        refine (sound.calls other after found).events_congr ?_
        rw [callParts_append, others other different, List.append_nil]
    · rw [List.length_set] at beyond
      have inside := (List.getElem?_eq_some_iff.mp here).1
      rw [callParts_append, others other (by omega), List.append_nil]
      exact sound.numbered other beyond
    · rw [packet] at isPacket
      rcases List.mem_or_eq_of_mem_set listed with old | rfl
      · exact sound.whole isPacket after old unfinished
      · rw [done isPacket unfinished]
        exact sound.whole isPacket call member running

theorem CallsSound.quiet {pipe : UPipe} (sound : CallsSound state)
    (packet : pipe.packet = state.pipe.packet) (silent : ∀ number, callParts number more = []) :
    CallsSound ⟨pipe, state.calls, state.events ++ more⟩ := by
  have same : ∀ number, callParts number (state.events ++ more) =
    callParts number state.events := by
    intro number
    rw [callParts_append, silent, List.append_nil]
  exact ⟨fun number call found => (sound.calls number call found).events_congr (same number),
    fun number beyond => (same number).trans (sound.numbered number beyond), packet ▸ sound.whole⟩

theorem CallsSound.send {data : List UInt8} {fds : List Nat} {shut nb : Bool}
    (sound : CallsSound state) : CallsSound (unixStep state (.send data fds shut nb)) := by
  rw [unixStep]
  refine ⟨fun number call found => ?_, fun number beyond => ?_,
    fun packet call listed running => ?_⟩
  · rw [List.getElem?_append] at found
    split at found
    · exact sound.calls number call found
    · have none_ := sound.numbered number (by omega)
      rw [List.getElem?_singleton] at found
      split at found
      · rw [← Option.some.inj found]
        refine ⟨by rw [none_]; rfl, Nat.zero_le _, .inl none_, by simp, fun _ _ => none_, fun value returned => ?_⟩
        rw [sendRefused] at returned
        split at returned
        · exact .inr ⟨by rw [← Option.some.inj returned]; decide, none_⟩
        · split at returned
          · exact .inr ⟨by rw [← Option.some.inj returned]; decide, none_⟩
          · split at returned
            · split at returned
              · exact .inr ⟨by rw [← Option.some.inj returned]; decide, none_⟩
              · contradiction
            · split at returned
              · rename_i empty
                exact .inl ⟨(Option.some.inj returned).symm, fun some_ => absurd empty.2 some_⟩
              · contradiction
      · contradiction
  · rw [List.length_append] at beyond
    exact sound.numbered number (by omega)
  · rcases List.mem_append.mp listed with old | new
    · exact sound.whole packet call old running
    · rw [List.mem_singleton.mp new]

theorem recvTurn_packet {shut nb interrupted wants peek : Bool} {room : Nat} :
    (recvTurn shut nb interrupted wants room peek q).2.packet = q.packet := by
  rw [recvTurn]
  split
  · rfl
  · dsimp only
    split <;> rfl

theorem CallsSound.step (sound : CallsSound state) (op : UnixOp) :
    CallsSound (unixStep state op) := by
  have plain : ∀ pipe : UPipe, pipe.packet = state.pipe.packet →
    CallsSound ⟨pipe, state.calls, state.events⟩ := by
    intro pipe packet
    have quiet := @CallsSound.quiet state [] pipe sound packet fun _ => rfl
    rwa [List.append_nil] at quiet
  cases op with
  | send data fds shut nb => exact sound.send
  | sendTurn number interrupted => exact sound.sendTurn
  | recv room peek shut nb interrupted fit =>
      refine sound.quiet recvTurn_packet fun number => ?_
      cases (recvTurn shut nb interrupted fit.isSome room peek state.pipe).1 with
      | waits => rfl
      | returns value => rfl
      | takes data fds closed trunc =>
          simp only [RecvOutcome.install, RecvOutcome.events]
          split <;> rfl
  | dropReader => exact plain _ rfl
  | dropWriter => exact plain _ rfl
  | free =>
      rw [unixStep]
      split
      · exact sound.quiet rfl fun _ => rfl
      · exact sound

end Calls

section Stream

variable {state : UnixQueue} {q : UPipe} {number room : Nat}

structure StreamLive (state : UnixQueue) : Prop where
  stream : state.pipe.packet = false
  fits : state.pipe.len ≤ state.pipe.cap
  written : state.pipe.wtotal = (sentBytes state.events).length
  read : state.pipe.rtotal = (gotBytes state.events).length
  small : state.pipe.wtotal < 2 ^ 64
  bytes : sentBytes state.events = gotBytes state.events ++ state.pipe.content
  lists : sentLists state.events = handedLists state.events ++ state.pipe.anc
  once : (sentLists state.events).Pairwise fun first second => first.at_ < second.at_
  sentAt : ∀ entry ∈ sentLists state.events, entry.at_ < state.pipe.wtotal ∧ entry.fds ≠ []
  waiting : ∀ entry ∈ state.pipe.anc, state.pipe.rtotal ≤ entry.at_
  unfreed : releasedLists state.events = []
  carried : ∀ room data fds trunc, .received room false data fds trunc ∈ state.events → fds ≠ [] →
    data ≠ []
  carriers : ∀ call ∈ state.calls, call.fds ≠ [] → call.data ≠ []

theorem StreamLive.total (live : StreamLive state) :
    state.pipe.wtotal = state.pipe.rtotal + state.pipe.len := by
  rw [live.written, live.bytes, List.length_append, ← live.read, UPipe.content, ringGet_length]

/-- The part of the invariant that is left when the pipe is freed. -/
structure StreamFreed (state : UnixQueue) : Prop where
  stream : state.pipe.packet = false
  empty : state.pipe.len = 0
  noLists : state.pipe.anc = []
  noReaders : state.pipe.readers ≤ 0
  bytes : gotBytes state.events <+: sentBytes state.events
  lists : ∃ left, sentLists state.events = handedLists state.events ++ left ∧
    left.map AncEntry.fds = releasedLists state.events
  once : (sentLists state.events).Pairwise fun first second => first.at_ < second.at_
  carried : ∀ room data fds trunc, .received room false data fds trunc ∈ state.events → fds ≠ [] →
    data ≠ []

theorem StreamLive.put {chunk : List UInt8} {fds : List Nat} {calls : List SendCall}
    (live : StreamLive state) (room : chunk.length ≤ state.pipe.cap - state.pipe.len)
    (small : state.pipe.wtotal + chunk.length < 2 ^ 64) (carrier : fds ≠ [] → chunk ≠ [])
    (carriers : ∀ call ∈ calls, call.fds ≠ [] → call.data ≠ []) :
    StreamLive ⟨(state.pipe.tag fds).put chunk, calls,
    state.events ++ [.accepted number chunk fds]⟩ := by
  have fits := live.fits
  obtain ⟨isBuf, isCap, isLen, isHead, isPacket, isW, isR, isAnc⟩ := state.pipe.tag_fields fds
  rw [← sentFds_tag number chunk] at isAnc
  have total : add64 (state.pipe.tag fds).wtotal chunk.length =
    state.pipe.wtotal + chunk.length := by
    rw [isW]
    exact add64_of_lt small
  have new : ∀ entry ∈ (UnixEvent.accepted number chunk fds).sentFds.map
      (AncEntry.mk state.pipe.wtotal), entry = ⟨state.pipe.wtotal, fds⟩ ∧ fds ≠ [] := by
    intro entry member
    rw [UnixEvent.sentFds] at member
    split at member
    · contradiction
    · rename_i nonempty
      exact ⟨List.mem_singleton.mp member, nonempty⟩
  refine ⟨isPacket.trans live.stream, ?_, ?_, ?_, ?_, ?_, ?_, ?_, ?_, ?_, ?_, ?_, carriers⟩
  · show (state.pipe.tag fds).len + chunk.length ≤ (state.pipe.tag fds).cap
    omega
  · rw [sentBytes_snoc, List.length_append, ← live.written]
    exact total
  · rw [gotBytes_snoc, List.length_append, ← live.read]
    exact isR
  · exact total.trans_lt small
  · rw [sentBytes_snoc, gotBytes_snoc, live.bytes]
    simp only [UnixEvent.got, UnixEvent.sent, List.append_nil, UPipe.content, UPipe.put]
    rw [isBuf, isCap, isLen, isHead, ringGet_append (by omega), List.append_assoc]
  · rw [sentLists_snoc, handedLists_snoc, live.lists, ← live.written, List.append_assoc]
    simp only [UPipe.put, UnixEvent.gotFds, List.map_nil, List.append_nil]
    rw [isAnc]
  · rw [sentLists_snoc, ← live.written, List.pairwise_append]
    refine ⟨live.once, ?_, fun first before second after => ?_⟩
    · rw [UnixEvent.sentFds]
      split <;> simp
    · rw [(new second after).1]
      exact (live.sentAt first before).1
  · intro entry member
    rw [sentLists_snoc, ← live.written] at member
    show entry.at_ < add64 (state.pipe.tag fds).wtotal chunk.length ∧ _
    rcases List.mem_append.mp member with old | added
    · obtain ⟨below, nonempty⟩ := live.sentAt entry old
      exact ⟨by omega, nonempty⟩
    · obtain ⟨isEntry, nonempty⟩ := new entry added
      have positive := List.length_pos_iff.mpr (carrier nonempty)
      rw [isEntry]
      exact ⟨by dsimp only; omega, nonempty⟩
  · intro entry member
    have member' : entry ∈ (state.pipe.tag fds).anc := member
    show (state.pipe.tag fds).rtotal ≤ entry.at_
    rw [isAnc] at member'
    rw [isR]
    rcases List.mem_append.mp member' with old | added
    · exact live.waiting entry old
    · rw [(new entry added).1]
      have := live.total
      dsimp only
      omega
  · rw [releasedLists_snoc, live.unfreed]
    rfl
  · intro room data lists trunc member nonempty
    rcases List.mem_append.mp member with old | added
    · exact live.carried room data lists trunc old nonempty
    · simp at added

theorem streamTake_le (sorted : q.anc.Pairwise fun first second => first.at_ < second.at_)
    {entry : AncEntry} (member : entry ∈ q.anc) (later : q.rtotal < entry.at_) :
    q.rtotal + q.streamTake room ≤ entry.at_ := by
  rw [UPipe.streamTake]
  cases found : q.anc.find? fun entry => q.rtotal < entry.at_ with
  | none =>
      have none_ := List.find?_eq_none.mp found entry member
      simp [later] at none_
  | some first =>
      obtain ⟨isLater, before, after, same, early⟩ := List.find?_eq_some_iff_append.mp found
      have least : first.at_ ≤ entry.at_ := by
        rw [same] at member sorted
        rcases List.mem_append.mp member with old | new
        · have none_ := early entry old
          simp [later] at none_
        · rcases List.mem_cons.mp new with rfl | behind
          · exact le_rfl
          · have rest := (List.pairwise_append.mp sorted).2.1
            exact ((List.pairwise_cons.mp rest).1 entry behind).le
      dsimp only
      omega

theorem streamTake_le_len : q.streamTake room ≤ q.len := by
  rw [UPipe.streamTake]
  split <;> omega

theorem streamTake_pos (queued : q.len ≠ 0) (positive : 0 < room) : 0 < q.streamTake room := by
  rw [UPipe.streamTake]
  split
  · rename_i entry found
    have later := List.find?_some found
    have strictly : q.rtotal < entry.at_ := of_decide_eq_true later
    omega
  · omega

theorem atRead_cases (sorted : q.anc.Pairwise fun first second => first.at_ < second.at_)
    (waiting : ∀ entry ∈ q.anc, q.rtotal ≤ entry.at_) :
    (q.atRead = none ∧ ∀ entry ∈ q.anc, q.rtotal < entry.at_) ∨
      ∃ entry rest, q.anc = entry :: rest ∧ entry.at_ = q.rtotal ∧ q.atRead = some entry ∧
        ∀ later ∈ rest, q.rtotal < later.at_ := by
  cases isAnc : q.anc with
  | nil => exact .inl ⟨by simp [UPipe.atRead, isAnc], by simp⟩
  | cons entry rest =>
      rw [isAnc] at sorted waiting
      obtain ⟨first, _⟩ := List.pairwise_cons.mp sorted
      have least := waiting entry (by simp)
      rcases Nat.eq_or_lt_of_le least with here | before
      · refine .inr ⟨entry, rest, rfl, here.symm, ?_, fun later member => here ▸ first later member⟩
        simp [UPipe.atRead, isAnc, here.symm]
      · refine .inl ⟨?_, fun other member => ?_⟩
        · simp only [UPipe.atRead, isAnc, List.head?_cons, Option.filter_some]
          rw [if_neg]
          simp only [decide_eq_true_eq]
          omega
        · rcases List.mem_cons.mp member with rfl | behind
          · exact before
          · exact before.trans (first other behind)

theorem StreamLive.take (live : StreamLive state) (queued : state.pipe.len ≠ 0)
    (roomy : room = 0 → state.pipe.atRead = none) (trunc : Bool) :
    StreamLive ⟨state.pipe.advance (state.pipe.streamTake room), state.calls, state.events ++
      [.received room false (ringGet state.pipe.cap state.pipe.buf (state.pipe.streamTake room) state.pipe.head)
        ((state.pipe.atRead.map AncEntry.fds).getD []) trunc]⟩ := by
  have ancSorted : state.pipe.anc.Pairwise fun first second => first.at_ < second.at_ := by
    have once := live.once
    rw [live.lists] at once
    exact (List.pairwise_append.mp once).2.1
  have total := live.total
  have small := live.small
  have within := @streamTake_le_len state.pipe room
  obtain ⟨taken, isTaken⟩ : ∃ taken, state.pipe.streamTake room = taken := ⟨_, rfl⟩
  rw [isTaken] at within ⊢
  have read : add64 state.pipe.rtotal taken = state.pipe.rtotal + taken := add64_of_lt (by omega)
  -- the descriptors that leave the queue are those the receive hands out
  have leaves : state.pipe.anc = (UnixEvent.received room false
      (ringGet state.pipe.cap state.pipe.buf taken state.pipe.head)
      ((state.pipe.atRead.map AncEntry.fds).getD [])
        trunc).gotFds.map (AncEntry.mk state.pipe.rtotal) ++ (state.pipe.advance taken).anc ∧
      (∀ later ∈ (state.pipe.advance taken).anc, state.pipe.rtotal < later.at_) ∧
      ((state.pipe.atRead.map AncEntry.fds).getD [] ≠ [] → 0 < taken) := by
    rcases atRead_cases ancSorted live.waiting with ⟨isNone, later⟩ | ⟨entry, rest, isAnc, here, isSome, later⟩
    · simp only [UPipe.advance, isNone]
      exact ⟨by simp [UnixEvent.gotFds], later, by simp⟩
    · have nonempty : entry.fds ≠ [] := by
        refine (live.sentAt entry ?_).2
        rw [live.lists, isAnc]
        simp
      simp only [UPipe.advance, isSome, isAnc]
      refine ⟨?_, by simpa using later, fun _ => ?_⟩
      · simp [UnixEvent.gotFds, nonempty, ← here]
      · rw [← isTaken]
        refine streamTake_pos queued (Nat.pos_of_ne_zero fun zero => ?_)
        rw [roomy zero] at isSome
        contradiction
  obtain ⟨isAnc, later, carried⟩ := leaves
  refine ⟨live.stream, ?_, ?_, ?_, small, ?_, ?_, ?_, ?_, ?_, ?_, ?_, live.carriers⟩
  · show state.pipe.len - taken ≤ state.pipe.cap
    have := live.fits
    omega
  · rw [sentBytes_snoc, List.length_append, ← live.written]
    rfl
  · rw [gotBytes_snoc, List.length_append, ← live.read]
    simp only [UnixEvent.got, ringGet_length]
    exact read
  · rw [sentBytes_snoc, gotBytes_snoc, live.bytes]
    simp only [UnixEvent.got, UnixEvent.sent, List.append_nil, UPipe.content, UPipe.advance, List.append_assoc]
    rw [ringGet_mod, ← ringGet_add, Nat.add_sub_cancel' within]
  · rw [sentLists_snoc, handedLists_snoc, live.lists, ← live.read, List.append_assoc, List.append_assoc]
    rw [← isAnc]
    simp [UnixEvent.sentFds]
  · rw [sentLists_snoc]
    simpa [UnixEvent.sentFds] using live.once
  · intro entry member
    rw [sentLists_snoc] at member
    exact live.sentAt entry (by simpa [UnixEvent.sentFds] using member)
  · intro entry member
    show add64 state.pipe.rtotal taken ≤ entry.at_
    rw [read, ← isTaken]
    refine streamTake_le ancSorted ?_ (later entry member)
    rw [isAnc]
    exact List.mem_append_right _ member
  · rw [releasedLists_snoc, live.unfreed]
    rfl
  · intro room' data fds trunc' member nonempty
    rcases List.mem_append.mp member with old | new
    · exact live.carried room' data fds trunc' old nonempty
    · simp only [List.mem_singleton, UnixEvent.received.injEq] at new
      obtain ⟨_, _, isData, isFds, _⟩ := new
      have positive := carried (isFds ▸ nonempty)
      intro isNil
      rw [isData] at isNil
      have length := congrArg List.length isNil
      rw [ringGet_length, List.length_nil] at length
      omega

theorem StreamLive.recount (live : StreamLive state) (readers writers : Int) :
    StreamLive { state with pipe := { state.pipe with readers := readers, writers := writers } } :=
  ⟨live.stream, live.fits, live.written, live.read, live.small, live.bytes, live.lists, live.once,
    live.sentAt, live.waiting, live.unfreed, live.carried, live.carriers⟩

theorem StreamLive.recall {calls : List SendCall} (live : StreamLive state)
    (carriers : ∀ call ∈ calls, call.fds ≠ [] → call.data ≠ []) :
    StreamLive { state with calls := calls } :=
  ⟨live.stream, live.fits, live.written, live.read, live.small, live.bytes, live.lists, live.once,
    live.sentAt, live.waiting, live.unfreed, live.carried, carriers⟩

theorem StreamLive.peek {data : List UInt8} {fds : List Nat} {trunc : Bool}
    (live : StreamLive state) :
    StreamLive { state with events := state.events ++ [.received room true data fds trunc] } := by
  have sent : sentBytes (state.events ++ [.received room true data fds trunc]) =
    sentBytes state.events := by
    simp [sentBytes_snoc, UnixEvent.sent]
  have got : gotBytes (state.events ++ [.received room true data fds trunc]) =
    gotBytes state.events := by
    simp [gotBytes_snoc, UnixEvent.got]
  have sentL : sentLists (state.events ++ [.received room true data fds trunc]) =
    sentLists state.events := by
    simp [sentLists_snoc, UnixEvent.sentFds]
  have gotL : handedLists (state.events ++ [.received room true data fds trunc]) =
    handedLists state.events := by
    simp [handedLists_snoc, UnixEvent.gotFds]
  have released : releasedLists (state.events ++ [.received room true data fds trunc]) =
    releasedLists state.events := by
    simp [releasedLists_snoc, UnixEvent.released]
  refine ⟨live.stream, live.fits, ?_, ?_, live.small, ?_, ?_, ?_, ?_, live.waiting, ?_, ?_,
    live.carriers⟩
  · rw [sent]
    exact live.written
  · rw [got]
    exact live.read
  · rw [sent, got]
    exact live.bytes
  · rw [sentL, gotL]
    exact live.lists
  · rw [sentL]
    exact live.once
  · rw [sentL]
    exact live.sentAt
  · rw [released]
    exact live.unfreed
  · intro room' data' fds' trunc' member nonempty
    refine live.carried room' data' fds' trunc' ?_ nonempty
    simpa using member

theorem streamTurn_live {interrupted : Bool} {call : SendCall} (live : StreamLive state)
    (here : state.calls[number]? = some call)
    (small : state.pipe.wtotal + call.data.length + 4 < 2 ^ 64) : StreamLive ⟨(streamTurn number interrupted call state.pipe).2.1,
      state.calls.set number (streamTurn number interrupted call state.pipe).1,
      state.events ++ (streamTurn number interrupted call state.pipe).2.2⟩ := by
  have own := live.carriers call (List.mem_of_getElem? here)
  have carriers : ∀ after : SendCall, after.fds = call.fds → after.data = call.data →
      ∀ other ∈ state.calls.set number after, other.fds ≠ [] → other.data ≠ [] := by
    intro after sameFds sameData other member
    rcases List.mem_or_eq_of_mem_set member with old | rfl
    · exact live.carriers other old
    · rw [sameFds, sameData]
      exact own
  rw [streamTurn]
  split
  · rw [List.append_nil]
    exact live.recall (carriers _ rfl rfl)
  · split
    · refine live.put ?_ ?_ ?_ (carriers _ rfl rfl)
      · rw [List.length_take]
        omega
      · rw [List.length_take, List.length_drop]
        omega
      · intro nonempty isNil
        split at nonempty
        · have positive := List.length_pos_iff.mpr (own nonempty)
          have length := congrArg List.length isNil
          rw [List.length_take, List.length_drop, List.length_nil] at length
          omega
        · contradiction
    · rw [List.append_nil]
      exact live.recall (carriers _ rfl rfl)

theorem StreamLive.free (live : StreamLive state) : StreamFreed
    { state with pipe := (pipeFree state.pipe).1, events := state.events ++ (pipeFree state.pipe).2 } := by
  refine ⟨live.stream, rfl, rfl, by simp [pipeFree], ?_, ⟨state.pipe.anc, ?_, ?_⟩, ?_, ?_⟩
  · simp only [pipeFree]
    rw [gotBytes_snoc, sentBytes_snoc, live.bytes]
    simp [UnixEvent.got, UnixEvent.sent]
  · simp only [pipeFree]
    rw [sentLists_snoc, handedLists_snoc, live.lists]
    simp [UnixEvent.sentFds, UnixEvent.gotFds]
  · simp only [pipeFree]
    rw [releasedLists_snoc, live.unfreed]
    simp [UnixEvent.released]
  · simp only [pipeFree]
    rw [sentLists_snoc]
    simpa [UnixEvent.sentFds] using live.once
  · intro room data fds trunc member nonempty
    refine live.carried room data fds trunc ?_ nonempty
    simpa [pipeFree] using member

theorem recv_empty {shut nb interrupted peek : Bool} {fit : Option Nat}
    (empty : state.pipe.len = 0) :
    unixStep state (.recv room peek shut nb interrupted fit) = state := by
  have nothing : ((recvTurn shut nb interrupted fit.isSome room peek state.pipe).1.install (fit.getD 0)).events room peek = [] := by
    rw [recvTurn, if_pos empty]
    split
    · rfl
    · split
      · rfl
      · split
        · rfl
        · rfl
  rw [unixStep, nothing, List.append_nil, recvTurn, if_pos empty]

/-- The caller has room for the descriptors that leave the queue. -/
theorem recv_all {shut nb interrupted peek : Bool} {fit : Option Nat} (queued : state.pipe.len ≠ 0)
    (fits : peek = false → ∀ entry, state.pipe.atRead = some entry →
    entry.fds.length ≤ fit.getD 0) : unixStep state (.recv room peek shut nb interrupted fit) =
      { state with
        pipe := (recvTurn shut nb interrupted true room peek state.pipe).2
        events := state.events ++ (recvTurn shut nb interrupted true room peek state.pipe).1.events room peek } := by
  rw [unixStep, recvTurn, recvTurn, if_neg queued, if_neg queued]
  cases peek with
  | true => simp [RecvOutcome.install, RecvOutcome.events]
  | false =>
      have short : ((state.pipe.atRead.map AncEntry.fds).getD []).length ≤ fit.getD 0 := by
        cases isEntry : state.pipe.atRead with
        | none => exact Nat.zero_le _
        | some entry => exact fits rfl entry isEntry
      cases fit with
      | none =>
          have none_ := List.eq_nil_of_length_eq_zero (Nat.le_zero.mp short)
          simp [RecvOutcome.install, RecvOutcome.events, none_]
      | some space =>
          have inside : ((state.pipe.atRead.map AncEntry.fds).getD []).length ≤ space := short
          simp [RecvOutcome.install, RecvOutcome.events, List.take_of_length_le inside, inside]

theorem StreamLive.recv {shut nb interrupted peek : Bool} {fit : Option Nat}
    (live : StreamLive state)
    (allowed : unixAllowed state (.recv room peek shut nb interrupted fit)) :
    StreamLive (unixStep state (.recv room peek shut nb interrupted fit)) := by
  rcases Nat.eq_zero_or_pos state.pipe.len with empty | queued
  · rw [recv_empty empty]
    exact live
  · rw [recv_all (by omega) fun drains entry here => (allowed drains entry here).1, recvTurn, if_neg (by omega)]
    rw [live.stream]
    cases peek with
    | true => exact live.peek
    | false =>
        refine live.take (by omega) (fun zero => ?_) _
        rw [Option.eq_none_iff_forall_ne_some]
        exact fun entry here => (allowed rfl entry here).2 live.stream zero

theorem StreamLive.step {op : UnixOp} (live : StreamLive state) (allowed : unixAllowed state op) :
    StreamLive (unixStep state op) ∨ StreamFreed (unixStep state op) := by
  cases op with
  | send data fds shut nb =>
      refine .inl (live.recall fun call member => ?_)
      rcases List.mem_append.mp member with old | new
      · exact live.carriers call old
      · rw [List.mem_singleton.mp new]
        exact fun some_ none_ => some_ (allowed live.stream none_)
  | sendTurn number interrupted =>
      rcases unixStep_sendTurn state number interrupted with same | ⟨call, here, running, isStep⟩
      · rw [same]
        exact .inl live
      · rw [isStep, sendTurn, if_neg (by simp [live.stream])]
        exact .inl (streamTurn_live live here (allowed call here))
  | recv room peek shut nb interrupted fit => exact .inl (live.recv allowed)
  | dropReader => exact .inl (live.recount (state.pipe.readers - 1) state.pipe.writers)
  | dropWriter => exact .inl (live.recount state.pipe.readers (state.pipe.writers - 1))
  | free =>
      rw [unixStep]
      split
      · exact .inr live.free
      · exact .inl live

theorem StreamFreed.step {op : UnixOp} (freed : StreamFreed state) :
    StreamFreed (unixStep state op) := by
  have kept : ∀ (calls : List SendCall) (readers writers : Int), readers ≤ 0 →
      StreamFreed { state with pipe := { state.pipe with readers := readers, writers := writers }, calls := calls } :=
    fun calls readers writers none_ => ⟨freed.stream, freed.empty, freed.noLists, none_,
      freed.bytes, freed.lists, freed.once, freed.carried⟩
  have noReaders := freed.noReaders
  cases op with
  | send data fds shut nb => exact kept _ state.pipe.readers state.pipe.writers noReaders
  | sendTurn number interrupted =>
      rcases unixStep_sendTurn state number interrupted with same | ⟨call, here, running, isStep⟩
      · rw [same]
        exact freed
      · rw [isStep, sendTurn, if_neg (by simp [freed.stream]), streamTurn, if_pos noReaders, List.append_nil]
        exact kept _ state.pipe.readers state.pipe.writers noReaders
  | recv room peek shut nb interrupted fit =>
      rw [recv_empty freed.empty]
      exact freed
  | dropReader => exact kept state.calls (state.pipe.readers - 1) state.pipe.writers (by omega)
  | dropWriter => exact kept state.calls state.pipe.readers (state.pipe.writers - 1) noReaders
  | free =>
      rw [unixStep]
      split
      · obtain ⟨left, same, released⟩ := freed.lists
        refine ⟨freed.stream, rfl, rfl, by simp [pipeFree], ?_, ⟨left, ?_, ?_⟩, ?_, ?_⟩
        · simpa [pipeFree, gotBytes_snoc, sentBytes_snoc, UnixEvent.got, UnixEvent.sent] using freed.bytes
        · simpa [pipeFree, sentLists_snoc, handedLists_snoc, UnixEvent.sentFds, UnixEvent.gotFds] using same
        · simpa [pipeFree, releasedLists_snoc, UnixEvent.released, freed.noLists] using released
        · simpa [pipeFree, sentLists_snoc, UnixEvent.sentFds] using freed.once
        · intro room data fds trunc member nonempty
          refine freed.carried room data fds trunc ?_ nonempty
          simpa [pipeFree] using member
      · exact freed

theorem UPipe.roomFor (q : UPipe) :
    ∃ fit : Option Nat, ∀ entry, q.atRead = some entry → entry.fds.length ≤ fit.getD 0 := by
  cases q.atRead with
  | none => exact ⟨none, by simp⟩
  | some entry => exact ⟨some entry.fds.length, fun other same => by rw [Option.some.inj same]; rfl⟩

theorem StreamLive.drains (live : StreamLive state) (positive : 0 < room) :
    ∃ fits : List (Option Nat), (runSteps unixStep state (fits.map (plainRecv room))).pipe.anc =
    [] := by
  obtain ⟨most, isMost⟩ : ∃ most, state.pipe.len = most := ⟨_, rfl⟩
  induction most using Nat.strong_induction_on generalizing state with
  | _ most ih =>
      rcases Nat.eq_zero_or_pos most with empty | queued
      · refine ⟨[], List.eq_nil_iff_forall_not_mem.mpr fun entry member => ?_⟩
        have waits := live.waiting entry member
        have sent := (live.sentAt entry (by rw [live.lists]; exact List.mem_append_right _ member)).1
        have := live.total
        omega
      · obtain ⟨fit, fits⟩ := state.pipe.roomFor
        have next : StreamLive (unixStep state (plainRecv room fit)) :=
          live.recv fun _ entry here => ⟨fits entry here, fun _ => by omega⟩
        have shorter : (unixStep state (plainRecv room fit)).pipe.len < most := by
          have taken := @streamTake_pos state.pipe room (by omega) positive
          rw [plainRecv, unixStep, recvTurn, if_neg (by omega)]
          simp only [live.stream, UPipe.advance, Bool.false_eq_true, if_false]
          omega
        obtain ⟨more, drained⟩ := ih _ shorter next rfl
        exact ⟨fit :: more, drained⟩

theorem StreamLive.delivers (live : StreamLive state) : StreamDelivers state where
  bytes := by
    rw [live.bytes]
    exact List.prefix_append _ _
  handed := ⟨state.pipe.anc, live.lists, by rw [live.unfreed, List.nil_append]⟩
  once := live.once
  carried := live.carried
  reachable := fun _ positive => live.drains positive

theorem StreamFreed.delivers (freed : StreamFreed state) : StreamDelivers state where
  bytes := freed.bytes
  handed := by
    obtain ⟨left, same, released⟩ := freed.lists
    exact ⟨left, same, by rw [released, freed.noLists, List.map_nil, List.append_nil]⟩
  once := freed.once
  carried := freed.carried
  reachable := fun _ _ => ⟨[], freed.noLists⟩

end Stream

section Packet

variable {state : UnixQueue} {q : UPipe} {number room at_ : Nat} {messages : List UnixMessage}

def UnixMessage.frame (message : UnixMessage) : List UInt8 :=
  headerBytes message.data.length ++ message.data

/-- The ancillary entries of queued messages, the first of them at the given offset. -/
def tagsFrom : Nat → List UnixMessage → List AncEntry
  | _, [] => []
  | at_, message :: rest =>
      (if message.fds = [] then [] else [⟨at_, message.fds⟩]) ++ tagsFrom (at_ + message.frame.length) rest

theorem frame_length (message : UnixMessage) : message.frame.length = message.data.length + 4 := by
  rw [UnixMessage.frame, List.length_append, headerBytes, wordBytes_length, Nat.add_comm]

theorem tagsFrom_append (messages more : List UnixMessage) (at_ : Nat) :
    tagsFrom at_ (messages ++ more) =
      tagsFrom at_ messages ++ tagsFrom (at_ + (messages.flatMap UnixMessage.frame).length) more := by
  induction messages generalizing at_ with
  | nil => rfl
  | cons message rest ih =>
      rw [List.cons_append, tagsFrom, tagsFrom, ih, List.append_assoc, List.flatMap_cons,
        List.length_append, Nat.add_assoc]

theorem tagsFrom_later {entry : AncEntry} (member : entry ∈ tagsFrom at_ messages) :
    at_ ≤ entry.at_ := by
  induction messages generalizing at_ with
  | nil => contradiction
  | cons message rest ih =>
      rcases List.mem_append.mp member with here | later
      · split at here
        · contradiction
        · rw [List.mem_singleton.mp here]
      · exact (Nat.le_add_right _ _).trans (ih later)

theorem tagsFrom_fds : (tagsFrom at_ messages).map AncEntry.fds = carriedLists messages := by
  induction messages generalizing at_ with
  | nil => rfl
  | cons message rest ih =>
      rw [tagsFrom, List.map_append, ih, carriedLists, carriedLists, List.map_cons, List.filter_cons]
      split
      · rename_i empty
        simp [empty]
      · rename_i nonempty
        simp [nonempty]

structure PacketLive (state : UnixQueue) (taken queued : List UnixMessage) : Prop where
  packet : state.pipe.packet = true
  capacity : state.pipe.cap ≤ 2 ^ 31
  fits : state.pipe.len ≤ state.pipe.cap
  total : state.pipe.wtotal = state.pipe.rtotal + state.pipe.len
  small : state.pipe.wtotal < 2 ^ 64
  sent : state.events.filterMap UnixEvent.message = taken ++ queued
  received : List.Forall₂ ReceivedAs taken (state.events.filterMap UnixEvent.receipt)
  content : state.pipe.content = queued.flatMap UnixMessage.frame
  lists : state.pipe.anc = tagsFrom state.pipe.rtotal queued
  unfreed : releasedLists state.events = []

structure PacketFreed (state : UnixQueue) : Prop where
  packet : state.pipe.packet = true
  empty : state.pipe.len = 0
  noLists : state.pipe.anc = []
  noReaders : state.pipe.readers ≤ 0
  messages : ∃ taken left, state.events.filterMap UnixEvent.message = taken ++ left ∧
    List.Forall₂ ReceivedAs taken (state.events.filterMap UnixEvent.receipt) ∧
    carriedLists left = releasedLists state.events

variable {taken queued : List UnixMessage}

theorem PacketLive.put {data : List UInt8} {fds : List Nat} {calls : List SendCall}
    (live : PacketLive state taken queued)
    (room : data.length + 4 ≤ state.pipe.cap - state.pipe.len)
    (small : state.pipe.wtotal + data.length + 4 < 2 ^ 64) : PacketLive ⟨(state.pipe.tag fds).put (headerBytes data.length ++ data), calls,
      state.events ++ [.accepted number data fds]⟩ taken (queued ++ [⟨data, fds⟩]) := by
  have length : (headerBytes data.length ++ data).length = data.length + 4 :=
    frame_length ⟨data, fds⟩
  have queuedLength : (queued.flatMap UnixMessage.frame).length = state.pipe.len := by
    rw [← live.content, UPipe.content, ringGet_length]
  obtain ⟨isBuf, isCap, isLen, isHead, isPacket, isW, isR, isAnc⟩ := state.pipe.tag_fields fds
  have total : add64 (state.pipe.tag fds).wtotal (headerBytes data.length ++ data).length =
      state.pipe.wtotal + (data.length + 4) := by
    rw [isW, length]
    exact add64_of_lt (by omega)
  have before := live.total
  refine ⟨isPacket.trans live.packet, ?_, ?_, ?_, ?_, ?_, ?_, ?_, ?_, ?_⟩
  · show (state.pipe.tag fds).cap ≤ 2 ^ 31
    rw [isCap]
    exact live.capacity
  · show (state.pipe.tag fds).len + (headerBytes data.length ++ data).length ≤ (state.pipe.tag fds).cap
    omega
  · show add64 (state.pipe.tag fds).wtotal (headerBytes data.length ++ data).length =
      (state.pipe.tag fds).rtotal + ((state.pipe.tag fds).len + (headerBytes data.length ++ data).length)
    omega
  · show add64 (state.pipe.tag fds).wtotal (headerBytes data.length ++ data).length < 2 ^ 64
    omega
  · rw [List.filterMap_append, live.sent, List.append_assoc]
    rfl
  · rw [List.filterMap_append]
    exact (List.append_nil _).symm ▸ live.received
  · simp only [UPipe.content, UPipe.put]
    rw [isBuf, isCap, isLen, isHead, ringGet_append (by omega), List.flatMap_append, ← live.content]
    simp [UPipe.content, UnixMessage.frame]
  · show (state.pipe.tag fds).anc = tagsFrom (state.pipe.tag fds).rtotal _
    rw [isAnc, isR, tagsFrom_append, ← live.lists, queuedLength, ← before]
    simp [tagsFrom]
  · rw [releasedLists_snoc, live.unfreed]
    rfl

theorem PacketLive.front {message : UnixMessage} {rest : List UnixMessage}
    (live : PacketLive state taken (message :: rest)) :
    state.pipe.len = message.frame.length + (rest.flatMap UnixMessage.frame).length ∧
      wordValue (ringGet state.pipe.cap state.pipe.buf 4 state.pipe.head) = message.data.length ∧
      ringGet state.pipe.cap state.pipe.buf message.data.length (state.pipe.head + 4) =
      message.data ∧ ringGet state.pipe.cap state.pipe.buf (state.pipe.len - message.frame.length)
        (state.pipe.head + message.frame.length) = rest.flatMap UnixMessage.frame := by
  have content := live.content
  have length := congrArg List.length content
  rw [UPipe.content, ringGet_length, List.flatMap_cons, List.length_append] at length
  have size := frame_length message
  have fits := live.fits
  have capacity := live.capacity
  rw [UPipe.content, List.flatMap_cons, UnixMessage.frame, List.append_assoc,
    show state.pipe.len =
    4 + (message.data.length + (state.pipe.len - message.frame.length)) by omega,
    ringGet_add, ringGet_add] at content
  obtain ⟨header, behind⟩ := List.append_inj content (by rfl)
  obtain ⟨data, others⟩ := List.append_inj behind (ringGet_length)
  refine ⟨length, ?_, data, ?_⟩
  · rw [header, headerBytes, wordValue_wordBytes (by omega)]
  · rw [← others, size]
    congr 1
    omega

theorem ringGet_take {cap count least : Nat} {buf : Nat → UInt8} (le : least ≤ count) :
    ringGet cap buf least at_ = (ringGet cap buf count at_).take least := by
  rw [show count = least + (count - least) by omega, ringGet_add,
    List.take_left' ringGet_length]

theorem PacketLive.take {message : UnixMessage} {rest : List UnixMessage}
    {shut nb interrupted : Bool} {fit : Option Nat}
    (live : PacketLive state taken (message :: rest))
    (space : ∀ entry, state.pipe.atRead = some entry → entry.fds.length ≤ fit.getD 0) :
    PacketLive (unixStep state (.recv room false shut nb interrupted fit)) (taken ++ [message]) rest ∧
      (unixStep state (.recv room false shut nb interrupted fit)).pipe.len < state.pipe.len := by
  obtain ⟨length, header, data, others⟩ := live.front
  have size := frame_length message
  have total := live.total
  have small := live.small
  have fits := live.fits
  have anc := live.lists
  rw [tagsFrom] at anc
  -- the descriptors at the read position are those of the message
  have here : (state.pipe.atRead.map AncEntry.fds).getD [] = message.fds ∧
      (if state.pipe.atRead.isSome then state.pipe.anc.tail else state.pipe.anc) =
        tagsFrom (state.pipe.rtotal + message.frame.length) rest := by
    split at anc
    · rename_i empty
      rw [List.nil_append] at anc
      have isNone : state.pipe.atRead = none := by
        rw [UPipe.atRead, anc]
        cases isTags : tagsFrom (state.pipe.rtotal + message.frame.length) rest with
        | nil => rfl
        | cons entry others =>
            have later := @tagsFrom_later (state.pipe.rtotal + message.frame.length) rest entry (by rw [isTags]; simp)
            simp only [List.head?_cons, Option.filter_some]
            rw [if_neg]
            simp only [decide_eq_true_eq]
            omega
      rw [isNone, empty]
      exact ⟨rfl, anc⟩
    · have isSome : state.pipe.atRead = some ⟨state.pipe.rtotal, message.fds⟩ := by
        rw [UPipe.atRead, anc]
        simp
      rw [isSome, anc]
      exact ⟨rfl, rfl⟩
  rw [recv_all (by omega) fun _ => space, recvTurn, if_neg (by omega), header, live.packet, here.1]
  simp only [if_true, Bool.true_and, Bool.false_eq_true, if_false, RecvOutcome.events,
    UPipe.advance]
  have read : add64 state.pipe.rtotal (4 + message.data.length) =
    state.pipe.rtotal + message.frame.length := by
    rw [add64_of_lt (by omega)]
    omega
  refine ⟨⟨live.packet, live.capacity, ?_, ?_, small, ?_, ?_, ?_, ?_, ?_⟩, by omega⟩
  · dsimp only
    omega
  · dsimp only
    omega
  · rw [List.filterMap_append, live.sent, List.append_assoc]
    simp [UnixEvent.message]
  · rw [List.filterMap_append]
    refine List.rel_append live.received (.cons ⟨?_, rfl, rfl⟩ .nil)
    rw [ringGet_take (Nat.min_le_right room message.data.length), data, ← List.take_take, List.take_length]
  · simp only [UPipe.content]
    rw [ringGet_mod, ← others]
    congr 1
    · omega
    · omega
  · rw [here.2, read]
  · rw [releasedLists_snoc, live.unfreed]
    rfl

theorem PacketLive.recount (live : PacketLive state taken queued) (readers writers : Int)
    (calls : List SendCall) :
    PacketLive { state with pipe := { state.pipe with readers := readers, writers := writers }, calls := calls }
      taken queued :=
  ⟨live.packet, live.capacity, live.fits, live.total, live.small, live.sent, live.received,
    live.content, live.lists, live.unfreed⟩

theorem PacketLive.peek {data : List UInt8} {fds : List Nat} {trunc : Bool}
    (live : PacketLive state taken queued) :
    PacketLive { state with events := state.events ++ [.received room true data fds trunc] } taken
    queued := by
  refine ⟨live.packet, live.capacity, live.fits, live.total, live.small, ?_, ?_, live.content,
    live.lists, ?_⟩
  · rw [List.filterMap_append]
    exact (List.append_nil _).symm ▸ live.sent
  · rw [List.filterMap_append]
    exact (List.append_nil _).symm ▸ live.received
  · rw [releasedLists_snoc, live.unfreed]
    rfl

theorem PacketLive.queued_iff (live : PacketLive state taken queued) :
    state.pipe.len = 0 ↔ queued = [] := by
  have content := congrArg List.length live.content
  rw [UPipe.content, ringGet_length] at content
  cases queued with
  | nil => simpa using content
  | cons message rest =>
      have size := frame_length message
      rw [List.flatMap_cons, List.length_append] at content
      simp only [reduceCtorEq, iff_false]
      omega

theorem PacketLive.recv {shut nb interrupted peek : Bool} {fit : Option Nat}
    (live : PacketLive state taken queued)
    (allowed : unixAllowed state (.recv room peek shut nb interrupted fit)) :
    ∃ taken queued, PacketLive (unixStep state (.recv room peek shut nb interrupted fit)) taken
    queued := by
  cases queued with
  | nil =>
      rw [recv_empty (live.queued_iff.mpr rfl)]
      exact ⟨taken, [], live⟩
  | cons message rest =>
      cases peek with
      | false => exact ⟨taken ++ [message], rest, (live.take fun entry here => (allowed rfl entry here).1).1⟩
      | true =>
          have queued : state.pipe.len ≠ 0 := fun empty => by
            have none_ := live.queued_iff.mp empty
            contradiction
          rw [recv_all queued (by rintro ⟨⟩), recvTurn, if_neg queued]
          exact ⟨taken, message :: rest, live.peek⟩

theorem PacketLive.free (live : PacketLive state taken queued) : PacketFreed
    { state with pipe := (pipeFree state.pipe).1, events := state.events ++ (pipeFree state.pipe).2 } := by
  refine ⟨live.packet, rfl, rfl, by simp [pipeFree], taken, queued, ?_, ?_, ?_⟩
  · rw [List.filterMap_append]
    exact (List.append_nil _).symm ▸ live.sent
  · rw [List.filterMap_append]
    exact (List.append_nil _).symm ▸ live.received
  · simp only [pipeFree]
    rw [releasedLists_snoc, live.unfreed, live.lists, ← @tagsFrom_fds state.pipe.rtotal]
    rfl

theorem PacketLive.step {op : UnixOp} (live : PacketLive state taken queued)
    (allowed : unixAllowed state op) :
    (∃ taken queued, PacketLive (unixStep state op) taken queued) ∨
    PacketFreed (unixStep state op) := by
  have kept := fun calls => live.recount state.pipe.readers state.pipe.writers calls
  cases op with
  | send data fds shut nb => exact .inl ⟨taken, queued, kept _⟩
  | sendTurn number interrupted =>
      left
      rcases unixStep_sendTurn state number interrupted with same | ⟨call, here, running, isStep⟩
      · rw [same]
        exact ⟨taken, queued, live⟩
      · rw [isStep, sendTurn, if_pos live.packet, packetTurn]
        have small := allowed call here
        split
        · rw [List.append_nil]
          exact ⟨taken, queued, kept _⟩
        · split
          · rename_i room
            exact ⟨taken, _, live.put room.1 small⟩
          · rw [List.append_nil]
            exact ⟨taken, queued, kept _⟩
  | recv room peek shut nb interrupted fit => exact .inl (live.recv allowed)
  | dropReader => exact .inl ⟨taken, queued,
    live.recount (state.pipe.readers - 1) state.pipe.writers _⟩
  | dropWriter => exact .inl ⟨taken, queued,
    live.recount state.pipe.readers (state.pipe.writers - 1) _⟩
  | free =>
      rw [unixStep]
      split
      · exact .inr live.free
      · exact .inl ⟨taken, queued, live⟩

theorem PacketFreed.step {op : UnixOp} (freed : PacketFreed state) :
    PacketFreed (unixStep state op) := by
  have kept : ∀ (calls : List SendCall) (readers writers : Int), readers ≤ 0 →
      PacketFreed { state with pipe := { state.pipe with readers := readers, writers := writers }, calls := calls } :=
    fun calls readers writers none_ => ⟨freed.packet, freed.empty, freed.noLists, none_, freed.messages⟩
  have noReaders := freed.noReaders
  cases op with
  | send data fds shut nb => exact kept _ state.pipe.readers state.pipe.writers noReaders
  | sendTurn number interrupted =>
      rcases unixStep_sendTurn state number interrupted with same | ⟨call, here, running, isStep⟩
      · rw [same]
        exact freed
      · rw [isStep, sendTurn, if_pos freed.packet, packetTurn, if_pos noReaders, List.append_nil]
        exact kept _ state.pipe.readers state.pipe.writers noReaders
  | recv room peek shut nb interrupted fit =>
      rw [recv_empty freed.empty]
      exact freed
  | dropReader => exact kept state.calls (state.pipe.readers - 1) state.pipe.writers (by omega)
  | dropWriter => exact kept state.calls state.pipe.readers (state.pipe.writers - 1) noReaders
  | free =>
      rw [unixStep]
      split
      · obtain ⟨taken, left, sent, received, released⟩ := freed.messages
        refine ⟨freed.packet, rfl, rfl, by simp [pipeFree], taken, left, ?_, ?_, ?_⟩
        · rw [List.filterMap_append]
          exact (List.append_nil _).symm ▸ sent
        · rw [List.filterMap_append]
          exact (List.append_nil _).symm ▸ received
        · simp only [pipeFree]
          rw [releasedLists_snoc, released, freed.noLists]
          simp [UnixEvent.released]
      · exact freed

theorem PacketLive.drains (live : PacketLive state taken queued) :
    ∃ fits : List (Option Nat), (runSteps unixStep state (fits.map (plainRecv room))).pipe.anc =
    [] := by
  induction queued generalizing state taken with
  | nil => exact ⟨[], live.lists⟩
  | cons message rest ih =>
      obtain ⟨fit, fits⟩ := state.pipe.roomFor
      obtain ⟨more, drained⟩ := ih (live.take fits).1
      exact ⟨fit :: more, drained⟩

theorem PacketLive.delivers (live : PacketLive state taken queued) : PacketDelivers state where
  messages := ⟨taken, queued, live.sent,
    live.received, by rw [live.unfreed, live.lists, tagsFrom_fds, List.nil_append]⟩
  reachable := fun _ => live.drains

theorem PacketFreed.delivers (freed : PacketFreed state) : PacketDelivers state where
  messages := by
    obtain ⟨taken, left, sent, received, released⟩ := freed.messages
    exact ⟨taken, left, sent, received, by rw [released, freed.noLists, List.map_nil, List.append_nil]⟩
  reachable := fun _ => ⟨[], freed.noLists⟩

end Packet

section Pair

variable {packet : Bool} {state : Bool → UnixQueue}

structure UnixSound (packet : Bool) (state : UnixQueue) : Prop where
  calls : CallsSound state
  stream : packet = false → StreamLive state ∨ StreamFreed state
  packets : packet = true → (∃ taken queued, PacketLive state taken queued) ∨ PacketFreed state

theorem UnixSound.start (packet : Bool) : UnixSound packet ⟨pipeNew packet, [], []⟩ := by
  refine ⟨⟨by simp, fun _ _ => rfl, by simp⟩, fun isStream => .inl ?_,
    fun isPacket => .inl ⟨[], [], ?_⟩⟩
  · exact ⟨isStream, show 0 ≤ 65536 by decide, rfl, rfl, show 0 < 2 ^ 64 by decide, rfl, rfl, .nil, by simp [sentLists, listsFrom],
      by simp [pipeNew], rfl, by simp, by simp⟩
  · exact ⟨isPacket, show 65536 ≤ 2 ^ 31 by decide, show 0 ≤ 65536 by decide, rfl, show 0 < 2 ^ 64 by decide, rfl,
      .nil, rfl, rfl, rfl⟩

theorem UnixSound.step {state : UnixQueue} {op : UnixOp} (sound : UnixSound packet state)
    (allowed : unixAllowed state op) : UnixSound packet (unixStep state op) where
  calls := sound.calls.step op
  stream isStream := (sound.stream isStream).elim (fun live => live.step allowed) fun freed =>
    .inr freed.step
  packets isPacket := by
    rcases sound.packets isPacket with ⟨taken, queued, live⟩ | freed
    · exact live.step allowed
    · exact .inr freed.step

/-- In every run of sends and receives on both ends of a socket pair, bytes, messages and
descriptors are delivered once and in order. -/
theorem unixPair_delivers (reached : Reaches pairStep pairAllowed (pairStart packet) state)
    (side : Bool) : CallsSound (state side) ∧ if packet then PacketDelivers (state side)
    else StreamDelivers (state side) := by
  have sound : ∀ side, UnixSound packet (state side) := by
    refine @Reaches.invariant _ _ _ _ _ _ (fun state => ∀ side, UnixSound packet (state side))
      reached (fun _ => UnixSound.start packet) fun before op sound allowed side => ?_
    rw [pairStep]
    rcases eq_or_ne side op.1 with rfl | other
    · rw [Function.update_self]
      exact (sound op.1).step allowed
    · rw [Function.update_of_ne other]
      exact sound side
  refine ⟨(sound side).calls, ?_⟩
  cases packet with
  | false => exact ((sound side).stream rfl).elim StreamLive.delivers StreamFreed.delivers
  | true =>
      rcases (sound side).packets rfl with ⟨taken, queued, live⟩ | freed
      · exact live.delivers
      · exact freed.delivers

/-- A descriptor goes one way with two bytes, and comes out with the first of them. -/
def descriptorRun : List (Bool × UnixOp) :=
  [(false, .send [1, 2] [5] false false), (false, .sendTurn 0 false),
    (false, .recv 1 true false true false none), (false, .recv 1 false false true false (some 1)),
    (true, .send [7] [] false false)]

theorem unixPair_delivers_descriptor :
    StreamDelivers (runSteps pairStep (pairStart false) descriptorRun false) ∧
      handedLists (runSteps pairStep (pairStart false) descriptorRun false).events = [⟨0, [5]⟩] := by
  refine ⟨(@unixPair_delivers false _ (Reaches.runSteps .refl ?_) false).2, by decide⟩
  refine ⟨fun _ empty => by contradiction, fun call here => ?_, fun peeks => by contradiction, fun _ entry here => ?_,
    fun _ _ => rfl, trivial⟩
  · rw [← Option.some.inj here]
    decide
  · rw [← Option.some.inj here]
    decide

/-- Descriptors sent twice without a byte: both are tagged with the same offset, and the second
list stays in the queue when all bytes are read. -/
def emptySends : List (Bool × UnixOp) :=
  [(false, .send [] [5] false false), (false, .sendTurn 0 false), (false, .send [] [6] false false),
    (false, .sendTurn 1 false), (false, .send [1] [] false false), (false, .sendTurn 2 false),
    (false, .recv 1 false false true false (some 16))]

theorem emptySends_stuck :
    ¬ StreamDelivers (runSteps pairStep (pairStart false) emptySends false) := by
  intro delivers
  obtain ⟨fits, drained⟩ := delivers.reachable 1 (by decide)
  have empty : (runSteps pairStep (pairStart false) emptySends false).pipe.len = 0 := by decide
  have stays : ∀ fits : List (Option Nat), runSteps unixStep (runSteps pairStep (pairStart false) emptySends false)
      (fits.map (plainRecv 1)) = runSteps pairStep (pairStart false) emptySends false := by
    intro fits
    induction fits with
    | nil => rfl
    | cons fit rest ih =>
        exact ih
  rw [stays fits] at drained
  revert drained
  decide

end Pair

end Cos.Linux
