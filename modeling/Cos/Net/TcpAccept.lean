import Cos.Net.TcpRoles

/-! # The accept queue

Who holds the sockets of the stack: a connection waits with its listener until it is accepted, and
belongs to its owner from then on.
-/

namespace Cos.Net

open Cos.Lib

variable {s s' : TcpSocket} {now sends id : Nat} {segment : TcpSegment}
  {stack before after : TcpStack} {call : TcpCall}

namespace TcpStack

def waiting (stack : TcpStack) (id : Nat) : Nat :=
  (stack.sockets.filter fun entry => decide (entry.2.parent = some id)).length

def unaccepted (stack : TcpStack) : Nat :=
  (stack.sockets.filter fun entry => entry.2.unaccepted).length

/-- What `tcp_socket_accept` returns. -/
def accepted (id : Nat) (stack : TcpStack) : Option Nat :=
  match stack.get? id with
  | none => none
  | some listener =>
      if listener.state = .listen then
        match stack.sockets.find? fun entry => decide (entry.2.parent = some id ∧
            entry.2.unaccepted = true ∧ entry.2.state ≠ .synReceived ∧ entry.2.state ≠ .listen) with
        | none => none
        | some (child, s) => if s.state = .closed then none else some child
      else none

def born (before after : TcpStack) : List (Nat × Nat) :=
  (after.sockets.filter fun entry => decide (before.nextId ≤ entry.1)).filterMap fun entry =>
    entry.2.parent.map fun listener => (entry.1, listener)

end TcpStack

def TcpCall.handle : TcpCall → Option Nat
  | .create _ _ | .input .. | .poll _ _ => none
  | .destroy id | .bind id _ _ | .listen id _ | .connect id _ _ _ _ | .connectTry id _ _
  | .connectEnd id
  | .connectStart id _ _ _ _ _ _ | .accept id | .send id _ _ _ | .recv id _ | .shutdownWr id _ _
  | .closeEnd id
  | .abandon id _ _ => some id

/-- The stack and its owners.  `owned` are the sockets that were given out and not taken back,
`made` the connections with the listeners they were made for, `handed` the accepted ones with the
listeners they were accepted from. -/
structure AcceptWorld where
  stack : TcpStack
  owned : List Nat
  made : List (Nat × Nat)
  handed : List (Nat × Nat)

namespace AcceptWorld

def start : AcceptWorld where
  stack := emptyStack
  owned := []
  made := []
  handed := []

def ownedAfter (w : AcceptWorld) : TcpCall → List Nat
  | .create _ _ => w.stack.nextId :: w.owned
  | .destroy id | .abandon id _ _ => w.owned.filter fun other => decide (other ≠ id)
  | .accept id => (w.stack.accepted id).toList ++ w.owned
  | _ => w.owned

def handedAfter (w : AcceptWorld) : TcpCall → List (Nat × Nat)
  | .accept id => ((w.stack.accepted id).map fun child => (child, id)).toList ++ w.handed
  | _ => w.handed

def step (w : AcceptWorld) (call : TcpCall) : AcceptWorld where
  stack := tcpStep w.stack call
  owned := w.ownedAfter call
  made := TcpStack.born w.stack (tcpStep w.stack call) ++ w.made
  handed := w.handedAfter call

/-- Calls are made by owners, and a listener is not closed, or connected, while connections wait
with it. -/
def Allowed (w : AcceptWorld) (call : TcpCall) : Prop :=
  (∀ id ∈ call.handle, id ∈ w.owned) ∧
    match call with
    | .connect id _ _ _ _ | .connectTry id _ _ | .connectEnd id =>
        ∀ entry ∈ w.stack.sockets, entry.1 = id → entry.2.state ≠ .listen
    | .closeEnd id => ∀ entry ∈ w.stack.sockets, entry.1 = id → entry.2.state = .listen → w.stack.waiting id = 0
    | _ => True

end AcceptWorld

structure RoleSound (w : AcceptWorld) (id : Nat) (s : TcpSocket) : Prop where
  child : ∀ l, s.parent = some l → s.unaccepted = true ∧ (id, l) ∈ w.made ∧
    ∃ listener, (l, listener) ∈ w.stack.sockets ∧ listener.state = .listen
  fresh : s.unaccepted = true → id ∉ w.owned ∧ s.detached = false ∧ s.state ≠ .listen ∧
    (s.parent = none → s.state = .closed) ∧ ∀ pair ∈ w.handed, pair.1 ≠ id
  loose : s.detached = true → id ∉ w.owned ∧ s.state ≠ .listen
  listens : s.state = .listen → s.backlog ≤ 8 ∧ w.stack.waiting id ≤ s.backlog

structure AcceptSound (w : AcceptWorld) : Prop where
  numbered : Numbered w.stack
  quiet : w.stack.Each QuietSound
  roles : ∀ entry ∈ w.stack.sockets, RoleSound w entry.1 entry.2
  owned : ∀ id ∈ w.owned, ∃ s, (id, s) ∈ w.stack.sockets ∧ s.unaccepted = false ∧ s.detached = false
  made : ∀ pair ∈ w.made, pair.1 < w.stack.nextId
  madeOnce : (w.made.map Prod.fst).Nodup
  handed : ∀ pair ∈ w.handed, pair ∈ w.made
  once : (w.handed.map Prod.fst).Nodup
  total : w.stack.unaccepted ≤ 64

variable {w : AcceptWorld}

theorem AcceptSound.alone (sound : AcceptSound w) (member : (id, s) ∈ w.stack.sockets)
    (notListen : s.state ≠ .listen) : ∀ entry ∈ w.stack.sockets, entry.2.parent ≠ some id := by
  intro entry isEntry isChild
  obtain ⟨-, -, listener, isListener, listens⟩ := (sound.roles entry isEntry).child id isChild
  rw [sound.numbered.same isListener member] at listens
  exact notListen listens

theorem waiting_eq_zero :
    stack.waiting id = 0 ↔ ∀ entry ∈ stack.sockets, entry.2.parent ≠ some id := by
  simp [TcpStack.waiting]

theorem born_old (numbered : ∀ entry ∈ after.sockets, entry.1 < before.nextId) :
    TcpStack.born before after = [] := by
  have none : (after.sockets.filter fun entry => decide (before.nextId ≤ entry.1)) = [] := by
    refine List.filter_eq_nil_iff.mpr fun entry member => ?_
    have := numbered entry member
    simp only [decide_eq_true_eq]
    omega
  rw [TcpStack.born, none]
  rfl

theorem born_map (numbered : Numbered stack) {change : Nat → TcpSocket → TcpSocket} :
    TcpStack.born stack (stack.mapSockets change) = [] :=
  born_old (numbered.mapSockets change).numbered

theorem born_update (numbered : Numbered stack) {change : TcpSocket → TcpSocket} :
    TcpStack.born stack (stack.update id change) = [] :=
  born_map numbered

/-- How a socket may go on among the others, with these owners and these handed out. -/
structure Follows (owned : List Nat) (handed : List (Nat × Nat)) (id : Nat) (s s' : TcpSocket) :
    Prop where
  parent : ∀ l, s'.parent = some l → s.parent = some l ∧ s'.unaccepted = true
  fresh : s'.unaccepted = true → s.unaccepted = true ∧ id ∉ owned ∧ s'.detached = false ∧
    s'.state ≠ .listen ∧ (s'.parent = none → s'.state = .closed) ∧ ∀ pair ∈ handed, pair.1 ≠ id
  loose : s'.detached = true → id ∉ owned ∧ s'.state ≠ .listen
  listens : s'.state = .listen → s'.backlog ≤ 8 ∧ (s.state = .listen → s'.backlog = s.backlog)

theorem waiting_map {change : Nat → TcpSocket → TcpSocket}
    (parent : ∀ entry ∈ stack.sockets, (change entry.1 entry.2).parent = some id →
    entry.2.parent = some id) : (stack.mapSockets change).waiting id ≤ stack.waiting id := by
  rw [TcpStack.waiting, TcpStack.waiting, ← List.countP_eq_length_filter,
    ← List.countP_eq_length_filter, TcpStack.mapSockets, List.countP_map]
  refine List.countP_mono_left fun entry member isChild => ?_
  exact decide_eq_true (parent entry member (of_decide_eq_true isChild))

theorem unaccepted_map {change : Nat → TcpSocket → TcpSocket}
    (fresh : ∀ entry ∈ stack.sockets, (change entry.1 entry.2).unaccepted = true →
    entry.2.unaccepted = true) : (stack.mapSockets change).unaccepted ≤ stack.unaccepted := by
  rw [TcpStack.unaccepted, TcpStack.unaccepted, ← List.countP_eq_length_filter,
    ← List.countP_eq_length_filter, TcpStack.mapSockets, List.countP_map]
  exact List.countP_mono_left fresh

theorem AcceptSound.mapSockets (sound : AcceptSound w) {change : Nat → TcpSocket → TcpSocket}
    {owned : List Nat} {handed : List (Nat × Nat)}
    (quiet : (w.stack.mapSockets change).Each QuietSound)
    (follows : ∀ entry ∈ w.stack.sockets,
    Follows owned handed entry.1 entry.2 (change entry.1 entry.2))
    (listeners : ∀ entry ∈ w.stack.sockets, entry.2.state = .listen →
      (change entry.1 entry.2).state = .listen ∨
      ∀ other ∈ w.stack.sockets, (change other.1 other.2).parent ≠ some entry.1)
    (keeps : ∀ id ∈ owned, ∃ s, (id, s) ∈ w.stack.sockets ∧ (change id s).unaccepted = false ∧
    (change id s).detached =
    false) (hands : ∀ pair ∈ handed, pair ∈ w.made) (once : (handed.map Prod.fst).Nodup) :
    AcceptSound { stack := w.stack.mapSockets change, owned := owned, made := w.made, handed := handed } where
  numbered := sound.numbered.mapSockets change
  quiet := quiet
  roles := by
    intro entry member
    obtain ⟨old, isOld, rfl⟩ := List.mem_map.mp member
    have next := follows old isOld
    have role := sound.roles old isOld
    refine ⟨fun l isChild => ?_, fun waits => ?_, next.loose, fun listens => ?_⟩
    · obtain ⟨wasChild, waits⟩ := next.parent l isChild
      obtain ⟨-, isMade, listener, isListener, listens⟩ := role.child l wasChild
      refine ⟨waits, isMade, change l listener, List.mem_map.mpr ⟨(l, listener), isListener, rfl⟩, ?_⟩
      exact (listeners (l, listener) isListener listens).resolve_right fun alone => alone old isOld isChild
    · obtain ⟨-, notOwned, attached, notListen, orphan, notHanded⟩ := next.fresh waits
      exact ⟨notOwned, attached, notListen, orphan, notHanded⟩
    · obtain ⟨small, same⟩ := next.listens listens
      have fewer : (w.stack.mapSockets change).waiting old.1 ≤ w.stack.waiting old.1 :=
        waiting_map fun other isOther isChild => ((follows other isOther).parent old.1 isChild).1
      refine ⟨small, Nat.le_trans fewer ?_⟩
      by_cases wasListening : old.2.state = .listen
      · rw [same wasListening]
        exact (role.listens wasListening).2
      · rw [waiting_eq_zero.mpr (@AcceptSound.alone old.2 old.1 w sound isOld wasListening)]
        exact Nat.zero_le _
  owned := fun id isOwned => by
    obtain ⟨s, member, notWaiting, attached⟩ := keeps id isOwned
    exact ⟨change id s, List.mem_map.mpr ⟨(id, s), member, rfl⟩, notWaiting, attached⟩
  made := sound.made
  madeOnce := sound.madeOnce
  handed := hands
  once := once
  total := Nat.le_trans
    (unaccepted_map fun entry member waits => ((follows entry member).fresh waits).1) sound.total

theorem SameRole.follows (same : SameRole s s') (role : RoleSound w id s) :
    Follows w.owned w.handed id s s' where
  parent l isChild := by
    rw [same.parent] at isChild
    exact ⟨isChild, same.unaccepted.trans (role.child l isChild).1⟩
  fresh waits := by
    rw [same.unaccepted] at waits
    obtain ⟨notOwned, attached, notListen, orphan, notHanded⟩ := role.fresh waits
    refine ⟨waits, notOwned, same.detached.trans attached,
      fun listens => notListen (same.listens listens), fun alone => ?_, notHanded⟩
    exact same.closed (orphan (same.parent.symm.trans alone))
  loose detached := by
    obtain ⟨notOwned, notListen⟩ := role.loose (same.detached.symm.trans detached)
    exact ⟨notOwned, fun listens => notListen (same.listens listens)⟩
  listens isListening := by
    have small := (role.listens (same.listens isListening)).1
    rw [same.backlog]
    exact ⟨small, fun _ => rfl⟩

theorem AcceptSound.attached (sound : AcceptSound w) (member : (id, s) ∈ w.stack.sockets)
    (isOwned : id ∈ w.owned) : s.unaccepted = false ∧ s.detached = false := by
  obtain ⟨s', isHere, both⟩ := sound.owned id isOwned
  rw [sound.numbered.same member isHere]
  exact both

theorem Follows.ofOwned {owned : List Nat} {handed : List (Nat × Nat)} (role : RoleSound w id s)
    (isOwned : s.unaccepted = false ∧ s.detached = false)
      (same : s'.parent = s.parent ∧ s'.unaccepted = s.unaccepted ∧
      s'.detached = s.detached) (listens : s'.state = .listen →
      s'.backlog ≤ 8 ∧ (s.state = .listen → s'.backlog = s.backlog)) :
    Follows owned handed id s s' where
  parent l isChild := by
    rw [same.1] at isChild
    have waits := (role.child l isChild).1
    exact ⟨isChild, same.2.1.trans waits⟩
  fresh waits := absurd ((same.2.1.trans isOwned.1).symm.trans waits) nofun
  loose detached := absurd ((same.2.2.trans isOwned.2).symm.trans detached) nofun
  listens := listens

theorem AcceptSound.update (sound : AcceptSound w) {change : TcpSocket → TcpSocket}
    (quiet : (w.stack.update id change).Each QuietSound)
    (follows : ∀ s, (id, s) ∈ w.stack.sockets → Follows w.owned w.handed id s (change s))
    (flags : ∀ s, (id, s) ∈ w.stack.sockets → id ∈ w.owned →
      (change s).unaccepted = s.unaccepted ∧ (change s).detached = s.detached)
    (listener : ∀ s, (id, s) ∈ w.stack.sockets → s.state = .listen →
    (change s).state = .listen ∨
    w.stack.waiting id = 0) : AcceptSound { w with stack := w.stack.update id change } := by
  refine sound.mapSockets quiet (fun entry member => ?_) (fun entry member listens => ?_)
    (fun other isOwned => ?_) sound.handed sound.once
  · split
    · next isId => exact isId ▸ follows entry.2 (isId ▸ member)
    · exact (SameRole.refl entry.2).follows (sound.roles entry member)
  · split
    · next isId =>
      refine (listener entry.2 (isId ▸ member) listens).imp_right fun none other isOther => ?_
      have alone := waiting_eq_zero.mp none other isOther
      split
      · next isSelf =>
        intro isChild
        rw [isId] at isChild
        exact alone ((follows other.2 (isSelf ▸ isOther)).parent id isChild).1
      · rw [isId]
        exact alone
    · exact .inl listens
  · obtain ⟨s, member, notWaiting, attached⟩ := sound.owned other isOwned
    refine ⟨s, member, ?_⟩
    split
    · next isId =>
      obtain ⟨sameWaits, sameDetached⟩ := flags s (isId ▸ member) (isId ▸ isOwned)
      exact ⟨sameWaits.trans notWaiting, sameDetached.trans attached⟩
    · exact ⟨notWaiting, attached⟩

theorem AcceptSound.updateRole (sound : AcceptSound w) {change : TcpSocket → TcpSocket}
    (quiet : (w.stack.update id change).Each QuietSound)
    (same : ∀ s, (id, s) ∈ w.stack.sockets → SameRole s (change s))
    (listener : ∀ s, (id, s) ∈ w.stack.sockets → s.state = .listen →
    (change s).state = .listen ∨
    w.stack.waiting id = 0) : AcceptSound { w with stack := w.stack.update id change } :=
  sound.update quiet (fun s member => (same s member).follows (sound.roles (id, s) member))
    (fun s member _ => ⟨(same s member).unaccepted, (same s member).detached⟩) listener

theorem AcceptSound.filter (sound : AcceptSound w) (keep : Nat × TcpSocket → Bool)
    (gone : ∀ entry ∈ w.stack.sockets, keep entry = false → entry.1 ∉ w.owned ∧
      (entry.2.state = .listen → w.stack.waiting entry.1 = 0)) :
    AcceptSound { w with stack := { w.stack with sockets := w.stack.sockets.filter keep } } where
  numbered := sound.numbered.filter keep
  quiet := sound.quiet.filter keep
  roles := by
    intro entry member
    have role := sound.roles entry (List.mem_filter.mp member).1
    refine ⟨fun l isChild => ?_, role.fresh, role.loose, fun listens => ?_⟩
    · obtain ⟨waits, isMade, listener, isListener, listens⟩ := role.child l isChild
      refine ⟨waits, isMade, listener, List.mem_filter.mpr ⟨isListener, ?_⟩, listens⟩
      cases isKept : keep (l, listener) with
      | true => rfl
      | false =>
          have none := (gone (l, listener) isListener isKept).2 listens
          exact absurd isChild (waiting_eq_zero.mp none entry (List.mem_filter.mp member).1)
    · obtain ⟨small, fits⟩ := role.listens listens
      refine ⟨small, Nat.le_trans ?_ fits⟩
      exact (List.filter_sublist.filter _).length_le
  owned := fun id isOwned => by
    obtain ⟨s, member, both⟩ := sound.owned id isOwned
    refine ⟨s, List.mem_filter.mpr ⟨member, ?_⟩, both⟩
    cases isKept : keep (id, s) with
    | true => rfl
    | false => exact absurd isOwned (gone (id, s) member isKept).1
  made := sound.made
  madeOnce := sound.madeOnce
  handed := sound.handed
  once := sound.once
  total := Nat.le_trans (List.filter_sublist.filter _).length_le sound.total

theorem born_add (numbered : Numbered stack) (s : TcpSocket) :
    TcpStack.born stack (stack.add s) =
    (s.parent.map fun listener => (stack.nextId, listener)).toList := by
  have older : stack.sockets.filter (fun entry => decide (stack.nextId ≤ entry.1)) = [] := by
    refine List.filter_eq_nil_iff.mpr fun entry member => ?_
    have := numbered.numbered entry member
    simp only [decide_eq_true_eq]
    omega
  have isNew : ((stack.nextId, s) :: stack.sockets).filter
    (fun entry => decide (stack.nextId ≤ entry.1)) = [(stack.nextId, s)] := by
    rw [List.filter_cons, if_pos (decide_eq_true (Nat.le_refl _)), older]
  rw [TcpStack.born, TcpStack.add]
  rw [isNew]
  cases isParent : s.parent <;> simp [isParent]

theorem waiting_add (stack : TcpStack) (s : TcpSocket) :
    (stack.add s).waiting id = stack.waiting id + if s.parent = some id then 1 else 0 := by
  rw [TcpStack.waiting, TcpStack.waiting, TcpStack.add, List.filter_cons]
  by_cases isChild : s.parent = some id <;> simp [isChild]

theorem RoleSound.added (role : RoleSound w id s) (older : id < w.stack.nextId) {new : TcpSocket}
    {owned : List Nat} {made : List (Nat × Nat)}
    (mostly : ∀ other ∈ owned, other ∈ w.owned ∨ other = w.stack.nextId)
    (more : ∀ pair ∈ w.made, pair ∈ made)
    (room : s.state = .listen → new.parent = some id → w.stack.waiting id < s.backlog) :
    RoleSound { stack := w.stack.add new, owned := owned, made := made, handed := w.handed } id s
    where
  child l isChild := by
    obtain ⟨waits, isMade, listener, isListener, listens⟩ := role.child l isChild
    exact ⟨waits, more _ isMade, listener, List.mem_cons_of_mem _ isListener, listens⟩
  fresh waits := by
    obtain ⟨notOwned, others⟩ := role.fresh waits
    refine ⟨fun isOwned => ?_, others⟩
    obtain before | isNew := mostly id isOwned
    · exact notOwned before
    · exact absurd isNew (Nat.ne_of_lt older)
  loose detached := by
    obtain ⟨notOwned, notListen⟩ := role.loose detached
    refine ⟨fun isOwned => ?_, notListen⟩
    obtain before | isNew := mostly id isOwned
    · exact notOwned before
    · exact absurd isNew (Nat.ne_of_lt older)
  listens isListening := by
    obtain ⟨small, fits⟩ := role.listens isListening
    refine ⟨small, ?_⟩
    rw [waiting_add]
    split
    · next isChild => exact room isListening isChild
    · exact fits

theorem AcceptSound.create (sound : AcceptSound w) (rxCell txCell : Nat → UInt8)
    (quiet : (w.stack.add (TcpSocket.alloc rxCell txCell)).Each QuietSound) :
    AcceptSound { w with stack := w.stack.add (TcpSocket.alloc rxCell txCell), owned := w.stack.nextId :: w.owned } where
  numbered := sound.numbered.add _
  quiet := quiet
  roles := by
    intro entry member
    obtain rfl | old := List.mem_cons.mp member
    · exact ⟨nofun, nofun, nofun, nofun⟩
    · refine (sound.roles entry old).added (sound.numbered.numbered entry old)
        (fun other isOwned => ?_) (fun _ => id) fun _ => nofun
      exact (List.mem_cons.mp isOwned).symm
  owned := fun id isOwned => by
    obtain rfl | before := List.mem_cons.mp isOwned
    · exact ⟨_, List.mem_cons_self, rfl, rfl⟩
    · obtain ⟨s, member, both⟩ := sound.owned id before
      exact ⟨s, List.mem_cons_of_mem _ member, both⟩
  made := fun pair isMade => Nat.lt_succ_of_lt (sound.made pair isMade)
  madeOnce := sound.madeOnce
  handed := sound.handed
  once := sound.once
  total := by
    exact sound.total

theorem AcceptSound.addChild (sound : AcceptSound w) {listener : TcpSocket}
    (member : (id, listener) ∈ w.stack.sockets)
    (listens : listener.state = .listen) (room : w.stack.waiting id < listener.backlog)
    (fewer : w.stack.unaccepted < 64) {new : TcpSocket} (isChild : new.parent = some id)
    (waits : new.unaccepted = true) (attached : new.detached = false)
    (received : new.state = .synReceived) (quiet : (w.stack.add new).Each QuietSound) :
    AcceptSound { w with stack := w.stack.add new, made := (w.stack.nextId, id) :: w.made } where
  numbered := sound.numbered.add _
  quiet := quiet
  roles := by
    intro entry isEntry
    obtain rfl | old := List.mem_cons.mp isEntry
    · refine ⟨fun l isParent => ?_, fun _ => ⟨fun isOwned => ?_, attached, ?_, fun alone => ?_,
        fun pair isHanded isNew => ?_⟩, fun detached => ?_, fun isListening => ?_⟩
      · cases isChild.symm.trans isParent
        exact ⟨waits, List.mem_cons_self, listener, List.mem_cons_of_mem _ member, listens⟩
      · obtain ⟨s, isHere, -⟩ := sound.owned _ isOwned
        exact absurd (sound.numbered.numbered _ isHere) (Nat.lt_irrefl _)
      · rw [received]
        exact nofun
      · cases isChild.symm.trans alone
      · have := sound.made pair (sound.handed pair isHanded)
        exact absurd isNew (Nat.ne_of_lt this)
      · exact absurd (attached.symm.trans detached) nofun
      · exact absurd (received.symm.trans isListening) nofun
    · refine (sound.roles entry old).added (sound.numbered.numbered entry old) (fun _ => .inl)
        (fun _ => List.mem_cons_of_mem _) fun _ isParent => ?_
      cases isChild.symm.trans isParent
      rw [sound.numbered.same (show (entry.1, _) ∈ _ from old) member]
      exact room
  owned := fun other isOwned => by
    obtain ⟨s, isHere, both⟩ := sound.owned other isOwned
    exact ⟨s, List.mem_cons_of_mem _ isHere, both⟩
  made := fun pair isMade => by
    obtain rfl | before := List.mem_cons.mp isMade
    · exact Nat.lt_succ_self _
    · exact Nat.lt_succ_of_lt (sound.made pair before)
  madeOnce := by
    refine List.nodup_cons.mpr ⟨fun isNew => ?_, sound.madeOnce⟩
    obtain ⟨pair, isMade, same⟩ := List.mem_map.mp isNew
    exact absurd same (Nat.ne_of_lt (sound.made pair isMade))
  handed := fun pair isHanded => List.mem_cons_of_mem _ (sound.handed pair isHanded)
  once := sound.once
  total := by
    change ((_ :: w.stack.sockets).filter fun entry => entry.2.unaccepted).length ≤ 64
    rw [List.filter_cons, if_pos waits]
    exact fewer

theorem accepted_spec {child : Nat} (accepts : stack.accepted id = some child) :
    ∃ listener s, stack.get? id = some listener ∧ listener.state = .listen ∧
      (stack.sockets.find? fun entry => decide (entry.2.parent = some id ∧ entry.2.unaccepted = true ∧
        entry.2.state ≠ .synReceived ∧ entry.2.state ≠ .listen)) = some (child, s) ∧
      (child, s) ∈ stack.sockets ∧ s.parent = some id ∧ s.unaccepted = true ∧
      s.state ≠ .synReceived ∧ s.state ≠ .listen ∧ s.state ≠ .closed := by
  rw [TcpStack.accepted] at accepts
  split at accepts
  · cases accepts
  · next listener isListener =>
    split at accepts
    · next listens =>
      split at accepts
      · cases accepts
      · next other s found =>
        split at accepts
        · cases accepts
        · next isOpen =>
          cases accepts
          have isReady := List.find?_some found
          simp only [decide_eq_true_eq] at isReady
          exact ⟨listener, s, isListener, listens, found, List.mem_of_find?_eq_some found,
            isReady.1, isReady.2.1, isReady.2.2.1, isReady.2.2.2, isOpen⟩
    · cases accepts

theorem accept_cases (stack : TcpStack) (id : Nat) :
    (stack.accepted id = none ∧ stack.accept id = stack) ∨
    (stack.accepted id = none ∧ ∃ child s, (child, s) ∈ stack.sockets ∧ s.unaccepted = true ∧
      s.state = .closed ∧ stack.accept id = stack.update child fun s =>
        { s with parent := none, unaccepted := false, detached := true, detachDeadline := 1 }) ∨
    ∃ child, stack.accepted id = some child ∧
      stack.accept id = stack.update child fun s =>
      { s with parent := none, unaccepted := false } := by
  cases isListener : stack.get? id with
  | none => exact .inl ⟨by simp only [TcpStack.accepted, isListener], by simp only [TcpStack.accept,
    isListener]⟩
  | some listener =>
      by_cases listens : listener.state = .listen
      · cases found : stack.sockets.find? fun entry => decide (entry.2.parent = some id ∧
            entry.2.unaccepted = true ∧ entry.2.state ≠ .synReceived ∧ entry.2.state ≠ .listen) with
        | none =>
            exact .inl ⟨by simp only [TcpStack.accepted, isListener, if_pos listens, found],
              by simp only [TcpStack.accept, isListener, if_pos listens, found]⟩
        | some entry =>
            have isReady := List.find?_some found
            simp only [decide_eq_true_eq] at isReady
            by_cases isClosed : entry.2.state = .closed
            · refine .inr (.inl ⟨?_, entry.1, entry.2, List.mem_of_find?_eq_some found, isReady.2.1, isClosed, ?_⟩)
              · simp only [TcpStack.accepted, isListener, if_pos listens, found, if_pos isClosed]
              · simp only [TcpStack.accept, isListener, if_pos listens, found, if_pos isClosed]
            · refine .inr (.inr ⟨entry.1, ?_, ?_⟩)
              · simp only [TcpStack.accepted, isListener, if_pos listens, found, if_neg isClosed]
              · simp only [TcpStack.accept, isListener, if_pos listens, found, if_neg isClosed]
      · exact .inl ⟨by simp only [TcpStack.accepted, isListener, if_neg listens],
          by simp only [TcpStack.accept, isListener, if_neg listens]⟩

theorem AcceptSound.discard (sound : AcceptSound w) {child : Nat}
    (member : (child, s) ∈ w.stack.sockets) (waits : s.unaccepted = true)
    (isClosed : s.state = .closed) (quiet : (w.stack.update child fun s =>
      { s with parent := none, unaccepted := false, detached := true, detachDeadline := 1 }).Each QuietSound) :
    AcceptSound { w with stack := w.stack.update child fun s =>
      { s with parent := none, unaccepted := false, detached := true, detachDeadline := 1 } } := by
  have notOwned := ((sound.roles (child, s) member).fresh waits).1
  refine sound.update quiet (fun s' isHere => ?_) (fun _ _ isOwned => absurd isOwned notOwned)
    fun s' isHere listens => ?_
  · rw [sound.numbered.same isHere member]
    refine ⟨nofun, nofun, fun _ => ⟨notOwned, ?_⟩, fun listens => ?_⟩
    · rw [isClosed]
      exact nofun
    · exact absurd (isClosed.symm.trans listens) nofun
  · rw [sound.numbered.same isHere member] at listens
    exact absurd (isClosed.symm.trans listens) nofun

theorem AcceptSound.handOut (sound : AcceptSound w) {child : Nat}
    (accepts : w.stack.accepted id = some child)
    (quiet : (w.stack.update child fun s => { s with parent := none, unaccepted := false }).Each QuietSound) :
    AcceptSound { w with
      stack := w.stack.update child fun s => { s with parent := none, unaccepted := false }
      owned := child :: w.owned
      handed := (child, id) :: w.handed } := by
  obtain ⟨-, s, -, -, -, member, isChild, waits, -, notListen, -⟩ := accepted_spec accepts
  have role := sound.roles (child, s) member
  obtain ⟨-, isMade, -⟩ := role.child id isChild
  obtain ⟨-, attached, -, -, notHanded⟩ := role.fresh waits
  refine sound.mapSockets quiet (fun entry isEntry => ?_) (fun entry isEntry listens => ?_)
    (fun other isOwned => ?_)
    (fun pair isHanded => ?_) (List.nodup_cons.mpr ⟨fun isHanded => ?_, sound.once⟩)
  · have before := sound.roles entry isEntry
    split
    · next isId =>
      have isThis : (child, entry.2) ∈ w.stack.sockets := isId ▸ isEntry
      have same : entry.2 = s := sound.numbered.same isThis member
      rw [same]
      exact ⟨nofun, nofun, fun detached => absurd (attached.symm.trans detached) nofun, fun listens => absurd listens notListen⟩
    · next isOther =>
      have follows := (SameRole.refl entry.2).follows before
      refine ⟨follows.parent, fun waits => ?_, fun detached => ?_, follows.listens⟩
      · obtain ⟨waited, notOwned, attached, notListen, orphan, notHanded⟩ := follows.fresh waits
        refine ⟨waited, fun isOwned => ?_, attached, notListen, orphan, List.forall_mem_cons.mpr ⟨Ne.symm isOther, notHanded⟩⟩
        exact (List.mem_cons.mp isOwned).elim isOther notOwned
      · obtain ⟨notOwned, notListen⟩ := follows.loose detached
        exact ⟨fun isOwned => (List.mem_cons.mp isOwned).elim isOther notOwned, notListen⟩
  · split
    · next isId =>
      have isThis : (child, entry.2) ∈ w.stack.sockets := isId ▸ isEntry
      have same : entry.2 = s := sound.numbered.same isThis member
      exact absurd (same ▸ listens) notListen
    · exact .inl listens
  · obtain rfl | before := List.mem_cons.mp isOwned
    · refine ⟨s, member, ?_⟩
      rw [if_pos rfl]
      exact ⟨rfl, attached⟩
    · obtain ⟨t, isHere, both⟩ := sound.owned other before
      refine ⟨t, isHere, ?_⟩
      split
      · exact ⟨rfl, both.2⟩
      · exact both
  · obtain rfl | before := List.mem_cons.mp isHanded
    · exact isMade
    · exact sound.handed pair before
  · obtain ⟨pair, isPair, same⟩ := List.mem_map.mp isHanded
    exact notHanded pair isPair same

theorem get?_mem (found : stack.get? id = some s) : (id, s) ∈ stack.sockets := by
  rw [TcpStack.get?, Option.map_eq_some_iff] at found
  obtain ⟨⟨other, s'⟩, isFound, rfl⟩ := found
  have isId := List.find?_some isFound
  simp only [decide_eq_true_eq] at isId
  exact isId ▸ List.mem_of_find?_eq_some isFound

theorem Numbered.get? (numbered : Numbered stack) (member : (id, s) ∈ stack.sockets) :
    stack.get? id = some s := by
  rw [TcpStack.get?]
  cases found : stack.sockets.find? fun entry => entry.1 = id with
  | none => exact absurd (List.find?_eq_none.mp found (id, s) member) (by simp)
  | some entry =>
      have isId := List.find?_some found
      simp only [decide_eq_true_eq] at isId
      have isEntry := List.mem_of_find?_eq_some found
      have isThis : (id, entry.2) ∈ stack.sockets := isId ▸ isEntry
      exact congrArg some (numbered.same isThis member)

theorem orphan_follows (role : RoleSound w id s) (listener : Nat) :
    Follows w.owned w.handed id s (s.orphan listener) := by
  rw [TcpSocket.orphan]
  split
  · next isChild =>
    have waits := (role.child listener isChild).1
    exact ⟨(by rintro _ ⟨⟩), (by rintro ⟨⟩), fun _ => ⟨(role.fresh waits).1, (by rintro ⟨⟩)⟩,
      (by rintro ⟨⟩)⟩
  · exact (SameRole.refl s).follows role

theorem RoleSound.listener_free (role : RoleSound w id s) (listens : s.state = .listen) (l : Nat) :
    s.parent ≠ some l := by
  intro isChild
  have waits := (role.child l isChild).1
  exact (role.fresh waits).2.2.1 listens

theorem AcceptSound.orphans (sound : AcceptSound w) (listener : Nat) :
    AcceptSound { w with stack := w.stack.mapSockets fun _ => TcpSocket.orphan listener } := by
  refine sound.mapSockets (sound.quiet.mapSockets fun _ s old => quiet_rule.orphan s listener old)
    (fun entry member => orphan_follows (sound.roles entry member) listener)
    (fun entry member listens => .inl ?_) (fun id isOwned => ?_) sound.handed sound.once
  · rw [TcpSocket.orphan, if_neg ((sound.roles entry member).listener_free listens listener)]
    exact listens
  · obtain ⟨s, member, both⟩ := sound.owned id isOwned
    refine ⟨s, member, ?_⟩
    rw [TcpSocket.orphan, if_neg]
    · exact both
    · intro isChild
      have waits := ((sound.roles (id, s) member).child listener isChild).1
      exact absurd (both.1.symm.trans waits) (by rintro ⟨⟩)

theorem orphans_waiting (stack : TcpStack) (listener : Nat) :
    (stack.mapSockets fun _ => TcpSocket.orphan listener).waiting listener = 0 := by
  refine waiting_eq_zero.mpr fun entry member isChild => ?_
  obtain ⟨old, -, rfl⟩ := List.mem_map.mp member
  dsimp only at isChild
  rw [TcpSocket.orphan] at isChild
  split at isChild
  · cases isChild
  · next notChild => exact notChild isChild

theorem abandon_role :
    (s.abandon now sends).1.parent = s.parent ∧ (s.abandon now sends).1.unaccepted = s.unaccepted ∧
    (s.abandon now sends).1.detached = true ∧ (s.abandon now sends).1.state ≠ .listen := by
  have shut := @shutdownWr_role s now sends
  refine ⟨shut.parent, shut.unaccepted, rfl, ?_⟩
  rw [TcpSocket.abandon]
  split
  · rintro ⟨⟩
  · next notListen => exact fun listens => notListen (.inl (shut.listens listens))

theorem AcceptSound.detach (sound : AcceptSound w) (isOwned : id ∈ w.owned)
    (alone : ∀ s, (id, s) ∈ w.stack.sockets → s.state = .listen → w.stack.waiting id = 0)
    (quiet : (w.stack.update id fun s => (s.abandon now sends).1).Each QuietSound) :
    AcceptSound { w with
      stack := w.stack.update id fun s => (s.abandon now sends).1
      owned := w.owned.filter fun other => decide (other ≠ id) } := by
  refine sound.mapSockets quiet (fun entry member => ?_) (fun entry member listens => ?_)
    (fun other stays => ?_) sound.handed sound.once
  · have role := sound.roles entry member
    split
    · next isId =>
      have isHere : (id, entry.2) ∈ w.stack.sockets := isId ▸ member
      obtain ⟨notWaiting, -⟩ := sound.attached isHere isOwned
      obtain ⟨parent, unaccepted, -, notListen⟩ := @abandon_role entry.2 now sends
      refine ⟨fun l isChild => ?_, fun waits => ?_, fun _ => ⟨fun stays => ?_, notListen⟩, fun listens => absurd listens notListen⟩
      · rw [parent] at isChild
        exact ⟨isChild, unaccepted.trans (role.child l isChild).1⟩
      · exact absurd ((unaccepted.trans notWaiting).symm.trans waits) nofun
      · exact absurd isId (of_decide_eq_true (List.mem_filter.mp stays).2)
    · have follows := (SameRole.refl entry.2).follows role
      refine ⟨follows.parent, fun waits => ?_, fun detached => ?_, follows.listens⟩
      · obtain ⟨waited, notOwned, others⟩ := follows.fresh waits
        exact ⟨waited, fun stays => notOwned (List.mem_filter.mp stays).1, others⟩
      · obtain ⟨notOwned, notListen⟩ := follows.loose detached
        exact ⟨fun stays => notOwned (List.mem_filter.mp stays).1, notListen⟩
  · split
    · next isId =>
      refine .inr fun other isOther => ?_
      have none := waiting_eq_zero.mp (alone entry.2 (isId ▸ member) listens) other isOther
      rw [isId]
      split
      · rw [abandon_role.1]
        exact none
      · exact none
    · exact .inl listens
  · obtain ⟨before, notId⟩ := List.mem_filter.mp stays
    obtain ⟨s, member, both⟩ := sound.owned other before
    refine ⟨s, member, ?_⟩
    rw [if_neg (of_decide_eq_true notId)]
    exact both

theorem AcceptSound.abandon (sound : AcceptSound w) (isOwned : id ∈ w.owned) :
    AcceptSound { w with
      stack := w.stack.abandon now sends id
      owned := w.owned.filter fun other => decide (other ≠ id) } := by
  obtain ⟨s, member, -⟩ := sound.owned id isOwned
  rw [TcpStack.abandon, sound.numbered.get? member]
  dsimp only
  split
  · next listens =>
    have orphaned := sound.orphans id
    refine orphaned.detach isOwned (fun _ _ _ => orphans_waiting w.stack id) ?_
    exact orphaned.quiet.update fun s old => quiet_rule.abandon s now sends old
  · next notListen =>
    refine sound.detach isOwned (fun s' isHere listens => ?_)
      (sound.quiet.update fun s old => quiet_rule.abandon s now sends old)
    rw [sound.numbered.same isHere member] at listens
    exact absurd listens notListen

theorem destroy_eq (id : Nat) (stack : TcpStack) : stack.destroy id =
    { stack.mapSockets fun _ s => if s.parent = some id then { s with parent := none, state := .closed } else s with
      sockets := (stack.mapSockets fun _ s =>
        if s.parent = some id then { s with parent := none, state := .closed } else s).sockets.filter fun entry => decide (entry.1 ≠ id) } := by
  rw [TcpStack.destroy, TcpStack.mapSockets, TcpStack.mapSockets, List.filter_map]
  rfl

theorem lose_follows {owned : List Nat} (role : RoleSound w id s)
    (fewer : ∀ other ∈ owned, other ∈ w.owned) (listener : Nat) :
    Follows owned w.handed id s
    (if s.parent = some listener then { s with parent := none, state := .closed } else s) := by
  split
  · next isChild =>
    have waits := (role.child listener isChild).1
    obtain ⟨notOwned, attached, -, -, notHanded⟩ := role.fresh waits
    refine ⟨nofun, fun _ =>
      ⟨waits, fun isOwned => notOwned (fewer id isOwned), attached, nofun, fun _ => rfl, notHanded⟩, fun detached => ?_, nofun⟩
    exact absurd (attached.symm.trans detached) nofun
  · have follows := (SameRole.refl s).follows role
    refine ⟨follows.parent, fun waits => ?_, fun detached => ?_, follows.listens⟩
    · obtain ⟨waited, notOwned, others⟩ := follows.fresh waits
      exact ⟨waited, fun isOwned => notOwned (fewer id isOwned), others⟩
    · obtain ⟨notOwned, notListen⟩ := follows.loose detached
      exact ⟨fun isOwned => notOwned (fewer id isOwned), notListen⟩

theorem AcceptSound.destroy (sound : AcceptSound w) :
    AcceptSound { w with
      stack := w.stack.destroy id
      owned := w.owned.filter fun other => decide (other ≠ id) } := by
  have fewer : ∀ other ∈ w.owned.filter fun other => decide (other ≠ id), other ∈ w.owned :=
    fun other stays =>
    (List.mem_filter.mp stays).1
  have lost : AcceptSound { w with
      stack := w.stack.mapSockets fun _ s => if s.parent = some id then { s with parent := none, state := .closed } else s
      owned := w.owned.filter fun other => decide (other ≠ id) } := by
    refine sound.mapSockets ?_
      (fun entry member => lose_follows (sound.roles entry member) fewer id)
      (fun entry member listens => .inl ?_) (fun other stays => ?_) sound.handed sound.once
    · intro entry member
      obtain ⟨old, isOld, rfl⟩ := List.mem_map.mp member
      dsimp only
      split
      · next isChild => exact quiet_rule.lose old.2 ((sound.roles old isOld).child id isChild).1 (sound.quiet old isOld)
      · exact sound.quiet old isOld
    · rw [if_neg ((sound.roles entry member).listener_free listens id)]
      exact listens
    · obtain ⟨s, member, both⟩ := sound.owned other (fewer other stays)
      refine ⟨s, member, ?_⟩
      rw [if_neg]
      · exact both
      · intro isChild
        have waits := ((sound.roles (other, s) member).child id isChild).1
        exact absurd (both.1.symm.trans waits) nofun
  rw [destroy_eq]
  refine lost.filter _ fun entry member isGone => ?_
  have isId : entry.1 = id := by simpa using isGone
  refine ⟨fun stays => of_decide_eq_true (List.mem_filter.mp stays).2 isId, fun _ => ?_⟩
  rw [isId]
  refine waiting_eq_zero.mpr fun other isOther isChild => ?_
  obtain ⟨old, -, rfl⟩ := List.mem_map.mp isOther
  dsimp only at isChild
  split at isChild
  · cases isChild
  · next notChild => exact notChild isChild

theorem AcceptSound.poll (sound : AcceptSound w) {takes : Nat → Nat} :
    AcceptSound { w with stack := w.stack.poll now takes } := by
  have expired : AcceptSound
    { w with stack := w.stack.mapSockets fun _ => TcpSocket.expireTimeWait now } := by
    refine sound.mapSockets (sound.quiet.mapSockets fun _ s old => quiet_rule.expire s now old)
      (fun entry member => (expire_role now entry.2).follows (sound.roles entry member))
      (fun entry _ listens => .inl ?_) (fun id isOwned => ?_) sound.handed sound.once
    · rw [TcpSocket.expireTimeWait, if_neg (by simp [listens])]
      exact listens
    · obtain ⟨s, member, both⟩ := sound.owned id isOwned
      have same := expire_role now s
      exact ⟨s, member, same.unaccepted.trans both.1, same.detached.trans both.2⟩
  have kept := expired.filter (fun entry => !entry.2.isDead now) fun entry member isGone => by
    have role := expired.roles entry member
    have isDead : entry.2.isDead now = true := by simpa using isGone
    rw [TcpSocket.isDead, Bool.or_eq_true, Bool.and_eq_true, Bool.and_eq_true] at isDead
    obtain ⟨waits, -⟩ | ⟨detached, -⟩ := isDead
    · obtain ⟨notOwned, -, notListen, -⟩ := role.fresh waits
      exact ⟨notOwned, fun listens => absurd listens notListen⟩
    · obtain ⟨notOwned, notListen⟩ := role.loose detached
      exact ⟨notOwned, fun listens => absurd listens notListen⟩
  refine @AcceptSound.mapSockets _ kept (fun id s => (s.poll now (takes id)).1) _ _
    (kept.quiet.mapSockets fun other s old => quiet_rule.poll s now (takes other) old)
    (fun entry member => ?_) (fun entry member listens => .inl ?_) (fun id isOwned => ?_)
    kept.handed kept.once
  · have follows := (@poll_role entry.2 now (takes entry.1)).follows (kept.roles entry member)
    exact follows
  · have role := kept.roles entry member
    refine (kept.quiet entry member).listener_poll listens ?_ ?_
    · cases waits : entry.2.unaccepted with
      | false => rfl
      | true => exact absurd listens (role.fresh waits).2.2.1
    · cases detached : entry.2.detached with
      | false => rfl
      | true => exact absurd listens (role.loose detached).2
  · obtain ⟨s, member, both⟩ := kept.owned id isOwned
    have same := @poll_role s now (takes id)
    exact ⟨s, member, same.unaccepted.trans both.1, same.detached.trans both.2⟩

theorem AcceptSound.input (sound : AcceptSound w) {rxCell txCell : Nat → UInt8} {iss : Seq} :
    AcceptSound { w with
      stack := w.stack.input now sends segment rxCell txCell iss
      made := TcpStack.born w.stack (w.stack.input now sends segment rxCell txCell iss) ++ w.made } := by
  have stays : AcceptSound { w with made := TcpStack.born w.stack w.stack ++ w.made } := by
    rw [born_old sound.numbered.numbered]
    exact sound
  rw [TcpStack.input]
  cases found : w.stack.socketOf segment with
  | some entry =>
      have isFound := List.find?_some found
      simp only [decide_eq_true_eq] at isFound
      have member : (entry.1, entry.2) ∈ w.stack.sockets := List.mem_of_find?_eq_some found
      rw [born_update sound.numbered]
      refine sound.updateRole (sound.quiet.update fun s old =>
        quiet_rule.input s now sends segment old) (fun s _ => input_role) fun s isHere listens => ?_
      rw [sound.numbered.same isHere member] at listens
      exact absurd listens isFound.2.2.1
  | none =>
      dsimp only
      split
      · split
        · next listener foundListener =>
          have isFound := List.find?_some foundListener
          simp only [decide_eq_true_eq] at isFound
          have member := List.mem_of_find?_eq_some foundListener
          rw [TcpStack.inputListen]
          split
          · next room =>
            rw [born_add sound.numbered]
            exact sound.addChild member isFound.1 room.1 room.2 rfl rfl rfl rfl
              (sound.quiet.add (quiet_rule.child _ rxCell txCell iss now segment))
          · exact stays
        · exact stays
      · exact stays

theorem listen_follows {owned : List Nat} {handed : List (Nat × Nat)} (role : RoleSound w id s)
    (isOwned : s.unaccepted = false ∧ s.detached = false) (backlog : Int) :
    Follows owned handed id s (s.listen backlog) := by
  rw [TcpSocket.listen]
  split
  · next isClosed =>
    refine .ofOwned role isOwned ⟨rfl, rfl, rfl⟩ fun _ =>
      ⟨?_, fun listens => absurd (isClosed.2.symm.trans listens) (by rintro ⟨⟩)⟩
    change (max 1 (min 8 backlog)).toNat ≤ 8
    omega
  · exact .ofOwned role isOwned ⟨rfl, rfl, rfl⟩ fun listens =>
      ⟨(role.listens listens).1, fun _ => rfl⟩

theorem connect_follows {owned : List Nat} {handed : List (Nat × Nat)} (role : RoleSound w id s)
    (isOwned : s.unaccepted = false ∧ s.detached = false) (peer : TcpPeer) (port localPort : Nat)
    (iss : Seq) :
    Follows owned handed id s
      (if localPort = 0 then { s with peer := peer, remotePort := port, localPort := localPort }
      else s.connect peer port localPort iss) := by
  split
  · exact .ofOwned role isOwned ⟨rfl, rfl, rfl⟩ fun listens =>
      ⟨(role.listens listens).1, fun _ => rfl⟩
  · exact .ofOwned role isOwned ⟨rfl, rfl, rfl⟩ nofun

theorem AcceptSound.connect (sound : AcceptSound w) (isOwned : id ∈ w.owned)
    (notListen : ∀ s, (id, s) ∈ w.stack.sockets → s.state ≠ .listen) {peer : TcpPeer} {port : Nat}
    {draws : List Nat} {iss : Seq} :
    AcceptSound { w with stack := w.stack.connect id peer port draws iss } := by
  refine sound.update (quiet_rule.connectStack sound.quiet) (fun s member => ?_) (fun s _ _ => ?_)
    fun s member listens => absurd listens (notListen s member)
  · exact connect_follows (sound.roles (id, s) member) (sound.attached member isOwned) peer port
      _ iss
  · dsimp only
    obtain ⟨localPort, isPort⟩ :
      ∃ localPort, (if s.localPort = 0 ∨ w.stack.portUsed s.localPort id then
      w.stack.pickPort draws id else s.localPort) = localPort := ⟨_, rfl⟩
    rw [isPort]
    split <;> exact ⟨rfl, rfl⟩

theorem firstSyn_role {retryAt : Nat} : SameRole s (s.firstSyn now sends retryAt).1 ∧
    (s.firstSyn now sends retryAt).1.state = s.state := by
  rw [TcpSocket.firstSyn]
  split <;> exact ⟨⟨rfl, rfl, rfl, rfl, id, id⟩, rfl⟩

theorem AcceptSound.connectStart (sound : AcceptSound w) (isOwned : id ∈ w.owned) {peer : TcpPeer}
    {port : Nat} {draws : List Nat} {iss : Seq} :
    AcceptSound { w with stack := w.stack.connectStart now sends id peer port draws iss } := by
  rw [TcpStack.connectStart]
  split
  · exact sound
  · next s isHere =>
    split
    · next isClosed =>
      have member := get?_mem isHere
      have connected : AcceptSound { w with stack := w.stack.connect id peer port draws iss } := by
        refine sound.connect isOwned fun s' isThere listens => ?_
        rw [sound.numbered.same isThere member] at listens
        exact absurd (isClosed.symm.trans listens) (by rintro ⟨⟩)
      refine connected.updateRole (connected.quiet.update fun s old => ?_) (fun s _ => ?_) fun s _ listens => .inl ?_
      · split
        · next isState => exact quiet_rule.startSyn s now sends isState old
        · exact old
      · split
        · exact firstSyn_role.1
        · exact .refl s
      · rw [if_neg (by simp [listens])]
        exact listens
    · exact sound

theorem connectStart_nextId (stack : TcpStack) (peer : TcpPeer) (port : Nat) (draws : List Nat)
    (iss : Seq) : (stack.connectStart now sends id peer port draws iss).nextId = stack.nextId := by
  rw [TcpStack.connectStart]
  split
  · rfl
  · split <;> rfl

theorem abandon_nextId (stack : TcpStack) : (stack.abandon now sends id).nextId = stack.nextId := by
  rw [TcpStack.abandon]
  split
  · rfl
  · split <;> rfl

theorem AcceptSound.meets (sound : AcceptSound w) (allowed : w.Allowed call) :
    call.Meets (fun s => s.state ≠ .listen) (fun s => s.unaccepted = true) w.stack := by
  cases call with
  | connectTry id now sends => exact fun s member => allowed.2 (id, s) member rfl
  | destroy id => exact fun entry member isChild => ((sound.roles entry member).child id isChild).1
  | _ => trivial

theorem AcceptSound.step (sound : AcceptSound w) (allowed : w.Allowed call) :
    AcceptSound (w.step call) := by
  have quiet := quiet_rule.step sound.numbered sound.quiet call (sound.meets allowed)
  have updated : ∀ {id change}, AcceptSound { w with stack := w.stack.update id change } →
      AcceptSound { w with
        stack := w.stack.update id change
        made := TcpStack.born w.stack (w.stack.update id change) ++ w.made } := fun after => by
    rw [born_update sound.numbered]
    exact after
  cases call with
  | create rxCell txCell =>
      change AcceptSound { w with
        stack := w.stack.add (TcpSocket.alloc rxCell txCell), owned := w.stack.nextId :: w.owned
        made := TcpStack.born w.stack (w.stack.add (TcpSocket.alloc rxCell txCell)) ++ w.made }
      rw [born_add sound.numbered]
      exact sound.create rxCell txCell quiet
  | destroy id =>
      have destroyed := @AcceptSound.destroy id w sound
      have none : TcpStack.born w.stack (w.stack.destroy id) = [] := born_old destroyed.numbered.numbered
      change AcceptSound { w with
        stack := w.stack.destroy id, owned := w.owned.filter fun other => decide (other ≠ id)
        made := TcpStack.born w.stack (w.stack.destroy id) ++ w.made }
      rw [none]
      exact destroyed
  | bind id port draws =>
      change AcceptSound { w with
        stack := w.stack.bind id port draws
        made := TcpStack.born w.stack (w.stack.bind id port draws) ++ w.made }
      have isBind : tcpStep w.stack (.bind id port draws) = w.stack.bind id port draws := rfl
      rw [isBind] at quiet
      rw [TcpStack.bind] at quiet ⊢
      obtain ⟨chosen, isChosen⟩ : ∃ chosen, (if port = 0 then w.stack.pickPort draws id else
        if w.stack.portUsed port id then 0 else port) = chosen := ⟨_, rfl⟩
      rw [isChosen] at quiet ⊢
      by_cases isZero : chosen = 0
      · rw [if_pos isZero, born_old sound.numbered.numbered]
        exact sound
      · rw [if_neg isZero] at quiet ⊢
        exact updated (sound.updateRole quiet (fun s _ => ⟨rfl, rfl, rfl, rfl, fun l => l, fun c => c⟩) fun s _ listens => .inl listens)
  | listen id backlog =>
      have isOwned : id ∈ w.owned := allowed.1 id rfl
      refine updated (sound.update quiet (fun s member => ?_) (fun s _ _ => ?_) fun s _ listens => .inl ?_)
      · exact listen_follows (sound.roles (id, s) member) (sound.attached member isOwned) backlog
      · rw [TcpSocket.listen]
        split <;> exact ⟨rfl, rfl⟩
      · rw [TcpSocket.listen, if_neg (by simp [listens])]
        exact listens
  | connect id peer port draws iss =>
      refine updated (sound.connect (allowed.1 id rfl) fun s member => ?_)
      exact allowed.2 (id, s) member rfl
  | connectTry id now sends =>
      refine updated (sound.updateRole quiet (fun s _ => ?_) fun s member listens => ?_)
      · rw [TcpSocket.connectTry]
        split
        · exact .refl s
        · exact firstSyn_role.1
      · exact absurd listens (allowed.2 (id, s) member rfl)
  | connectEnd id =>
      refine updated (sound.updateRole quiet (fun s _ => ?_) fun s member listens => ?_)
      · rw [TcpSocket.connectEnd]
        split
        · exact .refl s
        · exact ⟨rfl, rfl, rfl, rfl, (by rintro ⟨⟩), fun _ => rfl⟩
      · exact absurd listens (allowed.2 (id, s) member rfl)
  | connectStart id now sends peer port draws iss =>
      have connected := @AcceptSound.connectStart now sends id w sound (allowed.1 id rfl) peer port draws iss
      have older := connected.numbered.numbered
      rw [connectStart_nextId] at older
      change AcceptSound { w with
        stack := w.stack.connectStart now sends id peer port draws iss
        made := TcpStack.born w.stack (w.stack.connectStart now sends id peer port draws iss) ++ w.made }
      rw [born_old older]
      exact connected
  | accept id =>
      change AcceptSound
        { stack := w.stack.accept id
          owned := (w.stack.accepted id).toList ++ w.owned
          made := TcpStack.born w.stack (w.stack.accept id) ++ w.made
          handed := ((w.stack.accepted id).map fun child => (child, id)).toList ++ w.handed }
      have isAccept : tcpStep w.stack (.accept id) = w.stack.accept id := rfl
      rw [isAccept] at quiet
      obtain ⟨nobody, stays⟩ | ⟨nobody, child, s, member, waits, isClosed, discards⟩ | ⟨child, accepts, hands⟩ :=
        accept_cases w.stack id
      · rw [nobody, stays, born_old sound.numbered.numbered]
        exact sound
      · rw [discards] at quiet
        rw [nobody, discards, born_update sound.numbered]
        exact sound.discard member waits isClosed quiet
      · rw [hands] at quiet
        rw [accepts, hands, born_update sound.numbered]
        exact sound.handOut accepts quiet
  | send id now sends data =>
      refine updated (sound.updateRole quiet (fun s _ => send_role) fun s _ listens => .inl ?_)
      rw [TcpSocket.send, if_neg (by simp [listens])]
      exact listens
  | recv id maxLen =>
      refine updated (sound.updateRole quiet (fun s _ => recv_role) fun s _ listens => .inl ?_)
      rw [TcpSocket.recv]
      split <;> exact listens
  | shutdownWr id now sends =>
      refine updated (sound.updateRole quiet (fun s _ => shutdownWr_role) fun s _ listens => .inl ?_)
      rw [TcpSocket.shutdownWr, if_neg (by simp [listens])]
      exact listens
  | closeEnd id =>
      refine updated (sound.updateRole quiet (fun s _ => ⟨rfl, rfl, rfl, rfl, (by rintro ⟨⟩), fun _ => rfl⟩) fun s member listens => .inr ?_)
      exact allowed.2 (id, s) member rfl listens
  | abandon id now sends =>
      have abandoned := @AcceptSound.abandon now sends id w sound (allowed.1 id rfl)
      have older := abandoned.numbered.numbered
      rw [abandon_nextId] at older
      change AcceptSound { w with
        stack := w.stack.abandon now sends id, owned := w.owned.filter fun other => decide (other ≠ id)
        made := TcpStack.born w.stack (w.stack.abandon now sends id) ++ w.made }
      rw [born_old older]
      exact abandoned
  | input now sends segment rxCell txCell iss => exact sound.input
  | poll now takes =>
      have polled := @AcceptSound.poll now w sound takes
      have none : TcpStack.born w.stack (w.stack.poll now takes) = [] := born_old polled.numbered.numbered
      change AcceptSound { w with
        stack := w.stack.poll now takes, made := TcpStack.born w.stack (w.stack.poll now takes) ++ w.made }
      rw [none]
      exact polled

/-- A listener that is closed takes exactly the connections with it that wait: they are closed,
nobody's, and the next tick frees them.  Every other socket stays as it was. -/
def Disposes (before after : TcpStack) (id : Nat) : Prop :=
  ∀ other s, (other, s) ∈ before.sockets → other ≠ id → ∃ s', (other, s') ∈ after.sockets ∧
    if s.parent = some id then s'.parent = none ∧ s'.state = .closed ∧ ∀ now, s'.isDead now = true
    else s' = s

structure AcceptOk (w : AcceptWorld) : Prop where
  once : (w.handed.map Prod.fst).Nodup
  through : ∀ pair ∈ w.handed, pair ∈ w.made
  madeOnce : (w.made.map Prod.fst).Nodup
  returns : ∀ id child, w.stack.accepted id = some child →
    child ∉ w.handed.map Prod.fst ∧ ∃ s, (child, s) ∈ w.stack.sockets ∧ s.parent = some id ∧
    s.state ≠ .synReceived ∧ s.state ≠ .listen ∧ s.state ≠ .closed
  waits : ∀ entry ∈ w.stack.sockets, ∀ id, entry.2.parent = some id →
    entry.2.unaccepted = true ∧ (entry.1, id) ∈ w.made ∧
    ∃ listener, (id, listener) ∈ w.stack.sockets ∧ listener.state = .listen
  backlog : ∀ entry ∈ w.stack.sockets, entry.2.state = .listen →
    w.stack.waiting entry.1 ≤ entry.2.backlog ∧ w.stack.waiting entry.1 ≤ 8
  total : w.stack.unaccepted ≤ 64
  destroys : ∀ id ∈ w.owned, Disposes w.stack (w.stack.destroy id) id
  abandons : ∀ id ∈ w.owned, ∀ now sends, Disposes w.stack (w.stack.abandon now sends id) id
  kept : ∀ id ∈ w.owned, ∃ s, (id, s) ∈ w.stack.sockets ∧
    ∀ now takes, ∃ s', (id, s') ∈ (w.stack.poll now takes).sockets

theorem AcceptSound.destroys (sound : AcceptSound w) (id : Nat) :
    Disposes w.stack (w.stack.destroy id) id := by
  intro other s member isOther
  rw [destroy_eq]
  refine ⟨_, List.mem_filter.mpr ⟨List.mem_map.mpr ⟨(other, s), member, rfl⟩,
    decide_eq_true isOther⟩, ?_⟩
  dsimp only
  split
  · next isChild =>
    have waits : s.unaccepted = true := ((sound.roles (other, s) member).child id isChild).1
    simp [TcpSocket.isDead, waits]
  · rfl

theorem AcceptSound.abandons (sound : AcceptSound w) (id : Nat) (isOwned : id ∈ w.owned)
    (now sends : Nat) : Disposes w.stack (w.stack.abandon now sends id) id := by
  obtain ⟨t, isHere, -⟩ := sound.owned id isOwned
  intro other s member isOther
  rw [TcpStack.abandon, sound.numbered.get? isHere]
  dsimp only
  split
  · refine ⟨s.orphan id,
      List.mem_map.mpr ⟨(other, s.orphan id), List.mem_map.mpr ⟨(other, s), member, rfl⟩, ?_⟩, ?_⟩
    · dsimp only
      rw [if_neg isOther]
    · rw [TcpSocket.orphan]
      split
      · simp [TcpSocket.isDead]
      · rfl
  · next notListen =>
    have notChild : s.parent ≠ some id := sound.alone isHere notListen (other, s) member
    refine ⟨s, List.mem_map.mpr ⟨(other, s), member, ?_⟩, ?_⟩
    · dsimp only
      rw [if_neg isOther]
    · rw [if_neg notChild]

theorem AcceptSound.ok (sound : AcceptSound w) : AcceptOk w where
  once := sound.once
  through := sound.handed
  madeOnce := sound.madeOnce
  returns id child accepts := by
    obtain ⟨-, s, -, -, -, member, isChild, waits, notReceived, notListen, isOpen⟩ :=
      accepted_spec accepts
    refine ⟨fun isHanded => ?_, s, member, isChild, notReceived, notListen, isOpen⟩
    obtain ⟨pair, isPair, same⟩ := List.mem_map.mp isHanded
    exact ((sound.roles (child, s) member).fresh waits).2.2.2.2 pair isPair same
  waits entry member := (sound.roles entry member).child
  backlog entry member listens := by
    obtain ⟨small, fits⟩ := (sound.roles entry member).listens listens
    exact ⟨fits, Nat.le_trans fits small⟩
  total := sound.total
  destroys id _ := sound.destroys id
  abandons := sound.abandons
  kept id isOwned := by
    obtain ⟨s, member, -⟩ := sound.owned id isOwned
    refine ⟨s, member, fun now takes => ?_⟩
    obtain ⟨s', isHere, -⟩ := (@AcceptSound.poll now w sound takes).owned id isOwned
    exact ⟨s', isHere⟩

theorem AcceptSound.start : AcceptSound AcceptWorld.start where
  numbered := emptyStack_numbered
  quiet := fun _ member => (nomatch member)
  roles := fun _ member => (nomatch member)
  owned := fun _ isOwned => (nomatch isOwned)
  made := fun _ isMade => (nomatch isMade)
  madeOnce := List.nodup_nil
  handed := fun _ isHanded => (nomatch isHanded)
  once := List.nodup_nil
  total := Nat.zero_le _

/-- Over every run of segments, ticks and calls of owners, where no listener is closed under
connections that wait. -/
theorem accept_queue_ok (reached :
    Reaches AcceptWorld.step AcceptWorld.Allowed AcceptWorld.start w) : AcceptOk w := by
  have sound : AcceptSound w := reached.invariant .start fun _ _ sound allowed => sound.step allowed
  exact sound.ok

instance (w : AcceptWorld) : ∀ call, Decidable (w.Allowed call)
  | .connect _ _ _ _ _ => inferInstanceAs (Decidable (_ ∧ ∀ entry ∈ w.stack.sockets, _))
  | .connectTry _ _ _ => inferInstanceAs (Decidable (_ ∧ ∀ entry ∈ w.stack.sockets, _))
  | .connectEnd _ => inferInstanceAs (Decidable (_ ∧ ∀ entry ∈ w.stack.sockets, _))
  | .closeEnd _ => inferInstanceAs (Decidable (_ ∧ ∀ entry ∈ w.stack.sockets, _))
  | .create .. | .destroy .. | .bind .. | .listen .. | .connectStart .. | .accept .. | .send ..
  | .recv .. | .shutdownWr ..
  | .abandon .. | .input .. | .poll .. => inferInstanceAs (Decidable (_ ∧ True))

def servedCalls : List TcpCall :=
  [.create (fun _ => 0) (fun _ => 0), .bind 0 80 [], .listen 0 8,
    .input 5 1 ⟨⟨false, 9⟩, 4000, 80, 99, 0, true, false, false, false, 65535, [], []⟩ (fun _ => 0)
    (fun _ => 0) 7,
    .input 6 1 ⟨⟨false, 9⟩, 4000, 80, 100, 8, false, true, false, false, 65535, [], []⟩ (fun _ => 0)
    (fun _ => 0) 0]

theorem accept_queue_ok_served :
    AcceptOk (runSteps AcceptWorld.step .start (servedCalls ++ [.accept 0, .abandon 0 7 1, .poll 8 fun _ => 1])) ∧
    (runSteps AcceptWorld.step .start (servedCalls ++ [.accept 0])).handed = [(1, 0)] :=
  ⟨accept_queue_ok (Reaches.refl.runSteps (by decide)), by decide⟩

/-- `TCP_MAX_SOCKETS`, which nothing reads. -/
def tcpMaxSockets : Nat := 16

def AcceptWorld.Handled (w : AcceptWorld) (call : TcpCall) : Prop :=
  ∀ id ∈ call.handle, id ∈ w.owned

instance (w : AcceptWorld) (call : TcpCall) : Decidable (w.Handled call) :=
  inferInstanceAs (Decidable (∀ id ∈ call.handle, id ∈ w.owned))

def synFrom (srcPort dstPort : Nat) : TcpCall :=
  .input 5 1 ⟨⟨false, 9⟩, srcPort, dstPort, 99, 0, true, false, false, false, 65535, [], []⟩
    (fun _ => 0) (fun _ => 0) 7

/-- `tcp_socket_close` leaves the connections of a listener as they are, and two listeners can fill
the table beyond the limit. -/
theorem accept_queue_closed_listener :
    (¬ ∀ w, Reaches AcceptWorld.step AcceptWorld.Handled .start w → ∀ id ∈ w.owned,
      Disposes w.stack (tcpStep w.stack (.closeEnd id)) id) ∧
    ¬ ∀ w, Reaches AcceptWorld.step AcceptWorld.Handled .start w →
    w.stack.sockets.length ≤ tcpMaxSockets := by
  refine ⟨fun disposes => ?_, fun bounded => ?_⟩
  · have closes := disposes (runSteps AcceptWorld.step .start servedCalls)
      (Reaches.refl.runSteps (by decide)) 0 (by decide)
    have isChild : ((runSteps AcceptWorld.step .start servedCalls).stack.get? 1).map (·.parent) =
      some (some 0) := by
      decide
    obtain ⟨s, isHere, isParent⟩ := Option.map_eq_some_iff.mp isChild
    obtain ⟨s', isAfter, disposed⟩ := closes 1 s (get?_mem isHere) (by decide)
    rw [if_pos isParent] at disposed
    have stays : (tcpStep (runSteps AcceptWorld.step .start servedCalls).stack (.closeEnd 0)).sockets.all
        (fun entry => decide (entry.1 = 1 → entry.2.state ≠ .closed)) = true := by decide
    exact of_decide_eq_true (List.all_eq_true.mp stays (1, s') isAfter) rfl disposed.2.1
  · have many := bounded (runSteps AcceptWorld.step .start ([.create (fun _ => 0) (fun _ => 0), .bind 0 80 [], .listen 0 8,
        .create (fun _ => 0) (fun _ => 0), .bind 1 81 [], .listen 1 8] ++
        (List.range 8).map (fun i => synFrom (4000 + i) 80) ++ (List.range 8).map (fun i => synFrom (4000 + i) 81)))
      (Reaches.refl.runSteps (by decide))
    revert many
    decide

end Cos.Net
