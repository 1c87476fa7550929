import Cos.Messenger.GroupKeys

/-! # Runs against a relay server

Frames of the server with any contents, decisions of the user, the clock, and restarts.  Beside the
client a run keeps the pinned identities and, for each group, who was approved: by the user, or by a
roster that an admin signed.
-/

namespace Cos.Messenger

open Cos.Lib

variable {Own : Type} (cr : GroupCrypto Own)

inductive RelayCall (Own : Type)
  | group (gid owner : Text) (room : Bool)
  | gmember (gid uid : Text) (role : Option Nat)
  | gmemberDel (gid uid : Text) (draw : Draw) (unix : Nat)
  | groupDel (gid : Text)
  | friend (uid : Text) (room : Bool)
  | friendDel (uid : Text)
  | okGkey (gid uid : Text) (epoch now : Nat)
  | gmsg (gid sender text : Text) (rid : Nat) (refeeding repeated : Bool) (now unix : Nat)
    (sent : Bool)
  | gkeyIn (gid sender : Text) (epoch : Nat) (text : Text) (refeeding : Bool) (now unix : Nat)
    (sent : Bool)
  | login
  | drop
  | synced (draws : List Draw) (unix : Nat)
  | setRole (gid uid : Text) (role : Option Nat) (unix : Nat)
  | gsend (gid : Text) (id kind : Nat) (plain : Text) (draw : Draw) (unix : Nat)
  | tick (draw : Draw) (id now unix room : Nat)
  | peer (call : PeerCall Own)
  | restart (ready : Bool) (own : Own) (chats : List Text)

/-- What a restart finds: the chats of the contact file, without their members, and the saved
tables. -/
def Client.restart (c : Client Own) (ready : Bool) (own : Own) (chats : List Text) : Client Own :=
  { c with
    peers := (peerCall cr.toCrypto c.peers (.restart ready own)).2
    online := false
    synced := false
    chats := chats.map fun uid => ⟨uid, []⟩
    ginf := [] }

def relayCall (c : Client Own) : RelayCall Own → List Wrap × Client Own
  | .group gid owner room => ([], groupFrame c gid owner room)
  | .gmember gid uid role => ([], gmemberFrame c gid uid role)
  | .gmemberDel gid uid draw unix => ([], gmemberDelFrame c gid uid draw unix)
  | .groupDel gid => ([], groupDelFrame c gid)
  | .friend uid room =>
      ([], if (c.findUid uid).isNone ∧ room then { c with chats := c.chats ++ [⟨uid.take 11, []⟩] } else c)
  | .friendDel uid => ([], removeContact c uid)
  | .okGkey gid uid epoch now => ([], e2eGkeyOk c gid uid epoch now)
  | .gmsg gid sender text rid refeeding repeated now unix sent =>
      ([], (gmsgIn cr c gid sender text rid refeeding repeated now unix sent).2)
  | .gkeyIn gid sender epoch text refeeding now unix sent =>
      ([], e2eGkeyIn cr c gid sender epoch text refeeding now unix sent)
  | .login => ([], { c with online := true })
  | .drop => ([], c.drop)
  | .synced draws unix => ([], syncedFrame c draws unix)
  | .setRole gid uid role unix =>
    ([], { c with rosts := rostSet c.rosts c.accId gid uid role unix })
  | .gsend gid id kind plain draw unix =>
      match c.chat gid with
      | some g => ([], (e2eGwire cr c g id kind plain draw unix).2)
      | none => ([], c)
  | .tick draw id now unix room =>
      match rostTick cr c draw id unix room with
      | (posted, c) => gkDistribute cr c now (if posted.isSome then room - 1 else room)
  | .peer call => ([], { c with peers := (peerCall cr.toCrypto c.peers call).2 })
  | .restart ready own chats => ([], c.restart cr ready own chats)

structure RelayWorld (Own : Type) where
  c : Client Own
  pins : Text → Option (List UInt8)
  approved : List (Text × Text)

def peerPart (call : RelayCall Own) : Option (PeerCall Own) :=
  match call with
  | .peer call => some call
  | .restart ready own _ => some (.restart ready own)
  | _ => none

def RelayWorld.peerWorld (w : RelayWorld Own) : PeerWorld Own := ⟨w.c.peers, w.pins⟩

/-- A signed roster that is taken: it opens with the bundle of its sender, which is one of the
pinned identity, and the roster before trusts the sender as an admin. -/
def signedRoster (w : RelayWorld Own) (g : Chat) (sender : Text) (unix : Nat) (got : Got) :
    Option Text :=
  match got with
  | .opened b plain =>
      if w.pins sender = some (cr.fp b) ∧ 1 ≤ w.c.role g.uid sender then
        (rosterOf plain).filter fun p => (rostApply g.uid sender p unix w.c.rosts).1
      else none
  | _ => none

def namedIn (p : Text) : List Text :=
  match (strtoul p).2 with
  | '|' :: list => ((rostEntries rostMax list).getD []).map Prod.fst
  | _ => []

def takenRoster (w : RelayWorld Own) (call : RelayCall Own) : Option (Text × Text) :=
  match call with
  | .gmsg gid sender text rid refeeding repeated now unix sent =>
      match w.c.chat gid with
      | some g =>
          (signedRoster cr w g sender unix (gmsgIn cr w.c gid sender text rid refeeding repeated now unix sent).1).map (g.uid, ·)
      | none => none
  | _ => none

def approve (w : RelayWorld Own) (call : RelayCall Own) : List (Text × Text) :=
  match takenRoster cr w call, call with
  | some (gid, p), _ => (namedIn p).map (gid, ·) ++ w.approved
  | none, .setRole gid uid (some _) _ =>
    if 1 ≤ w.c.role gid w.c.accId then (gid, uid) :: w.approved else w.approved
  | none, .groupDel gid =>
    if (w.c.chat gid).isSome then w.approved.filter (·.1 ≠ gid) else w.approved
  | none, _ => w.approved

def relayStep (w : RelayWorld Own) (call : RelayCall Own) : RelayWorld Own :=
  ⟨(relayCall cr w.c call).2,
    match peerPart call with
    | some call => pinStep cr.toCrypto w.peerWorld call
    | none => w.pins,
    approve cr w call⟩

/-- A signed roster of the group is taken, or the user changes it. -/
def decided (w : RelayWorld Own) (call : RelayCall Own) (gid : Text) : Prop :=
  (∃ p, takenRoster cr w call = some (gid, p)) ∨ ∃ uid role unix, call = .setRole gid uid role unix

/-- What a step may do: keys go to people who were approved, under their pinned identity, and the
owners of a group stay unless somebody decides for the group. -/
structure RelayRule (w : RelayWorld Own) (call : RelayCall Own) : Prop where
  wraps : ∀ wrap ∈ (relayCall cr w.c call).1, (wrap.gid, wrap.uid) ∈ w.approved ∧
    w.pins wrap.uid = some (cr.fp wrap.b)
  owners : ∀ gid before after, ¬ decided cr w call gid → rostFind w.c.rosts gid = some before →
    rostFind (relayStep cr w call).c.rosts gid = some after → ∀ uid, (uid, 2) ∈ before.m ↔
    (uid, 2) ∈ after.m

def reloadCondition (s : Peers Own) : PeerCall Own → Prop
  | .restart .. => ∀ p ∈ s.kr, p.ks ≠ 0 → plainId p.uid = true
  | _ => True

/-- An admin's client is not told that the owner has left; in our own group nobody holds a record of
a key but a member of the roster; the file can hold the names of everybody who is pinned. -/
def relayCondition (w : RelayWorld Own) : RelayCall Own → Prop
  | .gmemberDel gid uid _ _ =>
      ¬ (w.c.synced = true ∧ 1 ≤ w.c.role gid w.c.accId ∧ uid ≠ w.c.accId ∧ w.c.role gid uid = 2)
  | .tick .. => ∀ g ∈ w.c.chats, (rostFind w.c.rosts g.uid).any (bareOwn w.c.accId) = true →
      ∀ s ∈ w.c.gsent, s.gid = g.uid → gkIsMember g s.uid = true → s.uid = w.c.accId
  | .peer call => reloadCondition w.c.peers call
  | .restart ready own _ => reloadCondition w.c.peers (.restart ready own)
  | _ => True

instance (s : Peers Own) : ∀ call : PeerCall Own, Decidable (reloadCondition s call)
  | .restart .. => inferInstanceAs (Decidable (∀ p ∈ s.kr, p.ks ≠ 0 → plainId p.uid = true))
  | .key .. | .lanKey .. | .timeout .. | .request .. | .requestContact .. | .lookAgain ..
  | .send .. | .msgIn .. | .lanMsgIn .. | .delIn .. | .trust .. | .verify .. | .require ..
  | .maintain .. => isTrue trivial

instance (w : RelayWorld Own) : ∀ call : RelayCall Own, Decidable (relayCondition w call)
  | .gmemberDel gid uid _ _ => inferInstanceAs (Decidable (¬ (w.c.synced = true ∧ 1 ≤ w.c.role gid w.c.accId ∧
      uid ≠ w.c.accId ∧ w.c.role gid uid = 2)))
  | .tick .. => inferInstanceAs (Decidable (∀ g ∈ w.c.chats, (rostFind w.c.rosts g.uid).any (bareOwn w.c.accId) = true →
      ∀ s ∈ w.c.gsent, s.gid = g.uid → gkIsMember g s.uid = true → s.uid = w.c.accId))
  | .peer call => inferInstanceAs (Decidable (reloadCondition w.c.peers call))
  | .restart ready own _ =>
    inferInstanceAs (Decidable (reloadCondition w.c.peers (.restart ready own)))
  | .group .. | .gmember .. | .groupDel .. | .friend .. | .friendDel .. | .okGkey .. | .gmsg ..
  | .gkeyIn .. | .login | .drop | .synced .. | .setRole .. | .gsend .. => isTrue trivial

end Cos.Messenger
