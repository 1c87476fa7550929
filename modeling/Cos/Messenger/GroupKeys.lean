import Cos.Lib.Span
import Cos.Messenger.PeerRuns

/-! # Group keys and rosters

What a client knows of its groups: the members that the server lists, the rosters, the keys, whom
each key was handed to, and what is on its way.
-/

namespace Cos.Messenger

open Cos.Lib

structure Gkey where
  gid : Text
  by_ : Text
  epoch : Nat
  created : Nat
  key : List UInt8
  mine : Bool
deriving DecidableEq

structure Gsent where
  gid : Text
  epoch : Nat
  uid : Text
deriving DecidableEq

structure Gtomb where
  gid : Text
  epoch : Nat
deriving DecidableEq

structure Ginf where
  gid : Text
  uid : Text
  epoch : Nat
  t : Nat
deriving DecidableEq

structure Gmem where
  uid : Text
  role : Nat
deriving DecidableEq

structure Chat where
  uid : Text
  gm : List Gmem
deriving DecidableEq

def isGroup (g : Chat) : Bool := g.uid.head? = some 'g'

structure GroupCrypto (Own : Type) extends Crypto Own where
  wrap : Own → Bundle → Text → List UInt8 → Option Text
  /-- `.error true` when the text is not by the sender, or was altered. -/
  unwrap : Own → List UInt8 → Text → List UInt8 → Except Bool (List UInt8)
  sealGroup : Own → Gkey → Text → Text → Option Text
  verifyGroup : List UInt8 → Text → List UInt8 → Bool
  openGroup : List UInt8 → List UInt8 → Text → List UInt8 → Option Text

structure Client (Own : Type) where
  peers : Peers Own
  online : Bool
  synced : Bool
  chats : List Chat
  rosts : List Rost
  gks : List Gkey
  gsent : List Gsent
  tombs : List Gtomb
  ginf : List Ginf

def gkMax : Nat := 96
def sentMax : Nat := 1024
def tombMax : Nat := 1024

def gkFind (gks : List Gkey) (gid : Text) (epoch : Nat) : Option Gkey :=
  gks.find? fun k => k.epoch = epoch ∧ k.gid = gid

def newer (k best : Gkey) : Bool :=
  best.created < k.created || (k.created = best.created && best.epoch < k.epoch)

def gkNewest (gks : List Gkey) (gid : Text) : Option Gkey :=
  gks.foldl (fun best k =>
    if k.gid = gid then
      match best with
      | none => some k
      | some b => if newer k b then some k else best
    else best) none

def gkOldest (kind : Gkey → Bool) (gks : List Gkey) : Option Nat :=
  (gks.zipIdx.foldl (fun best (k, i) =>
    if kind k then
      match best with
      | none => some (k.created, i)
      | some (created, _) => if k.created < created then some (k.created, i) else best
    else best) none).map Prod.snd

def gkDropOldest (kind : Gkey → Bool) (gks : List Gkey) : List Gkey :=
  match gkOldest kind gks with
  | some i => swapRemove gks i
  | none => gks

def gkDropFrom (limit : Nat) (kind : Gkey → Bool) (gks : List Gkey) : List Gkey :=
  if limit ≤ gks.countP kind then gkDropOldest kind gks else gks

def gkTombHas (tombs : List Gtomb) (gid : Text) (epoch : Nat) : Bool :=
  tombs.any fun t => t.epoch = epoch ∧ t.gid = gid

def pushRecord {α : Type} (limit : Nat) (items : List α) (item : α) : List α :=
  (if limit ≤ items.length then items.tail else items) ++ [item]

def gkTombAdd (tombs : List Gtomb) (gid : Text) (epoch : Nat) : List Gtomb :=
  if gkTombHas tombs gid epoch then tombs else pushRecord tombMax tombs ⟨gid, epoch⟩

def gkSent (gsent : List Gsent) (ginf : List Ginf) (gid : Text) (epoch : Nat) (uid : Text)
    (now : Nat) : Bool :=
  (gsent.any fun s => s.epoch = epoch ∧ s.gid = gid ∧ s.uid = uid) ||
    ginf.any fun f => f.epoch = epoch ∧ f.gid = gid ∧ f.uid = uid ∧ since now f.t < 20000

def gkIsMember (g : Chat) (uid : Text) : Bool := g.gm.any (·.uid = uid)

def gkRoleOf (g : Chat) (uid : Text) : Int :=
  match g.gm.find? (·.uid = uid) with
  | some m => m.role
  | none => -1

/-- What the random generator gives for a new key; an epoch that is not free is drawn again. -/
structure Draw where
  epoch : Nat
  key : List UInt8
deriving DecidableEq

def rostPinOwner (rosts : List Rost) (gid owner : Text) : List Rost :=
  if (rostFind rosts gid).isSome ∨ rostGroups ≤ rosts.length ∨ 12 ≤ gid.length ∨ 12 ≤ owner.length ∨
    owner = [] then rosts
  else rosts ++ [⟨gid, 0, false, [(owner, 2)]⟩]

def rostHas (rosts : List Rost) (gid uid : Text) : Bool := 0 ≤ rostRole rosts gid uid

def rostForget (rosts : List Rost) (gid : Text) : List Rost :=
  match rosts.findIdx? (·.gid = gid) with
  | some i => swapRemove rosts i
  | none => rosts

def rostTouch (r : Rost) (unix : Nat) : Rost :=
  { r with t := if r.t < unix % 2 ^ 32 then unix % 2 ^ 32 else (r.t + 1) % 2 ^ 32, post := true }

/-- `rost_set`; no role removes. -/
def rostSet (rosts : List Rost) (acc gid uid : Text) (role : Option Nat) (unix : Nat) : List Rost :=
  match rostFind rosts gid with
  | none => rosts
  | some r =>
      if rostRole rosts gid acc < 1 ∨ 12 ≤ uid.length then rosts
      else
        match r.m.findIdx? (·.1 = uid), role with
        | some i, none => rostPut (rostTouch { r with m := swapRemove r.m i } unix) rosts
        | some i, some role => rostPut (rostTouch { r with m := r.m.set i (uid, role) } unix) rosts
        | none, some role =>
            if rostMax ≤ r.m.length then rosts else rostPut (rostTouch { r with m := r.m ++ [(uid, role)] } unix) rosts
        | none, none => rosts

section

variable {Own : Type} (cr : GroupCrypto Own) (c : Client Own)

def Client.accId : Text := c.peers.accId

def Client.role (gid uid : Text) : Int := rostRole c.rosts gid uid

def Client.findUid (uid : Text) : Option Nat := c.chats.findIdx? fun g => g.uid ≠ [] ∧ g.uid = uid

/-- `find_uid` and the chat there. -/
def Client.chat (uid : Text) : Option Chat := (c.findUid uid).bind (c.chats[·]?)

def Client.setChat (uid : Text) (g : Chat) : Client Own :=
  match c.findUid uid with
  | some i => { c with chats := c.chats.set i g }
  | none => c

def Client.drop : Client Own := { c with online := false, synced := false }

def gkAdd (k : Gkey) : Client Own :=
  let gks := gkDropFrom 3 (fun other => other.gid = k.gid ∧ other.by_ = k.by_) c.gks
  let gks := gkDropFrom 8 (fun other => other.gid = k.gid) gks
  let gks := if gkMax ≤ gks.length then gkDropOldest (fun _ => true) gks else gks
  { c with gks := gks ++ [k], tombs := gkTombAdd c.tombs k.gid k.epoch }

def epochFree (gid : Text) (epoch : Nat) : Bool :=
  epoch ≠ 0 && (gkFind c.gks gid epoch).isNone && ! gkTombHas c.tombs gid epoch

def gkCreate (gid : Text) (draw : Draw) (unix : Nat) : Client Own :=
  gkAdd c ⟨gid, c.accId, draw.epoch, unix % 2 ^ 32, draw.key, true⟩

def gkForget (gid : Text) : Client Own :=
  { c with
    gks := swapFilter (·.gid ≠ gid) c.gks
    gsent := swapFilter (·.gid ≠ gid) c.gsent
    tombs := swapFilter (·.gid ≠ gid) c.tombs
    ginf := swapFilter (·.gid ≠ gid) c.ginf }

def e2eGkeyOk (gid uid : Text) (epoch now : Nat) : Client Own :=
  let c := { c with ginf := swapFilter (fun f => ! (f.epoch = epoch ∧ f.gid = gid ∧ f.uid = uid)) c.ginf }
  if gkSent c.gsent c.ginf gid epoch uid now ∨ 12 ≤ gid.length ∨ 12 ≤ uid.length then c
  else { c with gsent := pushRecord sentMax c.gsent ⟨gid, epoch, uid⟩ }

def gone (g : Chat) : Bool := c.gsent.any fun s => s.gid = g.uid ∧ gkIsMember g s.uid = false

def gkRekeyCheck (g : Chat) (draw : Draw) (unix : Nat) : Client Own :=
  if c.peers.ready = false ∨ g.gm = [] ∨ c.role g.uid c.accId < 1 then c
  else if gone c g = false then c
  else if epochFree c g.uid draw.epoch = false then c
  else gkCreate { c with gsent := swapFilter (fun s => ! (s.gid = g.uid ∧ gkIsMember g s.uid = false)) c.gsent } g.uid draw unix

inductive GroupWire
  | ok (k : Gkey) (env : Text)
  | plain
  | wait
  | fail
deriving DecidableEq

def e2eGwire (g : Chat) (id kind : Nat) (plain : Text) (draw : Draw) (unix : Nat) :
    GroupWire × Client Own :=
  if c.peers.ready = false then (if c.peers.req then .fail else .plain, c)
  else if g.gm = [] then (.wait, c)
  else if maxPt < plain.length then (.fail, c)
  else
    let made := (gkNewest c.gks g.uid).isNone ∧ 1 ≤ c.role g.uid c.accId ∧ epochFree c g.uid draw.epoch = true
    let c := if made then gkCreate c g.uid draw unix else c
    match if made then some ⟨g.uid, c.accId, draw.epoch, unix % 2 ^ 32, draw.key, true⟩ else gkNewest c.gks g.uid with
    | none => (.wait, c)
    | some k =>
        match cr.sealGroup c.peers.own k (wireCtx c.accId g.uid id kind) plain with
        | some env => (.ok k env, c)
        | none => (.fail, c)

structure Wrap where
  gid : Text
  uid : Text
  k : Gkey
  b : Bundle
deriving DecidableEq

/-- One pass: how many frames the connection still takes, and how many the client still sends. -/
structure Pass (Own : Type) where
  c : Client Own
  room : Nat
  budget : Nat
  wraps : List Wrap
  past : Bool

def be32 (n : Nat) : List UInt8 :=
  [UInt8.ofNat (n / 2 ^ 24), UInt8.ofNat (n / 2 ^ 16), UInt8.ofNat (n / 2 ^ 8), UInt8.ofNat n]

def gkeyCtx (sender recipient gid : Text) (epoch : Nat) : Text :=
  sender ++ '|' :: (recipient ++ '|' :: (gid ++ ':' :: (digits epoch ++ ['|', 'K'])))

def distMember (now : Nat) (g : Chat) (k : Gkey) (s : Pass Own) (m : Gmem) : Pass Own :=
  if s.past ∨ s.budget = 0 then s
  else if m.uid = s.c.accId ∨ rostHas s.c.rosts g.uid m.uid = false ∨
    gkSent s.c.gsent s.c.ginf g.uid k.epoch m.uid now then s
  else
    let kr := pkr s.c.peers.kr m.uid
    let p := pkrGet kr m.uid
    if p.kchecked = false ∨ refreshMs < since now p.kfetch then
      if p.kwait then { s with c := { s.c with peers := { s.c.peers with kr := kr } } }
      else
        -- The question does not leave when the connection breaks.
        let sent := s.c.online && decide (s.room ≠ 0)
        let c := { s.c with peers := { s.c.peers with kr := e2eRequestUid kr m.uid now sent } }
        { s with c := if sent then c else c.drop, room := s.room - 1, budget := s.budget - 1 }
    else if p.hasKb = false ∨ p.kchanged then { s with c := { s.c with peers := { s.c.peers with kr := kr } } }
    else
      match cr.wrap s.c.peers.own p.kb (gkeyCtx s.c.accId m.uid g.uid k.epoch) (k.key ++ be32 k.created) with
      | none => { s with c := { s.c with peers := { s.c.peers with kr := kr } } }
      | some _ =>
          let c := { s.c with peers := { s.c.peers with kr := kr } }
          if s.c.online = false ∨ s.room = 0 then { s with c := c.drop, past := true }
          else
            { s with
              c := { c with ginf := pushRecord 32 c.ginf ⟨g.uid, m.uid, k.epoch, now⟩ }
              room := s.room - 1
              budget := s.budget - 1
              wraps := s.wraps ++ [⟨g.uid, m.uid, k, p.kb⟩] }

def distKey (now : Nat) (g : Chat) (role : Int) (newest : Option Gkey) (s : Pass Own) (k : Gkey) :
    Pass Own :=
  if k.gid ≠ g.uid then s
  else if k.mine = false ∧ ¬ (1 ≤ role ∧ some k = newest) then s
  else g.gm.foldl (distMember cr now g k) s

def distGroup (now : Nat) (s : Pass Own) (g : Chat) : Pass Own :=
  if isGroup g = false ∨ g.gm = [] then s
  else s.c.gks.foldl (distKey cr now g (s.c.role g.uid s.c.accId) (gkNewest s.c.gks g.uid)) s

def gkDistribute (now room : Nat) : List Wrap × Client Own :=
  if c.peers.ready = false ∨ c.online = false then ([], c)
  else
    let s := c.chats.foldl (distGroup cr now) ⟨c, room, 3, [], false⟩
    (s.wraps, s.c)

/-- In our own group the people who already hold the key are approved. -/
def ownRoster (g : Chat) (r : Rost) (unix : Nat) : Rost :=
  let m := c.gsent.foldl (fun m s =>
    if s.gid = g.uid ∧ gkIsMember g s.uid ∧ ! (m.any (·.1 = s.uid)) ∧ m.length < rostMax then
      m ++ [(s.uid, if 0 < gkRoleOf g s.uid then 1 else 0)]
    else m) r.m
  { r with m := m, t := unix % 2 ^ 32, post := 1 < m.length }

def bareOwn (acc : Text) (r : Rost) : Bool := r.t = 0 && r.m.map Prod.fst = [acc]

def rostText (r : Rost) : Text :=
  Char.ofNat 1 :: 'R' :: '|' :: (digits r.t ++ '|' ::
    [','].intercalate (r.m.map fun entry => entry.1 ++ ':' :: digits entry.2))

/-- `rost_post`, with what the connection still takes: whether it is done, and the key the roster
was sealed with. -/
def rostPost (g : Chat) (r : Rost) (draw : Draw) (id unix room : Nat) :
    Bool × Option Gkey × Client Own :=
  if c.online = false ∨ c.peers.ready = false ∨ g.gm = [] then (false, none, c)
  else
    match e2eGwire cr c g id 0 (rostText r) draw unix with
    | (.wait, c) => (false, none, c)
    | (.ok k _, c) => (true, if room = 0 then none else some k, if room = 0 then c.drop else c)
    | (_, c) => (true, none, c)

structure RostPass (Own : Type) where
  c : Client Own
  posted : Option Gkey
  past : Bool

def rostTickChat (draw : Draw) (id unix room : Nat) (s : RostPass Own) (g : Chat) : RostPass Own :=
  if s.past ∨ isGroup g = false ∨ g.gm = [] then s
  else
    match rostFind s.c.rosts g.uid with
    | none => s
    | some r =>
        let r := if bareOwn s.c.accId r then ownRoster s.c g r unix else r
        let c := { s.c with rosts := rostPut r s.c.rosts }
        if r.post ∧ 1 ≤ c.role g.uid c.accId then
          match rostPost cr c g r draw id unix room with
          | (true, sealed, c) => ⟨{ c with rosts := rostPut { r with post := false } c.rosts }, sealed, true⟩
          | (false, sealed, c) => ⟨c, sealed, true⟩
        else ⟨c, s.posted, false⟩

def rostTick (draw : Draw) (id unix room : Nat) : Option Gkey × Client Own :=
  if c.peers.ready = false ∨ c.online = false then (none, c)
  else
    let s := c.chats.foldl (rostTickChat cr draw id unix room) ⟨c, none, false⟩
    (s.posted, s.c)

def groupEncrypted (text : Text) : Bool := text.take 2 = [Char.ofNat 1, 'G']

/-- Whether an answer is waited for, the cleared entry included, which shows a question that was
just sent. -/
def waitsFor (kr : List Pkey) (uid : Text) (sent : Bool) : Bool :=
  if (pkrFind kr uid).isSome then (pkrGet kr uid).kwait else sent

def groupEpoch (env : List UInt8) : Nat :=
  if env.head? = some 2 ∧
    5 ≤ env.length then ((env.drop 1).take 4).foldl (fun value byte => value * 256 + byte.toNat) 0
    else 0

/-- `E2E_GFIXED + E2E_PAD`. -/
def groupMin : Nat := 161

/-- `e2e_gin`; the keys are asked for with `sent`. -/
def e2eGin (g : Chat) (sender text : Text) (rid kind : Nat) (refeeding : Bool) (now : Nat)
    (sent : Bool) : Got × Client Own :=
  if groupEncrypted text = false then
    (if c.peers.req ∨ (gkNewest c.gks g.uid).isSome then .note else .asIs, c)
  else
    let kr := pkr c.peers.kr sender
    let asks := (pkrGet kr sender).kchecked = false ∧ refeeding = false
    let kr := if asks then e2eRequestUid kr sender now sent else kr
    let c := { c with peers := { c.peers with kr := kr } }
    let p := pkrGet kr sender
    if asks ∧ waitsFor kr sender sent then (.parked, c)
    else if p.kchanged then (if refeeding then .note else .parked, c)
    else if c.peers.ready = false ∨ p.hasKb = false then (.note, c)
    else
      match e2eB64dec (text.drop 2) 3300 with
      | none => (.note, c)
      | some env =>
          if env.length < groupMin then (.note, c)
          else
            let ctx := wireCtx sender g.uid rid kind
            match gkFind c.gks g.uid (groupEpoch env) with
            | none => (if cr.verifyGroup p.kb.ikSg ctx env then .parked else .note, c)
            | some k =>
                match cr.openGroup p.kb.ikSg k.key ctx env with
                | some plain => (.opened p.kb plain, c)
                | none => (.note, c)

def rosterOf : Text → Option Text
  | a :: b :: '|' :: p => if a = Char.ofNat 1 ∧ b = 'R' then some p else none
  | _ => none

/-- A group message; `repeated` when it was shown before. -/
def gmsgIn (gid sender text : Text) (rid : Nat) (refeeding repeated : Bool) (now unix : Nat)
    (sent : Bool) : Got × Client Own :=
  match c.chat gid with
  | none => (.note, c)
  | some g =>
      if repeated then (.note, c)
      else
        match e2eGin cr c g sender text rid 0 refeeding now sent with
        | (.opened b plain, c) =>
            match rosterOf plain with
            | some p => (.opened b plain, { c with rosts := (rostApply g.uid sender p unix c.rosts).2 })
            | none => (.opened b plain, c)
        | other => other

/-- `GKEY_IN`. -/
def e2eGkeyIn (gid sender : Text) (epoch : Nat) (text : Text) (refeeding : Bool) (now unix : Nat)
    (sent : Bool) : Client Own :=
  match c.chat gid with
  | none => c
  | some g =>
      if g.gm ≠ [] ∧ gkIsMember g sender = false then c
      else if epochFree c g.uid epoch = false then c
      else if c.role g.uid sender < 1 then c
      else
        let kr := pkr c.peers.kr sender
        let asks := (pkrGet kr sender).kchecked = false ∧ refeeding = false
        let kr := if asks then e2eRequestUid kr sender now sent else kr
        let c := { c with peers := { c.peers with kr := kr } }
        let p := pkrGet kr sender
        if asks ∧ waitsFor kr sender sent then c
        else if p.kchanged then c
        else if c.peers.ready = false ∨ p.hasKb = false ∨ encrypted text = false then c
        else
          match e2eB64dec (text.drop 2) 600 with
          | none | some [] => c
          | some env =>
              match cr.unwrap c.peers.own p.kb.ikDh (gkeyCtx sender c.accId g.uid epoch) env with
              | .ok body =>
                  if body.length ≠ 36 then c
                  else
                    let created := (body.drop 32).foldl (fun value byte => value * 256 + byte.toNat) 0
                    gkAdd c ⟨g.uid, sender, epoch, min created (unix % 2 ^ 32), body.take 32, false⟩
              | .error true =>
                  if refeeding = false ∧ 20000 < since now p.kfetch then
                    { c with peers := { c.peers with
                      kr := e2eRequestUid (pkrSet sender (fun p => { p with kchecked := false }) kr) sender now sent } }
                  else c
              | .error false => c

/-- `GROUP`; `room` when there is a place for another chat. -/
def groupFrame (gid owner : Text) (room : Bool) : Client Own :=
  if (c.findUid gid).isNone ∧ room = false then c
  else
    let c := if (c.findUid gid).isSome then c else { c with chats := c.chats ++ [⟨gid.take 11, []⟩] }
    { c with rosts := rostPinOwner c.rosts gid owner }

def gmSet (gm : List Gmem) (uid : Text) : List Gmem :=
  if gm.any (·.uid = uid) then gm else gm ++ [⟨uid.take 11, 0⟩]

def gmRole (gm : List Gmem) (uid : Text) (role : Nat) : List Gmem :=
  match gm.findIdx? (·.uid = uid) with
  | some i => gm.set i ⟨uid, role % 256⟩
  | none => gm

def gmDel (gm : List Gmem) (uid : Text) : List Gmem :=
  match gm.findIdx? (·.uid = uid) with
  | some i => swapRemove gm i
  | none => gm

def gmemberFrame (gid uid : Text) (role : Option Nat) : Client Own :=
  match c.chat gid with
  | none => c
  | some g =>
      let gm := gmSet g.gm uid
      c.setChat gid { g with gm := match role with
        | some role => gmRole gm uid role
        | none => gm }

def gmemberDelFrame (gid uid : Text) (draw : Draw) (unix : Nat) : Client Own :=
  match c.chat gid with
  | none => c
  | some g =>
      let g := { g with gm := gmDel g.gm uid }
      let c := c.setChat gid g
      let c := if c.synced ∧ 1 ≤ c.role g.uid c.accId ∧ rostHas c.rosts g.uid uid ∧ uid ≠ c.accId then
        { c with rosts := rostSet c.rosts c.accId g.uid uid none unix } else c
      gkRekeyCheck c g draw unix

def removeContact (gid : Text) : Client Own :=
  match c.findUid gid with
  | some i => { c with chats := c.chats.eraseIdx i }
  | none => c

def groupDelFrame (gid : Text) : Client Own :=
  match c.chat gid with
  | none => c
  | some g =>
      let c := gkForget c g.uid
      removeContact { c with rosts := rostForget c.rosts g.uid } gid

/-- `SYNCED`: every group is looked at, with a draw for each. -/
def syncedFrame (draws : List Draw) (unix : Nat) : Client Own :=
  (c.chats.zip draws).foldl (fun c (g, draw) => if isGroup g then gkRekeyCheck c g draw unix else c)
    { c with synced := true }

end

end Cos.Messenger
