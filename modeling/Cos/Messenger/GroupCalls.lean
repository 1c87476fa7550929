import Cos.Messenger.GroupSound

/-! # Against the relay server

One lemma for each thing the client does with its groups, and from them what holds over every run.
-/

namespace Cos.Messenger

open Cos.Lib

variable {Own : Type} {cr : GroupCrypto Own} {c c' : Client Own} {gid uid : Text} {g : Chat}
  {k : Gkey} {r nr : Rost} {approved : List (Text × Text)} {draw : Draw} {id now unix room : Nat}

structure Entitled (cr : GroupCrypto Own) (c : Client Own) (wrap : Wrap) : Prop where
  other : wrap.uid ≠ c.accId
  listed : rostHas c.rosts wrap.gid wrap.uid = true
  held : wrap.k ∈ c.gks
  gid : wrap.k.gid = wrap.gid
  maker : wrap.k.mine = true ∨ 1 ≤ rostRole c.rosts wrap.gid c.accId
  bundle : ∃ kr, SameKeys cr.toCrypto c.peers.kr kr ∧ (pkrGet kr wrap.uid).hasKb = true ∧
    wrap.b = (pkrGet kr wrap.uid).kb

structure PassSound (cr : GroupCrypto Own) (c : Client Own) (s : Pass Own) : Prop where
  grow : KeysGrow cr c s.c
  gks : s.c.gks = c.gks
  wraps : ∀ wrap ∈ s.wraps, Entitled cr c wrap

variable {s : Pass Own}

theorem PassSound.member {m : Gmem} (sound : PeersSound cr.toCrypto c.peers)
    (pass : PassSound cr c s) (held : k ∈ c.gks) (isGid : k.gid = g.uid)
    (maker : k.mine = true ∨ 1 ≤ rostRole c.rosts g.uid c.accId) :
    PassSound cr c (distMember cr now g k s m) := by
  have sound' := pass.grow.peers.sound sound
  have placed := sound'.table.pkr m.uid
  have quiet := pass.grow.trans (withTable_grow placed)
  rw [distMember]
  split
  · exact pass
  · split
    · exact pass
    next may =>
      rw [not_or, not_or] at may
      simp only
      split
      · split
        · exact ⟨quiet, pass.gks, pass.wraps⟩
        · have asked := placed.trans (placed.sound.requestUid m.uid now (s.c.online && decide (s.room ≠ 0)))
          have grow := pass.grow.trans (withTable_grow asked)
          split
          · exact ⟨grow, pass.gks, pass.wraps⟩
          · exact ⟨⟨grow.peers, grow.acc, grow.rosts, grow.keys⟩, pass.gks, pass.wraps⟩
      · split
        · exact ⟨quiet, pass.gks, pass.wraps⟩
        next usable =>
          rw [not_or] at usable
          split
          · exact ⟨quiet, pass.gks, pass.wraps⟩
          · split
            · exact ⟨⟨quiet.peers, quiet.acc, quiet.rosts, quiet.keys⟩, pass.gks, pass.wraps⟩
            · refine ⟨⟨quiet.peers, quiet.acc, quiet.rosts, quiet.keys⟩, pass.gks, fun wrap member => ?_⟩
              rcases List.mem_append.mp member with old | new
              · exact pass.wraps wrap old
              · rw [List.mem_singleton.mp new]
                refine ⟨?_, ?_, held, isGid, maker, _, pass.grow.peers.keys.trans placed, by simpa using usable.1, rfl⟩
                · rw [← pass.grow.acc]
                  exact may.1
                · rw [← pass.grow.rosts]
                  simpa using may.2.1

theorem PassSound.group (sound : PeersSound cr.toCrypto c.peers) (pass : PassSound cr c s) :
    PassSound cr c (distGroup cr now s g) := by
  rw [distGroup]
  split
  · exact pass
  · have role : s.c.role g.uid s.c.accId = rostRole c.rosts g.uid c.accId := by
      rw [Client.role, pass.grow.rosts, pass.grow.acc]
    have same := pass.gks
    rw [role]
    refine List.foldlRecOn s.c.gks _ pass fun s pass k member => ?_
    have held : k ∈ c.gks := same ▸ member
    rw [distKey]
    split
    · exact pass
    next isGid =>
      split
      · exact pass
      next may =>
        have maker : k.mine = true ∨ 1 ≤ rostRole c.rosts g.uid c.accId := by
          by_cases mine : k.mine = true
          · exact .inl mine
          · refine .inr ?_
            by_contra low
            exact may ⟨by simpa using mine, fun both => low both.1⟩
        exact List.foldlRecOn g.gm _ pass fun s pass m _ =>
          pass.member sound held (by simpa using isGid) maker

theorem gkDistribute_sound (sound : PeersSound cr.toCrypto c.peers) :
    KeysGrow cr c (gkDistribute cr c now room).2 ∧
    ∀ wrap ∈ (gkDistribute cr c now room).1, Entitled cr c wrap := by
  rw [gkDistribute]
  split
  · exact ⟨KeysGrow.refl sound, fun _ member => nomatch member⟩
  · have pass : PassSound cr c (c.chats.foldl (distGroup cr now) ⟨c, room, 3, [], false⟩) :=
      List.foldlRecOn c.chats _ ⟨KeysGrow.refl sound, rfl, fun _ member => nomatch member⟩ fun s pass g _ => pass.group sound
    exact ⟨pass.grow, pass.wraps⟩

theorem Entitled.wasApproved {wrap : Wrap} (entitled : Entitled cr c wrap)
    (sound : GroupsSound c.accId c.rosts c.gks approved) : (wrap.gid, wrap.uid) ∈ approved := by
  have listed : 0 ≤ rostRole c.rosts wrap.gid wrap.uid := by simpa [rostHas] using entitled.listed
  obtain ⟨m, isMembers⟩ := @members_of_role wrap.gid wrap.uid c.rosts 0 listed
  have known : ∀ entry ∈ m, entry.1 = c.accId ∨ (wrap.gid, entry.1) ∈ approved := by
    rcases sound.rosters wrap.gid m isMembers with ⟨-, idle⟩ | known
    · rcases entitled.maker with mine | admin
      · have := idle wrap.k entitled.held entitled.gid
        exact nomatch this.symm.trans mine
      · exact sound.admin isMembers admin
    · exact known
  rw [rostRole_eq, isMembers] at listed
  obtain ⟨role, member⟩ := mem_of_roleIn listed
  exact (known _ member).resolve_left entitled.other

/-- What the tick does before keys go out: entries stay, and a bare roster was bare before. -/
structure TickGrow (cr : GroupCrypto Own) (c c' : Client Own) : Prop where
  peers : Quiet cr.toCrypto c.peers c'.peers
  acc : c'.accId = c.accId
  gids : c'.rosts.map Rost.gid = c.rosts.map Rost.gid
  members : ∀ gid, membersOf c'.rosts gid = membersOf c.rosts gid
  bare : ∀ gid r, rostFind c'.rosts gid = some r → bareOwn c.accId r = true →
    ∃ r, rostFind c.rosts gid = some r ∧ bareOwn c.accId r = true
  gsent : c'.gsent = c.gsent
  keys : ∀ k ∈ c'.gks, k.mine = true → k ∈ c.gks ∨ 1 ≤ rostRole c.rosts k.gid c.accId

theorem TickGrow.refl (sound : PeersSound cr.toCrypto c.peers) : TickGrow cr c c :=
  ⟨Quiet.refl sound, rfl, rfl, fun _ => rfl, fun _ r found bare => ⟨r, found, bare⟩, rfl,
    fun _ member _ => .inl member⟩

theorem TickGrow.role (grow : TickGrow cr c c') (gid uid : Text) :
    rostRole c'.rosts gid uid = rostRole c.rosts gid uid := by
  rw [rostRole_eq, rostRole_eq, grow.members]

theorem TickGrow.put (grow : TickGrow cr c c') (found : rostFind c'.rosts nr.gid = some r)
    (same : nr.m = r.m) (bare : bareOwn c.accId nr = true → bareOwn c.accId r = true) :
    TickGrow cr c { c' with rosts := rostPut nr c'.rosts } := by
  refine ⟨grow.peers, grow.acc, (rostPut_gids nr _).trans grow.gids, fun gid => ?_,
    fun gid other isOther isBare => ?_, grow.gsent, grow.keys⟩
  · rw [membersOf_put found]
    split
    next isGid => rw [← grow.members, isGid, membersOf_find found, same]
    next => exact grow.members gid
  · by_cases isGid : gid = nr.gid
    · have isNew : some other = some nr := isOther.symm.trans (isGid ▸ rostFind_put found)
      cases isNew
      exact grow.bare gid r (isGid ▸ found) (bare isBare)
    · have isOld : rostFind (rostPut nr c'.rosts) gid = rostFind c'.rosts gid := rostFind_put_other isGid
      exact grow.bare gid other (isOld.symm.trans isOther) isBare

theorem TickGrow.keysGrow {c'' : Client Own} (grow : TickGrow cr c c') (more : KeysGrow cr c' c'')
    (gsent : c''.gsent = c'.gsent) : TickGrow cr c c'' := by
  refine ⟨⟨grow.peers.keys.trans more.peers.keys, more.peers.file.trans grow.peers.file,
    more.peers.accId.trans grow.peers.accId⟩, more.acc.trans grow.acc,
    by rw [more.rosts]; exact grow.gids, by rw [more.rosts]; exact grow.members, by rw [more.rosts]; exact grow.bare,
    gsent.trans grow.gsent, fun k member mine => ?_⟩
  rcases more.keys k member mine with old | admin
  · exact grow.keys k old mine
  · rw [grow.role, grow.acc] at admin
    exact .inr admin

theorem e2eGwire_gsent {kind : Nat} {plain : Text} :
    (e2eGwire cr c g id kind plain draw unix).2.gsent = c.gsent := by
  rw [e2eGwire]
  split
  · rfl
  · split
    · rfl
    · split
      · rfl
      · have same : (if (gkNewest c.gks g.uid).isNone ∧ 1 ≤ c.role g.uid c.accId ∧ epochFree c g.uid draw.epoch = true then
            gkCreate c g.uid draw unix else c).gsent = c.gsent := by
          split <;> rfl
        simp only
        split
        · exact same
        · split <;> exact same

theorem rostPost_grow (sound : PeersSound cr.toCrypto c.peers) :
    KeysGrow cr c (rostPost cr c g r draw id unix room).2.2 ∧
    (rostPost cr c g r draw id unix room).2.2.gsent = c.gsent := by
  rw [rostPost]
  split
  · exact ⟨KeysGrow.refl sound, rfl⟩
  · have grow := @e2eGwire_grow Own cr c g draw unix sound id 0 (rostText r)
    have same := @e2eGwire_gsent Own cr c g draw id unix 0 (rostText r)
    split
    next isWire => rw [isWire] at grow same; exact ⟨grow, same⟩
    next isWire =>
      rw [isWire] at grow same
      refine ⟨?_, ?_⟩
      · split
        · exact ⟨grow.peers, grow.acc, grow.rosts, grow.keys⟩
        · exact grow
      · split <;> exact same
    next isWire => rw [isWire] at grow same; exact ⟨grow, same⟩

theorem ownRoster_members {acc : Text} (bare : bareOwn acc r = true)
    (nobody : ∀ s ∈ c.gsent, s.gid = g.uid → gkIsMember g s.uid = true → s.uid = acc) :
    (ownRoster c g r unix).m = r.m := by
  have listed : r.m.map Prod.fst = [acc] := by
    rw [bareOwn, Bool.and_eq_true] at bare
    simpa using bare.2
  refine List.foldlRecOn (motive := fun m => m = r.m) c.gsent _ rfl fun m isSame s member => ?_
  split
  next may =>
    have isAcc := nobody s member may.1 may.2.1
    have present : m.any (·.1 = s.uid) = true := by
      rw [isSame, isAcc]
      obtain ⟨entry, isEntry⟩ : ∃ entry, r.m = [entry] := List.length_eq_one_iff.mp (by
        rw [← List.length_map (f := Prod.fst), listed]
        rfl)
      rw [isEntry] at listed ⊢
      simpa using listed
    have absent := may.2.2.1
    rw [present] at absent
    cases absent
  next => exact isSame

theorem rostTickChat_grow {s : RostPass Own} (sound : PeersSound cr.toCrypto c.peers)
    (grow : TickGrow cr c s.c) (nobody : ∀ r, rostFind c.rosts g.uid = some r → bareOwn c.accId r =
      true → ∀ s ∈ c.gsent, s.gid = g.uid → gkIsMember g s.uid = true → s.uid = c.accId) :
    TickGrow cr c (rostTickChat cr draw id unix room s g).c := by
  rw [rostTickChat]
  split
  · exact grow
  · split
    · exact grow
    next r found =>
      have isGid := rostFind_gid found
      obtain ⟨nr, isNr⟩ : ∃ nr, (if bareOwn s.c.accId r then ownRoster s.c g r unix else r) = nr := ⟨_, rfl⟩
      have shape : nr.gid = r.gid ∧ nr.m = r.m ∧ (bareOwn c.accId nr = true → bareOwn c.accId r = true) := by
        rw [← isNr]
        split
        next bare =>
          rw [grow.acc] at bare
          obtain ⟨old, isOld, isBare⟩ := grow.bare g.uid r found bare
          refine ⟨rfl, ownRoster_members bare ?_, fun _ => bare⟩
          rw [grow.gsent]
          exact nobody old isOld isBare
        next => exact ⟨rfl, rfl, fun bare => bare⟩
      have foundNr : rostFind s.c.rosts nr.gid = some r := by
        rw [shape.1, isGid]
        exact found
      have placed := grow.put foundNr shape.2.1 shape.2.2
      simp only
      rw [isNr]
      split
      · obtain ⟨posted, same⟩ := @rostPost_grow Own cr { s.c with rosts := rostPut nr s.c.rosts } g
          nr draw id unix room (placed.peers.sound sound)
        have after := placed.keysGrow posted same
        split
        next isPost =>
          rw [isPost] at posted after
          refine after.put (r := nr) ?_ rfl fun bare => bare
          rw [posted.rosts]
          exact rostFind_put foundNr
        next isPost =>
          rw [isPost] at after
          exact after
      · exact placed

theorem rostTick_grow (sound : PeersSound cr.toCrypto c.peers)
    (nobody : ∀ g ∈ c.chats, ∀ r, rostFind c.rosts g.uid = some r →
    bareOwn c.accId r = true → ∀ s ∈ c.gsent, s.gid = g.uid → gkIsMember g s.uid = true →
    s.uid = c.accId) : TickGrow cr c (rostTick cr c draw id unix room).2 := by
  rw [rostTick]
  split
  · exact TickGrow.refl sound
  · exact List.foldlRecOn (motive := fun s : RostPass Own => TickGrow cr c s.c) c.chats
      _ (TickGrow.refl sound) fun s grow g member => rostTickChat_grow sound grow (nobody g member)

theorem roleIn_of_place {m : List (Text × Nat)} {i : Nat}
    (place : m.findIdx? (·.1 = uid) = some i) :
    ∃ bound : i < m.length, m[i].1 = uid ∧ roleIn m uid = m[i].2 := by
  obtain ⟨bound, isUid, before⟩ := List.findIdx?_eq_some_iff_getElem.mp place
  refine ⟨bound, by simpa using isUid, ?_⟩
  have found : m.find? (·.1 = uid) = some m[i] :=
    List.find?_eq_some_iff_getElem.mpr ⟨isUid, i, bound, rfl, fun j below => by simpa using before j below⟩
  rw [roleIn, found]

theorem rostSet_cases (rosts : List Rost) (acc gid uid : Text) (role : Option Nat) (unix : Nat) :
    rostSet rosts acc gid uid role unix = rosts ∨
      ∃ r nr, rostFind rosts gid = some r ∧ 1 ≤ rostRole rosts gid acc ∧ nr.gid = gid ∧
        rostSet rosts acc gid uid role unix = rostPut nr rosts ∧
        match role with
        | some _ => ∀ entry ∈ nr.m, entry ∈ r.m ∨ entry.1 = uid
        | none => ∃ entry, entry.1 = uid ∧ roleIn r.m uid = entry.2 ∧ (entry :: nr.m).Perm r.m := by
  rw [rostSet]
  split
  next => exact .inl rfl
  next r found =>
    have isGid := rostFind_gid found
    split
    next => exact .inl rfl
    next may =>
      have admin : 1 ≤ rostRole rosts gid acc := by omega
      split
      next i place =>
        obtain ⟨bound, isUid, isRole⟩ := roleIn_of_place place
        exact .inr ⟨r, rostTouch { r with m := swapRemove r.m i } unix, found, admin, isGid, rfl, r.m[i], isUid, isRole, swapRemove_cons_perm bound⟩
      next i role place =>
        refine .inr ⟨r, rostTouch { r with m := r.m.set i (uid, role) } unix, found, admin, isGid,
          rfl, fun entry member => ?_⟩
        exact (List.mem_or_eq_of_mem_set member).imp_right fun isNew => by rw [isNew]
      next role _ =>
        split
        · exact .inl rfl
        · refine .inr ⟨r, rostTouch { r with m := r.m ++ [(uid, role)] } unix, found, admin, isGid,
            rfl, fun entry member => ?_⟩
          exact (List.mem_append.mp member).imp_right fun isNew => by rw [List.mem_singleton.mp isNew]
      next => exact .inl rfl

section

variable {acc : Text} {rosts : List Rost} {gks : List Gkey}
  (sound : GroupsSound acc rosts gks approved)

include sound

theorem GroupsSound.remove (unix : Nat) :
    GroupsSound acc (rostSet rosts acc gid uid none unix) gks approved := by
  rcases rostSet_cases rosts acc gid uid none unix with same |
    ⟨r, nr, found, admin, isGid, isSet, entry, -, -, split⟩
  · rw [same]
    exact sound
  · subst isGid
    rw [isSet]
    refine sound.put found fun other member => ?_
    exact sound.admin (membersOf_find found) admin other (split.mem_iff.mp (List.mem_cons_of_mem _ member))

theorem GroupsSound.assign (role : Option Nat) (unix : Nat)
    (approves : role ≠ none → 1 ≤ rostRole rosts gid acc → (gid, uid) ∈ approved) :
    GroupsSound acc (rostSet rosts acc gid uid role unix) gks approved := by
  cases role with
  | none => exact sound.remove unix
  | some role =>
      rcases rostSet_cases rosts acc gid uid (some role) unix with same | ⟨r, nr, found, admin, isGid, isSet, listed⟩
      · rw [same]
        exact sound
      · subst isGid
        rw [isSet]
        refine sound.put found fun entry member => ?_
        rcases listed entry member with old | isUid
        · exact sound.admin (membersOf_find found) admin entry old
        · exact .inr (isUid ▸ approves nofun admin)

end

theorem rostSet_other {rosts : List Rost} {acc key : Text} {role : Option Nat} (other : key ≠ gid) :
    membersOf (rostSet rosts acc gid uid role unix) key = membersOf rosts key := by
  rcases rostSet_cases rosts acc gid uid role unix with same |
    ⟨r, nr, found, admin, isGid, isSet, -⟩
  · rw [same]
  · rw [isSet, membersOf, rostFind_put_other (isGid ▸ other)]
    rfl

theorem remove_owners {rosts : List Rost} {acc : Text} {before after : List (Text × Nat)}
    (keeps : 1 ≤ rostRole rosts gid acc → rostRole rosts gid uid ≠ 2) {key : Text}
    (isBefore : membersOf rosts key = some before)
    (isAfter : membersOf (rostSet rosts acc gid uid none unix) key = some after) (other : Text) :
    (other, 2) ∈ before ↔ (other, 2) ∈ after := by
  rcases rostSet_cases rosts acc gid uid none unix with same |
    ⟨r, nr, found, admin, isGid, isSet, entry, isUid, isRole, split⟩
  · rw [same, isBefore] at isAfter
    rw [Option.some.inj isAfter]
  · subst isGid
    rw [isSet, membersOf_put found] at isAfter
    split at isAfter
    next isKey =>
      cases isAfter
      subst isKey
      have isMembers := membersOf_find found
      have notOwner := keeps admin
      rw [rostRole_eq, isMembers] at notOwner
      rw [isMembers] at isBefore
      cases isBefore
      have isOther : (other, 2) ≠ entry := by
        rintro rfl
        exact notOwner isRole
      rw [← split.mem_iff, List.mem_cons]
      exact or_iff_right isOther
    next =>
      rw [isBefore] at isAfter
      rw [Option.some.inj isAfter]

theorem pinOwner_members {rosts : List Rost} {owner key : Text} {m : List (Text × Nat)}
    (isMembers : membersOf rosts key = some m) :
    membersOf (rostPinOwner rosts gid owner) key = some m := by
  rw [rostPinOwner]
  split
  · exact isMembers
  · rw [membersOf, rostFind] at isMembers ⊢
    cases found : rosts.find? (·.gid = key) with
    | none =>
        rw [found] at isMembers
        cases isMembers
    | some r =>
        rw [List.find?_append, found]
        rw [found] at isMembers
        exact isMembers

variable {w : RelayWorld Own} {call : RelayCall Own}

structure RelaySound (cr : GroupCrypto Own) (w : RelayWorld Own) : Prop where
  peers : WorldSound cr.toCrypto w.peerWorld
  groups : GroupsSound w.c.accId w.c.rosts w.c.gks w.approved

theorem RelaySound.table (sound : RelaySound cr w) : PeersSound cr.toCrypto w.c.peers :=
  sound.peers.toPeersSound

theorem quietStep_rule (sound : RelaySound cr w) (unpinned : peerPart call = none)
    (quiet : Quiet cr.toCrypto w.c.peers (relayCall cr w.c call).2.peers)
    (groups : GroupsSound (relayCall cr w.c call).2.accId (relayCall cr w.c call).2.rosts (relayCall cr w.c call).2.gks
      (approve cr w call))
    (nothing : (relayCall cr w.c call).1 = [])
    (owners : ∀ gid before after, ¬ decided cr w call gid → membersOf w.c.rosts gid = some before →
      membersOf (relayCall cr w.c call).2.rosts gid = some after → ∀ uid, (uid, 2) ∈ before ↔ (uid, 2) ∈ after) :
    RelaySound cr (relayStep cr w call) ∧ RelayRule cr w call := by
  refine ⟨⟨?_, groups⟩, ?_, fun gid before after free isBefore isAfter uid => ?_⟩
  · have pins : (relayStep cr w call).pins = w.pins := by rw [relayStep, unpinned]
    rw [RelayWorld.peerWorld, pins]
    exact sound.peers.quiet quiet
  · rw [nothing]
    exact fun _ member => nomatch member
  · exact owners gid before.m after.m free (membersOf_find isBefore) (membersOf_find isAfter) uid

theorem grow_rule (sound : RelaySound cr w) (unpinned : peerPart call = none)
    (grow : KeysGrow cr w.c (relayCall cr w.c call).2) (same : approve cr w call = w.approved)
    (nothing : (relayCall cr w.c call).1 = []) :
    RelaySound cr (relayStep cr w call) ∧ RelayRule cr w call := by
  refine quietStep_rule sound unpinned grow.peers ?_ nothing
    fun gid before after _ isBefore isAfter uid => ?_
  · rw [same]
    exact sound.groups.grow grow
  · rw [grow.rosts, isBefore] at isAfter
    rw [Option.some.inj isAfter]

theorem Client.chat_uid (isChat : c.chat gid = some g) : g.uid = gid := by
  obtain ⟨i, place, isG⟩ := Option.bind_eq_some_iff.mp isChat
  obtain ⟨bound, isUid, -⟩ := List.findIdx?_eq_some_iff_getElem.mp place
  rw [List.getElem?_eq_getElem bound] at isG
  obtain rfl := Option.some.inj isG
  exact (by simpa using isUid : c.chats[i].uid ≠ [] ∧ c.chats[i].uid = gid).2

theorem setChat_grow (sound : PeersSound cr.toCrypto c.peers) :
    KeysGrow cr c (c.setChat gid g) := by
  rw [Client.setChat]
  split <;> exact KeysGrow.of_same sound rfl rfl fun _ member _ => .inl member

theorem removeContact_grow (sound : PeersSound cr.toCrypto c.peers) :
    KeysGrow cr c (removeContact c gid) := by
  rw [removeContact]
  split <;> exact KeysGrow.of_same sound rfl rfl fun _ member _ => .inl member

theorem syncedFrame_grow (sound : PeersSound cr.toCrypto c.peers) (draws : List Draw) (unix : Nat) :
    KeysGrow cr c (syncedFrame c draws unix) := by
  refine List.foldlRecOn (motive := fun c' => KeysGrow cr c c') (c.chats.zip draws) _ ?_
    fun c' grow pair _ => ?_
  · exact KeysGrow.of_same sound rfl rfl fun _ member _ => .inl member
  · simp only
    split
    · exact grow.trans (gkRekeyCheck_grow (grow.peers.sound sound))
    · exact grow

theorem gmsgIn_cases {sender text : Text} {rid : Nat} {refeeding repeated sent : Bool}
    (sound : RelaySound cr w)
    (isCall : call = .gmsg gid sender text rid refeeding repeated now unix sent) :
    (KeysGrow cr w.c (gmsgIn cr w.c gid sender text rid refeeding repeated now unix sent).2 ∧ takenRoster cr w call = none) ∨
      ∃ (g : Chat) (c' : Client Own) (p : Text) (r : Rost) (t : Nat) (entries : List (Text × Nat)), takenRoster cr w call = some (g.uid, p) ∧ KeysGrow cr w.c c' ∧
        Passes w.c.rosts ⟨g.uid, sender, p, unix⟩ r t entries ∧
        (gmsgIn cr w.c gid sender text rid refeeding repeated now unix sent).2 =
          { c' with rosts := rostPut ⟨g.uid, t % 2 ^ 32, false, entries⟩ w.c.rosts } := by
  cases isChat : w.c.chat gid with
  | none =>
      have taken : takenRoster cr w call = none := by simp only [isCall, takenRoster, isChat]
      rw [gmsgIn, isChat]
      exact .inl ⟨KeysGrow.refl sound.table, taken⟩
  | some g =>
      have taken : takenRoster cr w call = (signedRoster cr w g sender unix
          (gmsgIn cr w.c gid sender text rid refeeding repeated now unix sent).1).map (g.uid, ·) := by
        simp only [isCall, takenRoster, isChat]
      rw [gmsgIn, isChat] at taken ⊢
      simp only at taken ⊢
      by_cases again : repeated = true
      · rw [if_pos again] at taken ⊢
        exact .inl ⟨KeysGrow.refl sound.table, taken⟩
      · rw [if_neg again] at taken ⊢
        obtain ⟨grow, opens⟩ := @e2eGin_grow Own cr w.c g now sound.table sender text rid 0 refeeding sent
        obtain ⟨⟨got, c'⟩, isGin⟩ : ∃ out, e2eGin cr w.c g sender text rid 0 refeeding now sent = out := ⟨_, rfl⟩
        rw [isGin] at taken grow opens ⊢
        cases got with
        | opened b plain =>
            cases isRoster : rosterOf plain with
            | none =>
                simp only [isRoster] at taken ⊢
                refine .inl ⟨grow, taken.trans ?_⟩
                rw [signedRoster, isRoster]
                split <;> rfl
            | some p =>
                simp only [isRoster] at taken ⊢
                obtain ⟨kr, same, has, rfl⟩ := opens b plain rfl
                have pinned : w.pins sender = some (cr.fp (pkrGet kr sender).kb) := sound.peers.pinned same has
                rw [signedRoster, isRoster, Option.filter_some] at taken
                rcases rostApply_cases w.c.rosts ⟨g.uid, sender, p, unix⟩ with ⟨isApply, -⟩ | ⟨r, t, entries, passes, isApply⟩
                · rw [isApply] at taken
                  rw [grow.rosts, isApply]
                  refine .inl ⟨⟨grow.peers, grow.acc, rfl, grow.keys⟩, taken.trans ?_⟩
                  split <;> rfl
                · have admin : 1 ≤ w.c.role g.uid sender := by
                    rw [Client.role, rostRole_of_find passes.found]
                    exact passes.admin
                  rw [isApply, if_pos ⟨pinned, admin⟩] at taken
                  rw [grow.rosts, isApply]
                  exact .inr ⟨g, c', p, r, t, entries, taken, grow, passes, rfl⟩
        | parked => exact .inl ⟨grow, taken⟩
        | asIs => exact .inl ⟨grow, taken⟩
        | note => exact .inl ⟨grow, taken⟩

theorem takeBundle_accId (s : Peers Own) (nb : Bundle) (uid : Text) :
    (takeBundle cr.toCrypto s nb uid).accId = s.accId := by
  rw [takeBundle]
  split
  · rfl
  · split
    · split <;> rfl
    · split <;> rfl

theorem e2eOnKey_accId (s : Peers Own) (uid b64 : Text) (now : Nat) :
    (e2eOnKey cr.toCrypto s uid b64 now).accId = s.accId := by
  rw [e2eOnKey]
  split
  · exact takeBundle_accId _ _ _
  · rfl

theorem peerCall_accId {w : PeerWorld Own} (sound : WorldSound cr.toCrypto w)
    (call : PeerCall Own) : (peerCall cr.toCrypto w.peers call).2.accId = w.peers.accId := by
  cases call with
  | key uid b64 now =>
      rw [peerCall]
      split
      · exact e2eOnKey_accId _ _ _ _
      · rfl
  | lanKey k b64 now =>
      rw [peerCall]
      split
      · exact e2eOnKey_accId _ _ _ _
      · rfl
  | timeout uid now =>
      rw [peerCall]
      split
      · exact e2eOnKey_accId _ _ _ _
      · rfl
  | send k id kind plain now sent => exact (e2eWire_quiet sound.toPeersSound).accId
  | msgIn k text rid kind refeeding now sent =>
    exact (@e2eIn_fits Own cr.toCrypto w k text rid kind now refeeding sent sound).1.accId
  | lanMsgIn k text rid kind now sent =>
    exact (@lanIn_fits Own cr.toCrypto w k text rid kind now sent sound).1.accId
  | delIn k =>
      exact (@plainDelRefused_fits Own cr.toCrypto w k sound).1.accId
  | trust uid fp8 =>
      rw [peerCall, e2eTrustUid]
      split <;> rfl
  | verify uid =>
      rw [peerCall, e2eVerifyUid]
      split <;> rfl
  | _ => rfl

theorem gmsg_rule {sender text : Text} {rid : Nat} {refeeding repeated sent : Bool}
    (sound : RelaySound cr w) : RelaySound cr (relayStep cr w (.gmsg gid sender text rid refeeding repeated now unix sent)) ∧
      RelayRule cr w (.gmsg gid sender text rid refeeding repeated now unix sent) := by
  rcases gmsgIn_cases sound rfl with ⟨grow, untaken⟩ |
    ⟨g, c', p, r, t, entries, taken, grow, passes, isAfter⟩
  · refine grow_rule sound rfl grow ?_ rfl
    unfold approve
    rw [untaken]
  · have isAfter : (relayCall cr w.c (.gmsg gid sender text rid refeeding repeated now unix sent)).2 =
        { c' with rosts := rostPut ⟨g.uid, t % 2 ^ 32, false, entries⟩ w.c.rosts } := isAfter
    refine quietStep_rule sound rfl ?_ ?_ rfl fun key before after free isBefore isMembers uid => ?_
    · rw [isAfter]
      exact grow.peers
    · obtain ⟨list, isText, isEntries⟩ := passes.text
      have named : namedIn p = entries.map Prod.fst := by
        rw [namedIn, isText]
        simp only
        rw [isEntries]
        rfl
      unfold approve
      rw [isAfter, taken]
      simp only
      rw [named]
      have more : GroupsSound w.c.accId w.c.rosts w.c.gks
          ((entries.map Prod.fst).map (g.uid, ·) ++ w.approved) :=
        sound.groups.more fun pair member => List.mem_append_right _ member
      have kept := more.grow grow
      rw [grow.rosts] at kept
      refine kept.put (r := r) passes.found fun entry member => .inr ?_
      exact List.mem_append_left _ (List.mem_map_of_mem (List.mem_map_of_mem member))
    · have other : key ≠ g.uid := by
        rintro rfl
        exact free (.inl ⟨p, taken⟩)
      rw [isAfter, membersOf, rostFind_put_other other] at isMembers
      rw [membersOf] at isBefore
      rw [isBefore] at isMembers
      rw [Option.some.inj isMembers]

theorem gmemberDel_rule (sound : RelaySound cr w)
    (permitted : relayCondition w (.gmemberDel gid uid draw unix)) :
    RelaySound cr (relayStep cr w (.gmemberDel gid uid draw unix)) ∧
    RelayRule cr w (.gmemberDel gid uid draw unix) := by
  have approved : approve cr w (.gmemberDel gid uid draw unix) = w.approved := rfl
  cases isChat : w.c.chat gid with
  | none =>
      refine grow_rule sound rfl ?_ approved rfl
      rw [relayCall, gmemberDelFrame, isChat]
      exact KeysGrow.refl sound.table
  | some g =>
      have isGid := Client.chat_uid isChat
      have set := @setChat_grow Own cr w.c gid { g with gm := gmDel g.gm uid } sound.table
      obtain ⟨c₁, isC₁⟩ : ∃ c₁, w.c.setChat gid { g with gm := gmDel g.gm uid } = c₁ := ⟨_, rfl⟩
      rw [isC₁] at set
      have isCall : (relayCall cr w.c (.gmemberDel gid uid draw unix)).2 = gkRekeyCheck
          (if c₁.synced ∧ 1 ≤ c₁.role g.uid c₁.accId ∧ rostHas c₁.rosts g.uid uid ∧ uid ≠ c₁.accId
            then { c₁ with rosts := rostSet c₁.rosts c₁.accId g.uid uid none unix } else c₁)
          { g with gm := gmDel g.gm uid } draw unix := by
        rw [relayCall, gmemberDelFrame, isChat]
        simp only
        rw [isC₁]
      split at isCall
      next leaves =>
        have rekeyed := @gkRekeyCheck_grow Own cr { c₁ with rosts := rostSet c₁.rosts c₁.accId g.uid uid none unix }
          { g with gm := gmDel g.gm uid } draw unix (set.peers.sound sound.table)
        rw [← isCall] at rekeyed
        have synced : w.c.synced = c₁.synced := by
          rw [← isC₁, Client.setChat]
          split <;> rfl
        refine quietStep_rule sound rfl ⟨set.peers.keys.trans rekeyed.peers.keys,
          rekeyed.peers.file.trans set.peers.file, rekeyed.peers.accId.trans set.peers.accId⟩ ?_ rfl
          fun key before after _ isBefore isAfter other => ?_
        · exact GroupsSound.grow (GroupsSound.remove (sound.groups.grow set) unix) rekeyed
        · rw [rekeyed.rosts] at isAfter
          refine remove_owners (fun admin isOwner => ?_) ?_ isAfter other
          · refine permitted ⟨synced.trans leaves.1, ?_, set.acc ▸ leaves.2.2.2, ?_⟩
            · rw [Client.role, ← isGid, ← set.rosts, ← set.acc]
              exact admin
            · rw [Client.role, ← isGid, ← set.rosts]
              exact isOwner
          · rw [set.rosts]
            exact isBefore
      next =>
        refine grow_rule sound rfl ?_ approved rfl
        rw [isCall]
        exact set.trans (gkRekeyCheck_grow (set.peers.sound sound.table))

theorem tick_rule (sound : RelaySound cr w)
    (permitted : relayCondition w (.tick draw id now unix room)) :
    RelaySound cr (relayStep cr w (.tick draw id now unix room)) ∧
    RelayRule cr w (.tick draw id now unix room) := by
  have nobody (g : Chat) (member : g ∈ w.c.chats) (r : Rost) (found : rostFind w.c.rosts g.uid = some r)
      (bare : bareOwn w.c.accId r = true) : ∀ s ∈ w.c.gsent, s.gid = g.uid → gkIsMember g s.uid = true → s.uid = w.c.accId :=
    permitted g member (by rw [found]; exact bare)
  have ticked := @rostTick_grow Own cr w.c draw id unix room sound.table nobody
  obtain ⟨⟨posted, c₁⟩, isTick⟩ : ∃ out, rostTick cr w.c draw id unix room = out := ⟨_, rfl⟩
  rw [isTick] at ticked
  have isCall : relayCall cr w.c (.tick draw id now unix room) =
      gkDistribute cr c₁ now (if posted.isSome then room - 1 else room) := by
    rw [relayCall, isTick]
  have table := ticked.peers.sound sound.table
  obtain ⟨grow, entitled⟩ :=
    @gkDistribute_sound Own cr c₁ now (if posted.isSome then room - 1 else room) table
  rw [← isCall] at grow entitled
  have distinct : (c₁.rosts.map Rost.gid).Nodup := ticked.gids ▸ sound.groups.distinct
  have groups : GroupsSound c₁.accId c₁.rosts c₁.gks w.approved := by
    rw [ticked.acc]
    exact (sound.groups.keys ticked.keys).same distinct ticked.members
  refine ⟨⟨?_, groups.grow grow⟩, fun wrap member => ?_,
    fun gid before after _ isBefore isAfter uid => ?_⟩
  · exact sound.peers.quiet ⟨ticked.peers.keys.trans grow.peers.keys,
      grow.peers.file.trans ticked.peers.file, grow.peers.accId.trans ticked.peers.accId⟩
  · obtain ⟨kr, same, has, isB⟩ := (entitled wrap member).bundle
    refine ⟨(entitled wrap member).wasApproved groups, ?_⟩
    rw [isB]
    exact sound.peers.pinned (ticked.peers.keys.trans same) has
  · have isAfter : rostFind (relayCall cr w.c (.tick draw id now unix room)).2.rosts gid = some after := isAfter
    rw [grow.rosts] at isAfter
    have same : some after.m = some before.m := by
      rw [← membersOf_find isAfter, ticked.members, membersOf_find isBefore]
    rw [Option.some.inj same]

theorem peer_rule {peerCall : PeerCall Own} (sound : RelaySound cr w)
    (isPeer : peerPart call = some peerCall)
    (isPeers : (relayCall cr w.c call).2.peers =
    (Messenger.peerCall cr.toCrypto w.c.peers peerCall).2)
    (permitted : reloadCondition w.c.peers peerCall)
    (rosts : (relayCall cr w.c call).2.rosts = w.c.rosts)
    (gks : (relayCall cr w.c call).2.gks = w.c.gks) (nothing : (relayCall cr w.c call).1 = [])
    (same : approve cr w call = w.approved) :
    RelaySound cr (relayStep cr w call) ∧ RelayRule cr w call := by
  have isWorld : (relayStep cr w call).peerWorld = peerStep cr.toCrypto w.peerWorld peerCall := by
    rw [RelayWorld.peerWorld, relayStep, isPeer]
    rw [isPeers]
    rfl
  have accId : (relayCall cr w.c call).2.accId = w.c.accId := by
    rw [Client.accId, isPeers]
    exact peerCall_accId sound.peers peerCall
  refine ⟨⟨?_, ?_⟩, ?_, fun gid before after _ isBefore isAfter uid => ?_⟩
  · rw [isWorld]
    refine peerStep_sound sound.peers fun ready own isRestart => ?_
    rw [isRestart] at permitted
    exact permitted
  · change GroupsSound (relayCall cr w.c call).2.accId (relayCall cr w.c call).2.rosts
      (relayCall cr w.c call).2.gks (approve cr w call)
    rw [accId, rosts, gks, same]
    exact sound.groups
  · rw [nothing]
    exact fun _ member => by cases member
  · have isAfter : rostFind (relayCall cr w.c call).2.rosts gid = some after := isAfter
    rw [rosts, isBefore] at isAfter
    rw [Option.some.inj isAfter]

theorem groupDel_rule (sound : RelaySound cr w) :
    RelaySound cr (relayStep cr w (.groupDel gid)) ∧ RelayRule cr w (.groupDel gid) := by
  have approves : approve cr w (.groupDel gid) =
      if (w.c.chat gid).isSome then w.approved.filter (·.1 ≠ gid) else w.approved := rfl
  cases isChat : w.c.chat gid with
  | none =>
      refine grow_rule sound rfl ?_ ?_ rfl
      · rw [relayCall, groupDelFrame, isChat]
        exact KeysGrow.refl sound.table
      · rw [approves, isChat]
        rfl
  | some g =>
      obtain rfl := Client.chat_uid isChat
      obtain ⟨-, members⟩ := rostForget_spec sound.groups.distinct g.uid
      have removed := @removeContact_grow Own cr
        { gkForget w.c g.uid with rosts := rostForget w.c.rosts g.uid } g.uid sound.table
      have isCall : (relayCall cr w.c (.groupDel g.uid)).2 =
          removeContact { gkForget w.c g.uid with rosts := rostForget w.c.rosts g.uid } g.uid := by
        rw [relayCall, groupDelFrame, isChat]
        rfl
      rw [← isCall] at removed
      refine quietStep_rule sound rfl removed.peers ?_ rfl fun key before after _ isBefore isAfter other => ?_
      · rw [approves, isChat]
        exact (sound.groups.forget g.uid).grow removed
      · rw [removed.rosts] at isAfter
        rw [members] at isAfter
        split at isAfter
        next => cases isAfter
        next =>
          rw [isBefore] at isAfter
          rw [Option.some.inj isAfter]

theorem group_rule {owner : Text} {room : Bool} (sound : RelaySound cr w) :
    RelaySound cr (relayStep cr w (.group gid owner room)) ∧
    RelayRule cr w (.group gid owner room) := by
  have approves : approve cr w (.group gid owner room) = w.approved := rfl
  by_cases full : (w.c.findUid gid).isNone ∧ room = false
  · refine grow_rule sound rfl ?_ approves rfl
    rw [relayCall, groupFrame, if_pos full]
    exact KeysGrow.refl sound.table
  · have grow : KeysGrow cr w.c
        (if (w.c.findUid gid).isSome then w.c else { w.c with chats := w.c.chats ++ [⟨gid.take 11, []⟩] }) := by
      split <;> exact KeysGrow.of_same sound.table rfl rfl fun _ member _ => .inl member
    obtain ⟨c₁, isC₁⟩ : ∃ c₁, (if (w.c.findUid gid).isSome then w.c
      else { w.c with chats := w.c.chats ++ [⟨gid.take 11, []⟩] }) = c₁ := ⟨_, rfl⟩
    rw [isC₁] at grow
    have isCall : (relayCall cr w.c (.group gid owner room)).2 = { c₁ with rosts := rostPinOwner c₁.rosts gid owner } := by
      rw [relayCall, groupFrame, if_neg full]
      rw [isC₁]
    refine quietStep_rule sound rfl ?_ ?_ rfl fun key before after _ isBefore isAfter other => ?_
    · rw [isCall]
      exact grow.peers
    · rw [isCall, approves]
      exact (sound.groups.grow grow).pin gid owner
    · rw [isCall] at isAfter
      rw [grow.rosts, pinOwner_members isBefore] at isAfter
      rw [Option.some.inj isAfter]

theorem setRole_rule {role : Option Nat} (sound : RelaySound cr w) :
    RelaySound cr (relayStep cr w (.setRole gid uid role unix)) ∧
    RelayRule cr w (.setRole gid uid role unix) := by
  refine quietStep_rule sound rfl (Quiet.refl sound.table) ?_ rfl
    fun key before after free isBefore isAfter other => ?_
  case refine_2 =>
    have isOther : key ≠ gid := by
      rintro rfl
      exact free (.inr ⟨_, _, _, rfl⟩)
    rw [relayCall, rostSet_other isOther, isBefore] at isAfter
    rw [Option.some.inj isAfter]
  cases role with
  | none => exact sound.groups.remove unix
  | some role =>
      have approves : approve cr w (.setRole gid uid (some role) unix) =
          if 1 ≤ w.c.role gid w.c.accId then (gid, uid) :: w.approved else w.approved := rfl
      rw [approves]
      refine GroupsSound.assign (sound.groups.more fun pair member => ?_) (some role) unix fun _ admin => ?_
      · split
        · exact List.mem_cons_of_mem _ member
        · exact member
      · rw [if_pos (by exact admin)]
        exact List.mem_cons_self

theorem relayStep_rule (sound : RelaySound cr w) (permitted : relayCondition w call) :
    RelaySound cr (relayStep cr w call) ∧ RelayRule cr w call := by
  have same (c' : Client Own) (peers : c'.peers = w.c.peers) (rosts : c'.rosts = w.c.rosts)
      (gks : c'.gks = w.c.gks) : KeysGrow cr w.c c' :=
    KeysGrow.of_same sound.table peers rosts fun _ member _ => .inl (gks ▸ member)
  cases call with
  | group gid owner room => exact group_rule sound
  | gmember gid uid role =>
      refine grow_rule sound rfl ?_ rfl rfl
      rw [relayCall, gmemberFrame]
      split
      · exact KeysGrow.refl sound.table
      · exact setChat_grow sound.table
  | gmemberDel gid uid draw unix => exact gmemberDel_rule sound permitted
  | groupDel gid => exact groupDel_rule sound
  | friend uid room =>
      refine grow_rule sound rfl ?_ rfl rfl
      rw [relayCall]
      split <;> exact same _ rfl rfl rfl
  | friendDel uid => exact grow_rule sound rfl (removeContact_grow sound.table) rfl rfl
  | okGkey gid uid epoch now => exact grow_rule sound rfl (e2eGkeyOk_grow sound.table) rfl rfl
  | gmsg gid sender text rid refeeding repeated now unix sent => exact gmsg_rule sound
  | gkeyIn gid sender epoch text refeeding now unix sent =>
    exact grow_rule sound rfl (e2eGkeyIn_grow sound.table) rfl rfl
  | login => exact grow_rule sound rfl (same _ rfl rfl rfl) rfl rfl
  | drop => exact grow_rule sound rfl (same _ rfl rfl rfl) rfl rfl
  | synced draws unix => exact grow_rule sound rfl (syncedFrame_grow sound.table draws unix) rfl rfl
  | setRole gid uid role unix => exact setRole_rule sound
  | gsend gid id kind plain draw unix =>
      cases isChat : w.c.chat gid with
      | none =>
          refine grow_rule sound rfl ?_ rfl ?_ <;> rw [relayCall, isChat]
          exact KeysGrow.refl sound.table
      | some g =>
          refine grow_rule sound rfl ?_ rfl ?_ <;> rw [relayCall, isChat]
          exact e2eGwire_grow sound.table
  | tick draw id now unix room => exact tick_rule sound permitted
  | peer call => exact peer_rule sound rfl rfl permitted rfl rfl rfl rfl
  | restart ready own chats => exact peer_rule sound rfl rfl permitted rfl rfl rfl rfl

theorem runs_keep_relay {calls : List (RelayCall Own)} (sound : RelaySound cr w)
    (permitted : StepsAllowed (relayStep cr) relayCondition w calls) :
    StepsAllowed (relayStep cr) (RelayRule cr) w calls := by
  induction calls generalizing w with
  | nil => trivial
  | cons call calls ih =>
      obtain ⟨sound', rule⟩ := relayStep_rule sound permitted.1
      exact ⟨rule, ih sound' permitted.2⟩

structure Client.Fresh (c : Client Own) : Prop where
  kr : c.peers.kr = []
  file : c.peers.file = []
  rosts : c.rosts = []
  gks : c.gks = []

theorem Client.Fresh.sound (fresh : c.Fresh) (cr : GroupCrypto Own) :
    RelaySound cr ⟨c, fun _ => none, []⟩ := by
  refine ⟨freshWorld_sound fresh.kr fresh.file, ⟨?_, fun k member => ?_, fun gid m isMembers => ?_⟩⟩
  · rw [fresh.rosts]
    exact List.nodup_nil
  · rw [fresh.gks] at member
    cases member
  · rw [fresh.rosts] at isMembers
    cases isMembers

def openGroupCrypto : GroupCrypto Unit where
  toCrypto := openCrypto
  wrap _ _ _ _ := some []
  unwrap _ _ _ body := .ok body
  sealGroup _ _ _ plain := some plain
  verifyGroup _ _ _ := true
  openGroup _ _ _ _ := none

def freshClient : Client Unit := ⟨newClient, false, false, [], [], [], [], [], []⟩

theorem freshClient_fresh : freshClient.Fresh := ⟨rfl, rfl, rfl, rfl⟩

/-- The first steps in a group that the server says is ours, with one more member. -/
def ownGroup (member : Text) : List (RelayCall Unit) :=
  [.login, .group "g".toList "me".toList true, .gmember "g".toList member none]

/-- The key of the member arrives, and a message needs a key for the group. -/
def useGroup (member : Text) : List (RelayCall Unit) :=
  [.peer (.request member 1 true), .peer (.key member (bundleText 'A') 2),
    .gsend "g".toList 1 0 "hi".toList ⟨7, []⟩ 1000, .tick ⟨8, []⟩ 2 3000 1001 9]

def adminClient : Client Unit :=
  { freshClient with
    synced := true
    chats := [⟨"g".toList, [⟨"me".toList, 1⟩]⟩]
    rosts := [⟨"g".toList, 5, false, [("boss".toList, 2), ("me".toList, 1)]⟩] }

-- An admin's client takes the owner out when the server says that the owner has left.
example : membersOf (gmemberDelFrame adminClient "g".toList "boss".toList ⟨1, []⟩ 6).rosts
    "g".toList = some [("me".toList, 1)] := by
  decide

end Cos.Messenger
