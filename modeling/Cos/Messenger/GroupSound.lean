import Cos.Messenger.GroupRuns

/-! # Who a key may go to

A roster is either the bare owner that the server named first, in a group whose keys are not ours to
give, or it names nobody but us and people who were approved.  A key that we made is of a group that
has a roster.
-/

namespace Cos.Messenger

open Cos.Lib

variable {acc gid key uid : Text} {rosts rosts' : List Rost} {gks gks' : List Gkey}
  {approved approved' : List (Text × Text)} {r nr : Rost} {m : List (Text × Nat)}

def membersOf (rosts : List Rost) (gid : Text) : Option (List (Text × Nat)) :=
  (rostFind rosts gid).map Rost.m

def roleIn (m : List (Text × Nat)) (uid : Text) : Int :=
  match m.find? (·.1 = uid) with
  | some entry => entry.2
  | none => -1

theorem rostRole_eq (rosts : List Rost) (gid uid : Text) :
    rostRole rosts gid uid = match membersOf rosts gid with
      | some m => roleIn m uid
      | none => -1 := by
  rw [rostRole, membersOf]
  cases rostFind rosts gid with
  | none => rfl
  | some r => rfl

theorem members_of_role {role : Nat} (high : (role : Int) ≤ rostRole rosts gid uid) :
    ∃ m, membersOf rosts gid = some m := by
  rw [rostRole_eq] at high
  cases isMembers : membersOf rosts gid with
  | none =>
      simp only [isMembers] at high
      omega
  | some m => exact ⟨m, rfl⟩

theorem mem_of_roleIn (listed : 0 ≤ roleIn m uid) : ∃ role, (uid, role) ∈ m := by
  rw [roleIn] at listed
  cases found : m.find? (·.1 = uid) with
  | none =>
      simp only [found] at listed
      omega
  | some entry =>
      have isUid : entry.1 = uid := by simpa using List.find?_some found
      exact ⟨entry.2, isUid ▸ List.mem_of_find?_eq_some found⟩

theorem membersOf_find (found : rostFind rosts gid = some r) : membersOf rosts gid = some r.m := by
  rw [membersOf, found]
  rfl

theorem rostFind_gid (found : rostFind rosts gid = some r) : r.gid = gid := by
  simpa [rostFind] using List.find?_some found

theorem membersOf_put (found : rostFind rosts nr.gid = some r) :
    membersOf (rostPut nr rosts) key = if key = nr.gid then some nr.m else membersOf rosts key := by
  by_cases isKey : key = nr.gid
  · rw [if_pos isKey, isKey, membersOf, rostFind_put found]
    rfl
  · rw [if_neg isKey, membersOf, membersOf, rostFind_put_other isKey]

theorem rostPut_gids (nr : Rost) (rosts : List Rost) :
    (rostPut nr rosts).map Rost.gid = rosts.map Rost.gid := by
  induction rosts with
  | nil => rfl
  | cons first rest ih =>
      rw [rostPut]
      split
      next same => rw [List.map_cons, List.map_cons, same]
      next => rw [List.map_cons, List.map_cons, ih]

theorem rostFind_of_mem (distinct : (rosts.map Rost.gid).Nodup) (member : r ∈ rosts) :
    rostFind rosts r.gid = some r := by
  rw [rostFind]
  cases found : rosts.find? (·.gid = r.gid) with
  | none =>
      have absent := List.find?_eq_none.mp found r member
      simp at absent
  | some other =>
      have same : other.gid = r.gid := by simpa using List.find?_some found
      rw [List.inj_on_of_nodup_map distinct (List.mem_of_find?_eq_some found) member same]

theorem rostForget_spec (distinct : (rosts.map Rost.gid).Nodup) (gid : Text) :
    ((rostForget rosts gid).map Rost.gid).Nodup ∧
      ∀ key, membersOf (rostForget rosts gid) key = if key = gid then none else membersOf rosts key := by
  rw [rostForget]
  cases isPlace : rosts.findIdx? (·.gid = gid) with
  | none =>
      refine ⟨distinct, fun key => ?_⟩
      change membersOf rosts key = if key = gid then none else membersOf rosts key
      split
      next isKey =>
        have absent := List.findIdx?_eq_none_iff.mp isPlace
        rw [isKey, membersOf, rostFind, List.find?_eq_none.mpr fun r member => by simpa using absent r member]
        rfl
      next => rfl
  | some i =>
      obtain ⟨bound, isGid, -⟩ := List.findIdx?_eq_some_iff_getElem.mp isPlace
      have isGid : rosts[i].gid = gid := by simpa using isGid
      have split := @swapRemove_cons_perm _ rosts i bound
      have whole : ((rosts[i] :: swapRemove rosts i).map Rost.gid).Nodup := (split.map Rost.gid).nodup_iff.mpr distinct
      rw [List.map_cons, List.nodup_cons, isGid] at whole
      refine ⟨whole.2, fun key => ?_⟩
      change membersOf (swapRemove rosts i) key = if key = gid then none else membersOf rosts key
      split
      next isKey =>
        rw [isKey, membersOf, rostFind]
        rw [List.find?_eq_none.mpr fun r member => ?_]
        · rfl
        · simpa using fun same => whole.1 (List.mem_map.mpr ⟨r, member, same⟩)
      next other =>
        rw [membersOf, membersOf]
        congr 1
        cases found : rostFind rosts key with
        | some r =>
            have isR := rostFind_gid found
            have member : r ∈ swapRemove rosts i := by
              have inside := split.mem_iff.mpr (List.mem_of_find?_eq_some found)
              rcases List.mem_cons.mp inside with isFirst | inside
              · exact absurd (isR.symm.trans ((congrArg Rost.gid isFirst).trans isGid)) other
              · exact inside
            rw [← isR]
            exact rostFind_of_mem whole.2 member
        | none =>
            refine List.find?_eq_none.mpr fun r member => ?_
            exact List.find?_eq_none.mp found r (split.mem_iff.mp (List.mem_cons_of_mem _ member))

structure GroupsSound (acc : Text) (rosts : List Rost) (gks : List Gkey)
    (approved : List (Text × Text)) : Prop where
  distinct : (rosts.map Rost.gid).Nodup
  made : ∀ k ∈ gks, k.mine = true → ∃ m, membersOf rosts k.gid = some m
  rosters : ∀ gid m, membersOf rosts gid = some m →
    (∃ owner, owner ≠ acc ∧ m = [(owner, 2)]) ∧ (∀ k ∈ gks, k.gid = gid → k.mine = false) ∨
      ∀ entry ∈ m, entry.1 = acc ∨ (gid, entry.1) ∈ approved

namespace GroupsSound

variable (sound : GroupsSound acc rosts gks approved)

include sound

theorem admin (isMembers : membersOf rosts gid = some m) (admin : 1 ≤ rostRole rosts gid acc) :
    ∀ entry ∈ m, entry.1 = acc ∨ (gid, entry.1) ∈ approved := by
  rcases sound.rosters gid m isMembers with ⟨⟨owner, foreign, rfl⟩, -⟩ | known
  · rw [rostRole_eq, isMembers] at admin
    simp [roleIn, foreign] at admin
  · exact known

theorem keys (fresh : ∀ k ∈ gks', k.mine = true → k ∈ gks ∨ 1 ≤ rostRole rosts k.gid acc) :
    GroupsSound acc rosts gks' approved := by
  refine ⟨sound.distinct, fun k member mine => ?_, fun gid m isMembers => ?_⟩
  · rcases fresh k member mine with old | admin
    · exact sound.made k old mine
    · exact @members_of_role k.gid acc rosts 1 (by exact_mod_cast admin)
  · rcases sound.rosters gid m isMembers with ⟨⟨owner, foreign, rfl⟩, idle⟩ | known
    · refine .inl ⟨⟨owner, foreign, rfl⟩, fun k member isGid => ?_⟩
      by_contra mine
      rcases fresh k member (by simpa using mine) with old | admin
      · exact mine (idle k old isGid)
      · rw [isGid, rostRole_eq, isMembers] at admin
        simp [roleIn, foreign] at admin
    · exact .inr known

theorem more (all : ∀ pair ∈ approved, pair ∈ approved') : GroupsSound acc rosts gks approved' := by
  refine ⟨sound.distinct, sound.made, fun gid m isMembers => ?_⟩
  refine (sound.rosters gid m isMembers).imp_right fun known entry member => ?_
  exact (known entry member).imp_right (all _)

theorem put (found : rostFind rosts nr.gid = some r)
    (known : ∀ entry ∈ nr.m, entry.1 = acc ∨ (nr.gid, entry.1) ∈ approved) :
    GroupsSound acc (rostPut nr rosts) gks approved := by
  refine ⟨by rw [rostPut_gids]; exact sound.distinct, fun k member mine => ?_, fun gid m isMembers => ?_⟩
  · rw [membersOf_put found]
    split
    · exact ⟨nr.m, rfl⟩
    · exact sound.made k member mine
  · rw [membersOf_put found] at isMembers
    split at isMembers
    next isGid =>
      cases isMembers
      rw [isGid]
      exact .inr known
    next => exact sound.rosters gid m isMembers

theorem same (distinct : (rosts'.map Rost.gid).Nodup)
    (same : ∀ gid, membersOf rosts' gid = membersOf rosts gid) :
    GroupsSound acc rosts' gks approved := by
  refine ⟨distinct, fun k member mine => ?_, fun gid m isMembers => ?_⟩
  · rw [same]
    exact sound.made k member mine
  · rw [same] at isMembers
    exact sound.rosters gid m isMembers

theorem pin (gid owner : Text) : GroupsSound acc (rostPinOwner rosts gid owner) gks approved := by
  rw [rostPinOwner]
  split
  next => exact sound
  next new =>
    have absent : rostFind rosts gid = none := by
      rw [not_or] at new
      simpa using new.1
    have others (key : Text) : membersOf (rosts ++ [⟨gid, 0, false, [(owner, 2)]⟩]) key =
        if key = gid then some [(owner, 2)] else membersOf rosts key := by
      rw [membersOf, rostFind, List.find?_append]
      split
      next isKey =>
        rw [isKey, show rosts.find? (·.gid = gid) = none from absent]
        simp
      next other =>
        rw [membersOf, rostFind, List.find?_cons_of_neg (by simpa using Ne.symm other)]
        simp
    have unlisted : membersOf rosts gid = none := by rw [membersOf, absent]; rfl
    refine ⟨?_, fun k member mine => ?_, fun key m isMembers => ?_⟩
    · rw [List.map_append, List.nodup_append]
      refine ⟨sound.distinct, by simp, fun other inside last isLast same => ?_⟩
      obtain ⟨r, member, rfl⟩ := List.mem_map.mp inside
      have isLast : last = gid := by simpa using isLast
      exact List.find?_eq_none.mp absent r member (by simpa using same.trans isLast)
    · rw [others]
      split
      · exact ⟨_, rfl⟩
      · exact sound.made k member mine
    · rw [others] at isMembers
      split at isMembers
      next isKey =>
        cases isMembers
        rw [isKey]
        by_cases own : owner = acc
        · exact .inr fun entry member => .inl (by rw [List.mem_singleton.mp member]; exact own)
        · refine .inl ⟨⟨owner, own, rfl⟩, fun k member isGid => ?_⟩
          by_contra mine
          obtain ⟨m, listed⟩ := sound.made k member (by simpa using mine)
          rw [isGid, unlisted] at listed
          cases listed
      next => exact sound.rosters key m isMembers

theorem forget (gid : Text) :
    GroupsSound acc (rostForget rosts gid) (swapFilter (·.gid ≠ gid) gks)
    (approved.filter (·.1 ≠ gid)) := by
  obtain ⟨distinct, others⟩ := rostForget_spec sound.distinct gid
  refine ⟨distinct, fun k member mine => ?_, fun key m isMembers => ?_⟩
  · obtain ⟨member, other⟩ := mem_swapFilter.mp member
    rw [others, if_neg (by simpa using other)]
    exact sound.made k member mine
  · rw [others] at isMembers
    split at isMembers
    next => cases isMembers
    next other =>
      refine (sound.rosters key m isMembers).imp (And.imp_right fun idle k member => ?_) fun known entry member => ?_
      · exact idle k (mem_swapFilter.mp member).1
      · refine (known entry member).imp_right fun isKnown => List.mem_filter.mpr ⟨isKnown, by simpa using other⟩

end GroupsSound

variable {Own : Type} {cr : GroupCrypto Own} {c c' c'' : Client Own}

/-- The rosters stay, and a key that is ours is an old one or of a group that we are an admin of. -/
structure KeysGrow (cr : GroupCrypto Own) (c c' : Client Own) : Prop where
  peers : Quiet cr.toCrypto c.peers c'.peers
  acc : c'.accId = c.accId
  rosts : c'.rosts = c.rosts
  keys : ∀ k ∈ c'.gks, k.mine = true → k ∈ c.gks ∨ 1 ≤ rostRole c.rosts k.gid c.accId

theorem Quiet.refl {s : Peers Own} (sound : PeersSound cr.toCrypto s) : Quiet cr.toCrypto s s :=
  ⟨SameKeys.refl sound.table, rfl, rfl⟩

theorem KeysGrow.of_same (sound : PeersSound cr.toCrypto c.peers) (peers : c'.peers = c.peers)
    (rosts : c'.rosts = c.rosts)
    (keys : ∀ k ∈ c'.gks, k.mine = true → k ∈ c.gks ∨ 1 ≤ rostRole c.rosts k.gid c.accId) :
    KeysGrow cr c c' :=
  ⟨by rw [peers]; exact Quiet.refl sound, by rw [Client.accId, peers]; rfl, rosts, keys⟩

theorem KeysGrow.refl (sound : PeersSound cr.toCrypto c.peers) : KeysGrow cr c c :=
  KeysGrow.of_same sound rfl rfl fun _ member _ => .inl member

theorem KeysGrow.trans (first : KeysGrow cr c c') (second : KeysGrow cr c' c'') :
    KeysGrow cr c c'' := by
  refine ⟨⟨first.peers.keys.trans second.peers.keys, second.peers.file.trans first.peers.file,
    second.peers.accId.trans first.peers.accId⟩, second.acc.trans first.acc,
    second.rosts.trans first.rosts, fun k member mine => ?_⟩
  rcases second.keys k member mine with old | admin
  · exact first.keys k old mine
  · rw [first.rosts, first.acc] at admin
    exact .inr admin

theorem swapRemove_subset {α : Type} {items : List α} {i : Nat} {item : α}
    (member : item ∈ swapRemove items i) : item ∈ items := by
  rw [swapRemove] at member
  split at member
  next => exact member
  next last isLast =>
    rcases List.mem_or_eq_of_mem_set (List.dropLast_subset _ member) with old | isItem
    · exact old
    · exact List.mem_of_getLast? (isItem ▸ isLast)

theorem gkDropOldest_subset {kind : Gkey → Bool} {k : Gkey} (member : k ∈ gkDropOldest kind gks) :
    k ∈ gks := by
  rw [gkDropOldest] at member
  split at member
  · exact swapRemove_subset member
  · exact member

theorem gkDropFrom_subset {limit : Nat} {kind : Gkey → Bool} {k : Gkey}
    (member : k ∈ gkDropFrom limit kind gks) : k ∈ gks := by
  rw [gkDropFrom] at member
  split at member
  · exact gkDropOldest_subset member
  · exact member

theorem gkAdd_keys {k other : Gkey} (member : other ∈ (gkAdd c k).gks) :
    other ∈ c.gks ∨ other = k := by
  rcases List.mem_append.mp member with member | member
  · left
    apply gkDropFrom_subset
    apply gkDropFrom_subset
    split at member
    · exact gkDropOldest_subset member
    · exact member
  · exact .inr (List.mem_singleton.mp member)

theorem GroupsSound.grow (sound : GroupsSound c.accId c.rosts c.gks approved)
    (grow : KeysGrow cr c c') : GroupsSound c'.accId c'.rosts c'.gks approved := by
  rw [grow.acc, grow.rosts]
  exact sound.keys grow.keys

theorem withTable_grow {kr : List Pkey} (same : SameKeys cr.toCrypto c.peers.kr kr) :
    KeysGrow cr c { c with peers := { c.peers with kr := kr } } :=
  ⟨same.quiet, rfl, rfl, fun _ member _ => .inl member⟩

section

variable {g : Chat} {draw : Draw} {unix now : Nat} (sound : PeersSound cr.toCrypto c.peers)

include sound

theorem gkAdd_grow {k : Gkey} (admin : k.mine = true → 1 ≤ rostRole c.rosts k.gid c.accId) :
    KeysGrow cr c (gkAdd c k) := by
  refine KeysGrow.of_same sound rfl rfl fun other member mine => ?_
  rcases gkAdd_keys member with old | rfl
  · exact .inl old
  · exact .inr (admin mine)

theorem gkRekeyCheck_grow : KeysGrow cr c (gkRekeyCheck c g draw unix) := by
  rw [gkRekeyCheck]
  split
  next => exact KeysGrow.refl sound
  next may =>
    rw [not_or, not_or] at may
    have admin : 1 ≤ rostRole c.rosts g.uid c.accId := by
      have := may.2.2
      rw [Client.role] at this
      omega
    split
    · exact KeysGrow.refl sound
    · split
      · exact KeysGrow.refl sound
      · have dropped : KeysGrow cr c
            { c with gsent := swapFilter (fun s => ! (s.gid = g.uid ∧ gkIsMember g s.uid = false)) c.gsent } :=
          KeysGrow.of_same sound rfl rfl fun _ member _ => .inl member
        refine dropped.trans ?_
        apply gkAdd_grow (dropped.peers.sound sound)
        exact fun _ => admin

theorem e2eGwire_grow {id kind : Nat} {plain : Text} :
    KeysGrow cr c (e2eGwire cr c g id kind plain draw unix).2 := by
  rw [e2eGwire]
  split
  · exact KeysGrow.refl sound
  · split
    · exact KeysGrow.refl sound
    · split
      · exact KeysGrow.refl sound
      · have grow : KeysGrow cr c
            (if (gkNewest c.gks g.uid).isNone ∧ 1 ≤ c.role g.uid c.accId ∧
              epochFree c g.uid draw.epoch = true then gkCreate c g.uid draw unix else c) := by
          split
          next made => exact gkAdd_grow sound fun _ => made.2.1
          next => exact KeysGrow.refl sound
        simp only
        split
        · exact grow
        · split <;> exact grow

theorem e2eGkeyOk_grow {gid uid : Text} {epoch : Nat} :
    KeysGrow cr c (e2eGkeyOk c gid uid epoch now) := by
  rw [e2eGkeyOk]
  split <;> exact KeysGrow.of_same sound rfl rfl fun _ member _ => .inl member

theorem askedUid (uid : Text) (asks sent : Bool) : SameKeys cr.toCrypto c.peers.kr
    (if asks then e2eRequestUid (pkr c.peers.kr uid) uid now sent else pkr c.peers.kr uid) := by
  have placed := sound.table.pkr uid
  split
  · exact placed.trans (placed.sound.requestUid uid now sent)
  · exact placed

theorem e2eGin_grow {sender text : Text} {rid kind : Nat} {refeeding sent : Bool} :
    KeysGrow cr c (e2eGin cr c g sender text rid kind refeeding now sent).2 ∧
      ∀ b plain, (e2eGin cr c g sender text rid kind refeeding now sent).1 = .opened b plain →
        ∃ kr, SameKeys cr.toCrypto c.peers.kr kr ∧ (pkrGet kr sender).hasKb = true ∧ b = (pkrGet kr sender).kb := by
  rw [e2eGin]
  split
  · refine ⟨KeysGrow.refl sound, fun b plain opened => ?_⟩
    split at opened <;> cases opened
  · have same := @askedUid Own cr c now sound sender
      (decide ((pkrGet (pkr c.peers.kr sender) sender).kchecked = false ∧ refeeding = false)) sent
    simp only [decide_eq_true_eq] at same
    simp only
    obtain ⟨kr, isKr⟩ : ∃ kr, (if (pkrGet (pkr c.peers.kr sender) sender).kchecked = false ∧ refeeding = false then
      e2eRequestUid (pkr c.peers.kr sender) sender now sent else pkr c.peers.kr sender) = kr := ⟨_, rfl⟩
    rw [isKr] at same ⊢
    have grow := withTable_grow same
    split
    · exact ⟨grow, nofun⟩
    · split
      · refine ⟨grow, fun b plain opened => ?_⟩
        cases refeeding <;> cases opened
      · split
        · exact ⟨grow, nofun⟩
        next has =>
          rw [not_or] at has
          split
          · exact ⟨grow, nofun⟩
          · split
            · exact ⟨grow, nofun⟩
            · split
              · refine ⟨grow, fun b plain opened => ?_⟩
                split at opened <;> cases opened
              · split
                · refine ⟨grow, fun b plain opened => ?_⟩
                  cases opened
                  exact ⟨kr, same, by simpa using has.2, rfl⟩
                · exact ⟨grow, nofun⟩

theorem e2eGkeyIn_grow {gid sender text : Text} {epoch : Nat} {refeeding sent : Bool} :
    KeysGrow cr c (e2eGkeyIn cr c gid sender epoch text refeeding now unix sent) := by
  rw [e2eGkeyIn]
  split
  · exact KeysGrow.refl sound
  · split
    · exact KeysGrow.refl sound
    · split
      · exact KeysGrow.refl sound
      · split
        · exact KeysGrow.refl sound
        · have same := @askedUid Own cr c now sound sender
            (decide ((pkrGet (pkr c.peers.kr sender) sender).kchecked = false ∧ refeeding = false)) sent
          simp only [decide_eq_true_eq] at same
          simp only
          obtain ⟨kr, isKr⟩ : ∃ kr, (if (pkrGet (pkr c.peers.kr sender) sender).kchecked = false ∧ refeeding = false then
            e2eRequestUid (pkr c.peers.kr sender) sender now sent else pkr c.peers.kr sender) = kr := ⟨_, rfl⟩
          rw [isKr] at same ⊢
          have grow := withTable_grow same
          split
          · exact grow
          · split
            · exact grow
            · split
              · exact grow
              · split
                · exact grow
                · exact grow
                · split
                  · split
                    · exact grow
                    · exact grow.trans (gkAdd_grow (grow.peers.sound sound) nofun)
                  · split
                    · exact withTable_grow (same.trans (same.sound.lookAgain sender now sent))
                    · exact grow
                  · exact grow

end

end Cos.Messenger
