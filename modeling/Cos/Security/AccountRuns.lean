import Cos.Security.Accounts

/-! # Runs of account calls

The tables stay sound whatever is called.  Only deleting the user or the group that a process runs
as raises it to root.
-/

namespace Cos.Security

open Cos.Lib

variable {s : Accounts} {caller : Caller} {uid gid : Id} {groupname username : Option (List Char)}
  {issue : Issue}

structure TablesSound (s : Accounts) : Prop where
  started : s.initialized = true
  users : (s.users.map UserInfo.uid).Nodup
  groups : (s.groups.map GroupInfo.gid).Nodup
  userRoom : s.users.length ≤ maxUsers
  groupRoom : s.groups.length ≤ maxGroups
  memberRoom : ∀ group ∈ s.groups, group.members.length ≤ maxMembers
  members : ∀ group ∈ s.groups, group.members.Nodup
  known : ∀ group ∈ s.groups, ∀ uid ∈ group.members, uid ∈ s.users.map UserInfo.uid

def NotRaised (before after : Process) : Prop :=
  (after.ids.euid = rootUid → before.ids.euid = rootUid) ∧
    (after.ids.egid = rootGid → before.ids.egid = rootGid)

structure Safe (s : Accounts) (issue : Issue) : Prop where
  others : ∀ i proc, some i ≠ issue.caller → s.procs[i]? = some proc →
    ∃ after, (permStep s issue).procs[i]? = some after ∧ NotRaised proc after
  own : ∀ i proc, some i = issue.caller → s.procs[i]? = some proc →
    ∃ after, (permStep s issue).procs[i]? = some after ∧
      (NotRaised proc after ∨ permissionIsPrivileged s issue.caller = true)
  tables : TablesSound (permStep s issue)
  failed : (permCall s issue).1 ≠ 0 → permStep s issue = s

/-- The call goes past the checks of `permission_delete_user`. -/
def deletesUser (s : Accounts) (caller : Caller) (uid : Id) : Bool :=
  s.initialized && decide (uid ≠ rootUid) && permissionIsPrivileged s caller &&
    s.users.any (·.uid = uid)

def deletesGroup (s : Accounts) (caller : Caller) (gid : Id) : Bool :=
  s.initialized && decide (gid ≠ rootGid) && permissionIsPrivileged s caller &&
    s.groups.any (·.gid = gid)

/-- Nobody runs as the user that is deleted, and nobody but the caller as the group. -/
def unusedAccount (s : Accounts) (issue : Issue) : Prop :=
  match issue.call with
  | .deleteUser uid =>
      deletesUser s issue.caller uid = true →
        ∀ i (inside : i < s.procs.length), s.procs[i].live = true → s.procs[i].ids.euid ≠ uid
  | .deleteGroup gid =>
      deletesGroup s issue.caller gid = true →
        ∀ i (inside : i < s.procs.length), some i ≠ issue.caller → s.procs[i].live = true → s.procs[i].ids.egid ≠ gid
  | _ => True

theorem map_swapRemove_nodup {α β : Type} {key : α → β} {items : List α} {i : Nat}
    (inside : i < items.length) (nodup : (items.map key).Nodup) :
    ((swapRemove items i).map key).Nodup := by
  have moved := (swapRemove_perm inside).map key
  exact moved.nodup_iff.mpr (nodup.sublist ((List.eraseIdx_sublist items i).map key))

theorem mem_of_mem_swapRemove {α : Type} {items : List α} {i : Nat} {item : α}
    (inside : i < items.length) (member : item ∈ swapRemove items i) : item ∈ items :=
  List.mem_of_mem_eraseIdx ((swapRemove_perm inside).mem_iff.mp member)

theorem swapRemove_length {α : Type} {items : List α} {i : Nat} (inside : i < items.length) :
    (swapRemove items i).length = items.length - 1 := by
  rw [(swapRemove_perm inside).length_eq, List.length_eraseIdx_of_lt inside]

theorem mem_swapRemove_of_ne {α : Type} {items : List α} {i : Nat} {item : α}
    (inside : i < items.length) (member : item ∈ items) (other : item ≠ items[i]) :
    item ∈ swapRemove items i := by
  have both := (swapRemove_cons_perm inside).mem_iff.mpr member
  exact (List.mem_cons.mp both).resolve_left other

section

variable {groups : List GroupInfo} {members : List Id} {group : GroupInfo}

theorem setMembers_gids :
    (setMembers gid members groups).map GroupInfo.gid = groups.map GroupInfo.gid := by
  induction groups with
  | nil => rfl
  | cons first rest ih =>
      rw [setMembers]
      split
      · rfl
      · rw [List.map_cons, List.map_cons, ih]

theorem mem_setMembers (member : group ∈ setMembers gid members groups) :
    group ∈ groups ∨ group.members = members := by
  induction groups with
  | nil => exact Or.inl member
  | cons first rest ih =>
      rw [setMembers] at member
      split at member
      · rcases List.mem_cons.mp member with rfl | later
        · exact Or.inr rfl
        · exact Or.inl (List.mem_cons_of_mem _ later)
      · rcases List.mem_cons.mp member with rfl | later
        · exact Or.inl List.mem_cons_self
        · exact (ih later).imp_left (List.mem_cons_of_mem _)

end

theorem TablesSound.of_tables {other : Accounts} (sound : TablesSound s)
    (users : other.users = s.users) (groups : other.groups = s.groups)
    (started : other.initialized = s.initialized) : TablesSound other := by
  constructor
  · exact started.trans sound.started
  · rw [users]; exact sound.users
  · rw [groups]; exact sound.groups
  · rw [users]; exact sound.userRoom
  · rw [groups]; exact sound.groupRoom
  · rw [groups]; exact sound.memberRoom
  · rw [groups]; exact sound.members
  · rw [groups, users]; exact sound.known

theorem TablesSound.writeContext {ids : Context} (sound : TablesSound s) :
    TablesSound (permissionWriteContext s caller ids) := by
  unfold permissionWriteContext
  split
  · exact sound.of_tables rfl rfl rfl
  · exact sound.of_tables rfl rfl rfl

theorem TablesSound.setMembers {members : List Id} (sound : TablesSound s)
    (room : members.length ≤ maxMembers) (nodup : members.Nodup)
    (known : ∀ uid ∈ members, uid ∈ s.users.map UserInfo.uid) :
    TablesSound { s with groups := setMembers gid members s.groups } where
  started := sound.started
  users := sound.users
  userRoom := sound.userRoom
  groups := by
    rw [setMembers_gids]
    exact sound.groups
  groupRoom := by
    rw [← List.length_map GroupInfo.gid, setMembers_gids, List.length_map]
    exact sound.groupRoom
  memberRoom := by
    intro group member
    rcases mem_setMembers member with old | new
    · exact sound.memberRoom group old
    · rw [new]; exact room
  members := by
    intro group member
    rcases mem_setMembers member with old | new
    · exact sound.members group old
    · rw [new]; exact nodup
  known := by
    intro group member
    rcases mem_setMembers member with old | new
    · exact sound.known group old
    · rw [new]; exact known

theorem mem_of_getGroup {group : GroupInfo} (found : permissionGetGroup s gid = some group) :
    group ∈ s.groups := by
  unfold permissionGetGroup at found
  split at found
  · exact List.mem_of_find?_eq_some found
  · cases found

theorem known_of_getUser (found : (permissionGetUser s uid).isNone ≠ true) :
    uid ∈ s.users.map UserInfo.uid := by
  unfold permissionGetUser at found
  split at found
  · obtain ⟨user, isUser⟩ : ∃ user, s.users.find? (·.uid = uid) = some user :=
      Option.ne_none_iff_exists'.mp fun missing => found (by rw [missing]; rfl)
    have same : user.uid = uid := by simpa using List.find?_some isUser
    exact same ▸ List.mem_map_of_mem (List.mem_of_find?_eq_some isUser)
  · exact absurd rfl found

theorem createGroup_cases :
    permissionCreateGroup s caller gid groupname = (-1, s) ∨
      ∃ name, groupname = some name ∧ nameFits name = true ∧ s.groups.length < maxGroups ∧
        (∀ group ∈ s.groups, group.gid ≠ gid) ∧
        permissionCreateGroup s caller gid groupname = (0, { s with groups := s.groups ++ [⟨gid, name, []⟩] }) := by
  unfold permissionCreateGroup
  split
  · exact Or.inl rfl
  · split
    · exact Or.inl rfl
    · cases groupname with
      | none => exact Or.inl rfl
      | some name =>
          dsimp only
          split
          · exact Or.inl rfl
          · rename_i unused
            split
            · exact Or.inl rfl
            · rename_i fits
              refine Or.inr ⟨name, rfl, by simpa using fits, by omega, ?_, rfl⟩
              simpa using unused

theorem TablesSound.addGroup {name : List Char} (sound : TablesSound s)
    (room : s.groups.length < maxGroups) (unused : ∀ group ∈ s.groups, group.gid ≠ gid) :
    TablesSound { s with groups := s.groups ++ [(⟨gid, name, []⟩ : GroupInfo)] } where
  started := sound.started
  users := sound.users
  userRoom := sound.userRoom
  groups := by
    rw [List.map_append, List.nodup_append]
    refine ⟨sound.groups, List.Pairwise.cons (by simp) List.Pairwise.nil, ?_⟩
    intro old oldIn new newIn
    obtain ⟨group, member, rfl⟩ := List.mem_map.mp oldIn
    rw [List.mem_singleton.mp newIn]
    exact unused group member
  groupRoom := by
    rw [List.length_append]
    exact room
  memberRoom := by
    intro group member
    rcases List.mem_append.mp member with old | new
    · exact sound.memberRoom group old
    · rw [List.mem_singleton.mp new]; simp
  members := by
    intro group member
    rcases List.mem_append.mp member with old | new
    · exact sound.members group old
    · rw [List.mem_singleton.mp new]; exact List.nodup_nil
  known := by
    intro group member
    rcases List.mem_append.mp member with old | new
    · exact sound.known group old
    · rw [List.mem_singleton.mp new]; intro uid none; cases none

theorem addUserToGroup_cases (sound : TablesSound s) :
    permissionAddUserToGroup s caller uid gid = (-1, s) ∨
      permissionAddUserToGroup s caller uid gid = (0, s) ∨
      ∃ members, permissionAddUserToGroup s caller uid gid = (0, { s with groups := setMembers gid members s.groups }) ∧
        members.length ≤ maxMembers ∧ members.Nodup ∧ ∀ other ∈ members, other ∈ s.users.map UserInfo.uid := by
  unfold permissionAddUserToGroup
  split
  · exact Or.inl rfl
  · split
    · exact Or.inl rfl
    · split
      · exact Or.inl rfl
      · rename_i exists_
        split
        · exact Or.inl rfl
        · rename_i group found
          have member := mem_of_getGroup found
          split
          · exact Or.inl rfl
          · rename_i room
            split
            · exact Or.inr (Or.inl rfl)
            · rename_i absent
              refine Or.inr (Or.inr ⟨group.members ++ [uid], rfl, ?_, ?_, ?_⟩)
              · rw [List.length_append]
                exact Nat.not_le.mp room
              · rw [List.nodup_append]
                refine ⟨sound.members group member, List.Pairwise.cons (by simp) List.Pairwise.nil, ?_⟩
                intro old oldIn new newIn
                rw [List.mem_singleton.mp newIn]
                rintro rfl
                exact absent oldIn
              · intro other otherIn
                rcases List.mem_append.mp otherIn with old | new
                · exact sound.known group member other old
                · rw [List.mem_singleton.mp new]
                  exact known_of_getUser exists_

theorem removeUserFromGroup_cases (sound : TablesSound s) :
    permissionRemoveUserFromGroup s caller uid gid = (-1, s) ∨
      ∃ members, permissionRemoveUserFromGroup s caller uid gid = (0, { s with groups := setMembers gid members s.groups }) ∧
        members.length ≤ maxMembers ∧ members.Nodup ∧ ∀ other ∈ members, other ∈ s.users.map UserInfo.uid := by
  unfold permissionRemoveUserFromGroup
  split
  · exact Or.inl rfl
  · split
    · exact Or.inl rfl
    · split
      · exact Or.inl rfl
      · rename_i group found
        have member := mem_of_getGroup found
        split
        · exact Or.inl rfl
        · rename_i i place
          have inside : i < group.members.length := (List.findIdx?_eq_some_iff_getElem.mp place).1
          refine Or.inr ⟨swapRemove group.members i, rfl, ?_, ?_, ?_⟩
          · rw [swapRemove_length inside]
            exact Nat.le_trans (Nat.sub_le _ _) (sound.memberRoom group member)
          · have nodup := @map_swapRemove_nodup _ _ id _ _ inside (by rw [List.map_id]; exact sound.members group member)
            rwa [List.map_id] at nodup
          · exact fun other otherIn => sound.known group member other (mem_of_mem_swapRemove inside otherIn)

theorem TablesSound.addUser {user : UserInfo} (sound : TablesSound s)
    (room : s.users.length < maxUsers) (unused : ∀ other ∈ s.users, other.uid ≠ user.uid) :
    TablesSound { s with users := s.users ++ [user] } where
  started := sound.started
  users := by
    rw [List.map_append, List.nodup_append]
    refine ⟨sound.users, List.Pairwise.cons (by simp) List.Pairwise.nil, ?_⟩
    intro old oldIn new newIn
    obtain ⟨other, member, rfl⟩ := List.mem_map.mp oldIn
    rw [List.mem_singleton.mp newIn]
    exact unused other member
  userRoom := by
    rw [List.length_append]
    exact room
  groups := sound.groups
  groupRoom := sound.groupRoom
  memberRoom := sound.memberRoom
  members := sound.members
  known := by
    intro group member uid uidIn
    rw [List.map_append]
    exact List.mem_append_left _ (sound.known group member uid uidIn)

theorem TablesSound.of_uids {users : List UserInfo} (sound : TablesSound s)
    (same : users.map UserInfo.uid = s.users.map UserInfo.uid) :
    TablesSound { s with users := users } where
  started := sound.started
  users := by
    rw [same]
    exact sound.users
  userRoom := by
    rw [← List.length_map UserInfo.uid, same, List.length_map]
    exact sound.userRoom
  groups := sound.groups
  groupRoom := sound.groupRoom
  memberRoom := sound.memberRoom
  members := sound.members
  known := by
    intro group member uid uidIn
    rw [same]
    exact sound.known group member uid uidIn

theorem addUserToGroup_fresh {user : UserInfo} {name : List Char} (started : s.initialized = true)
    (privileged : permissionIsPrivileged s caller = true)
    (unused : ∀ group ∈ s.groups, group.gid ≠ user.uid) : (permissionAddUserToGroup
      { s with groups := s.groups ++ [⟨user.uid, name, []⟩], users := s.users ++ [user] } caller
      user.uid user.uid).1 = 0 := by
  have privileged' : permissionIsPrivileged
      { s with groups := s.groups ++ [⟨user.uid, name, []⟩], users := s.users ++ [user] } caller =
      true := privileged
  have isUser : (permissionGetUser
      { s with groups := s.groups ++ [⟨user.uid, name, []⟩], users := s.users ++ [user] }
      user.uid).isNone = false := by
    simp [permissionGetUser, started]
  have isGroup : permissionGetGroup
      { s with groups := s.groups ++ [⟨user.uid, name, []⟩], users := s.users ++ [user] } user.uid =
        some ⟨user.uid, name, []⟩ := by
    unfold permissionGetGroup
    rw [if_pos started, List.find?_append, List.find?_eq_none.mpr (by simpa using unused)]
    simp
  unfold permissionAddUserToGroup
  rw [if_neg (by simp [started]), if_neg (by simp [privileged']), if_neg (by simp [isUser]),
    isGroup]
  simp [maxMembers]

theorem createUser_join {name : List Char} (sound : TablesSound s)
    (room : s.users.length < maxUsers) (unused : ∀ other ∈ s.users, other.uid ≠ uid)
    {answer : Int × Accounts} (isAnswer : answer =
      if (permissionGetGroup { s with users := s.users ++ [⟨uid, uid, name, 0⟩] } uid).isSome then
        permissionAddUserToGroup { s with users := s.users ++ [⟨uid, uid, name, 0⟩] } caller uid uid
      else (0, { s with users := s.users ++ [⟨uid, uid, name, 0⟩] })) :
    answer = (-1, { s with users := s.users ++ [⟨uid, uid, name, 0⟩] }) ∨
      (answer.1 = 0 ∧ TablesSound { answer.2 with users := s.users ++ [⟨uid, uid, name, 0o755⟩] } ∧
        answer.2.procs = s.procs) := by
  have joined : TablesSound { s with users := s.users ++ [⟨uid, uid, name, 0⟩] } :=
    sound.addUser room unused
  have sameUids : (s.users ++ [(⟨uid, uid, name, 0o755⟩ : UserInfo)]).map UserInfo.uid =
      (s.users ++ [(⟨uid, uid, name, 0⟩ : UserInfo)]).map UserInfo.uid := by
    rw [List.map_append, List.map_append]; rfl
  split at isAnswer
  · rcases @addUserToGroup_cases _ caller uid uid joined with refused | kept |
      ⟨members, changed, few, nodup, known⟩
    · exact Or.inl (isAnswer.trans refused)
    · rw [isAnswer, kept]
      exact Or.inr ⟨rfl, joined.of_uids sameUids, rfl⟩
    · rw [isAnswer, changed]
      exact Or.inr ⟨rfl, (joined.setMembers few nodup known).of_uids sameUids, rfl⟩
  · rw [isAnswer]
    exact Or.inr ⟨rfl, joined.of_uids sameUids, rfl⟩

theorem createUser_cases (sound : TablesSound s) :
    permissionCreateUser s caller uid username = (-1, s) ∨
      ∃ after, permissionCreateUser s caller uid username = (0, after) ∧ TablesSound after ∧
      after.procs = s.procs := by
  unfold permissionCreateUser
  split
  · exact Or.inl rfl
  · rename_i room
    split
    · exact Or.inl rfl
    · rename_i privileged
      cases username with
      | none => exact Or.inl rfl
      | some name =>
          dsimp only
          split
          · exact Or.inl rfl
          · rename_i unused
            have roomy : s.users.length < maxUsers := by
              rcases Nat.lt_or_ge s.users.length maxUsers with less | more
              · exact less
              · exact absurd (Or.inr more) room
            have unused' : ∀ other ∈ s.users, other.uid ≠ uid := by simpa using unused
            obtain ⟨fresh, isFresh⟩ : ∃ b, ((permissionGetGroup s uid).isNone && decide (s.groups.length < maxGroups)) = b :=
              ⟨_, rfl⟩
            rw [isFresh]
            cases fresh with
            | true =>
                rw [if_pos rfl, if_pos rfl]
                rcases @createGroup_cases s caller uid (some name) with refused | ⟨_, same, fits, space, noGroup, made⟩
                · rw [refused]
                  exact Or.inl rfl
                · cases same
                  rw [made]
                  rw [if_neg (fun wrong => wrong rfl), if_neg (by rw [fits]; exact Bool.noConfusion)]
                  have grouped := @TablesSound.addGroup _ _ name sound space noGroup
                  have taken := @addUserToGroup_fresh s caller ⟨uid, uid, name, 0⟩ name
                    sound.started (by simpa using privileged) noGroup
                  rcases @createUser_join _ caller uid name grouped roomy unused' _ rfl with refused | ⟨zero, sound', procs⟩
                  · exfalso
                    have differs : (-1 : Int) ≠ 0 := by decide
                    split at refused
                    · rw [refused] at taken
                      exact differs taken
                    · exact differs (congrArg Prod.fst refused).symm
                  · rw [if_neg (fun wrong => wrong zero)]
                    exact Or.inr ⟨_, rfl, sound', procs⟩
            | false =>
                rw [if_neg (by simp)]
                split
                · exact Or.inl rfl
                · rcases @createUser_join _ caller uid name sound roomy unused' _ rfl with refused | ⟨zero, sound', procs⟩
                  · left
                    simp only [Bool.false_eq_true, if_false]
                    rw [refused]
                    rfl
                  · right
                    rw [if_neg (fun wrong => wrong zero)]
                    exact ⟨_, rfl, sound', procs⟩

def leaves (change : Context → Context) (proc : Process) : Process :=
  if proc.live then { proc with ids := change proc.ids } else proc

theorem deleteUser_cases (sound : TablesSound s) :
    (permissionDeleteUser s caller uid = (-1, s) ∧ deletesUser s caller uid = false) ∨
      (deletesUser s caller uid = true ∧ (permissionDeleteUser s caller uid).1 = 0 ∧
        TablesSound (permissionDeleteUser s caller uid).2 ∧
        (permissionDeleteUser s caller uid).2.procs = s.procs.map (leaves (Context.leaveUser uid))) := by
  unfold permissionDeleteUser deletesUser
  split
  · rename_i refused
    rcases refused with notStarted | isRoot
    · simp [notStarted]
    · simp [isRoot]
  · rename_i ready
    split
    · rename_i plain
      exact Or.inl ⟨rfl, by simp [plain]⟩
    · rename_i privileged
      split
      · rename_i none
        exact Or.inl ⟨rfl, by simpa using fun _ _ _ user member => List.findIdx?_eq_none_iff.mp none user member⟩
      · rename_i i place
        obtain ⟨inside, same, -⟩ := List.findIdx?_eq_some_iff_getElem.mp place
        have same' : s.users[i].uid = uid := by simpa using same
        refine Or.inr ⟨?_, rfl, ?_, rfl⟩
        · have member : s.users.any (·.uid = uid) = true :=
            List.any_eq_true.mpr ⟨s.users[i], List.getElem_mem inside, same⟩
          have others := not_or.mp ready
          simp [member, sound.started, others.2]
          simpa using privileged
        · refine ⟨sound.started, map_swapRemove_nodup inside sound.users, ?_, ?_, ?_, ?_, ?_, ?_⟩
          · rw [permissionRemoveUserFromAllGroups, List.map_map]
            exact sound.groups
          · exact Nat.le_trans (Nat.le_of_eq (swapRemove_length inside)) (Nat.le_trans (Nat.sub_le _ _) sound.userRoom)
          · exact Nat.le_trans (Nat.le_of_eq (List.length_map _)) sound.groupRoom
          · intro group member
            obtain ⟨old, oldIn, rfl⟩ := List.mem_map.mp member
            have filtered : (swapFilter (· ≠ uid) old.members).length ≤ old.members.length :=
              Nat.le_trans (Nat.le_of_eq (swapFilterFrom_perm rfl).length_eq) (List.length_filter_le _ _)
            exact Nat.le_trans filtered (sound.memberRoom old oldIn)
          · intro group member
            obtain ⟨old, oldIn, rfl⟩ := List.mem_map.mp member
            exact (swapFilterFrom_perm rfl).nodup_iff.mpr ((sound.members old oldIn).filter _)
          · intro group member other otherIn
            obtain ⟨old, oldIn, rfl⟩ := List.mem_map.mp member
            obtain ⟨wasIn, differs⟩ := mem_swapFilter.mp otherIn
            obtain ⟨user, userIn, rfl⟩ := List.mem_map.mp (sound.known old oldIn other wasIn)
            refine List.mem_map_of_mem (mem_swapRemove_of_ne inside userIn ?_)
            rintro rfl
            simp [same'] at differs

theorem deleteGroup_cases (sound : TablesSound s) :
    (permissionDeleteGroup s caller gid = (-1, s) ∧ deletesGroup s caller gid = false) ∨
      (deletesGroup s caller gid = true ∧ (permissionDeleteGroup s caller gid).1 = 0 ∧
        TablesSound (permissionDeleteGroup s caller gid).2 ∧
        (permissionDeleteGroup s caller gid).2.procs = s.procs.map (leaves (Context.leaveGroup gid))) := by
  unfold permissionDeleteGroup deletesGroup
  split
  · rename_i refused
    rcases refused with notStarted | isRoot
    · simp [notStarted]
    · simp [isRoot]
  · rename_i ready
    split
    · rename_i plain
      exact Or.inl ⟨rfl, by simp [plain]⟩
    · rename_i privileged
      split
      · rename_i none
        exact Or.inl ⟨rfl, by simpa using fun _ _ _ group member => List.findIdx?_eq_none_iff.mp none group member⟩
      · rename_i i place
        obtain ⟨inside, same, -⟩ := List.findIdx?_eq_some_iff_getElem.mp place
        refine Or.inr ⟨?_, rfl, ?_, rfl⟩
        · have member : s.groups.any (·.gid = gid) = true :=
            List.any_eq_true.mpr ⟨s.groups[i], List.getElem_mem inside, same⟩
          have others := not_or.mp ready
          simp [member, sound.started, others.2]
          simpa using privileged
        · have uids : (s.users.map fun user : UserInfo =>
              { user with gid := if user.gid = gid then rootGid else user.gid }).map UserInfo.uid =
                s.users.map UserInfo.uid := by
            rw [List.map_map]
            rfl
          have renamed := sound.of_uids uids
          refine ⟨sound.started, renamed.users, map_swapRemove_nodup inside sound.groups, renamed.userRoom, ?_, ?_, ?_, ?_⟩
          · exact Nat.le_trans (Nat.le_of_eq (swapRemove_length inside)) (Nat.le_trans (Nat.sub_le _ _) sound.groupRoom)
          · exact fun group member => sound.memberRoom group (mem_of_mem_swapRemove inside member)
          · exact fun group member => sound.members group (mem_of_mem_swapRemove inside member)
          · exact fun group member => renamed.known group (mem_of_mem_swapRemove inside member)

section

variable {i : Nat} {proc : Process} {ids : Context}

theorem writeContext_other (other : some i ≠ caller) :
    (permissionWriteContext s caller ids).procs[i]? = s.procs[i]? := by
  unfold permissionWriteContext
  split
  · rename_i j running found
    obtain ⟨place, isPlace, atPlace⟩ := Option.bind_eq_some_iff.mp found
    obtain ⟨_, _, same⟩ := Option.map_eq_some_iff.mp atPlace
    cases same
    have differs : j ≠ i := by
      rintro rfl
      exact other isPlace.symm
    exact List.getElem?_set_ne differs
  · rfl

theorem writeContext_place (found : s.procs[i]? = some proc) :
    ∃ after, (permissionWriteContext s caller ids).procs[i]? = some after := by
  have inside := (List.getElem?_eq_some_iff.mp found).1
  have kept : (permissionWriteContext s caller ids).procs.length = s.procs.length := by
    unfold permissionWriteContext
    split
    · exact List.length_set
    · rfl
  exact ⟨_, List.getElem?_eq_getElem (kept ▸ inside)⟩

theorem setId_cases {known : Bool} {change : Context → Context} :
    permissionSetId s caller known change = (-1, s) ∨
      permissionIsPrivileged s caller = true ∧
      ∃ ids, permissionSetId s caller known change = (0, permissionWriteContext s caller ids) := by
  unfold permissionSetId
  split
  · exact Or.inl rfl
  · split
    · exact Or.inl rfl
    · rename_i privileged
      split
      · exact Or.inl rfl
      · exact Or.inr ⟨by simpa using privileged, _, rfl⟩

theorem NotRaised.refl : NotRaised proc proc := ⟨id, id⟩

theorem NotRaised.of_ids {after : Process} (same : after.ids = proc.ids) :
    NotRaised proc after := by
  rw [NotRaised, same]
  exact ⟨id, id⟩

theorem notRaised_leaveUser (notRoot : uid ≠ rootUid) :
    NotRaised proc (leaves (Context.leaveUser uid) proc) ↔
    (proc.live = true → proc.ids.euid ≠ uid) := by
  unfold NotRaised leaves Context.leaveUser
  by_cases live : proc.live = true
  · by_cases runs : proc.ids.euid = uid
    · simp [live, runs, notRoot]
    · simp [live, runs]
  · simp [live]

theorem notRaised_leaveGroup (notRoot : gid ≠ rootGid) :
    NotRaised proc (leaves (Context.leaveGroup gid) proc) ↔
    (proc.live = true → proc.ids.egid ≠ gid) := by
  unfold NotRaised leaves Context.leaveGroup
  by_cases live : proc.live = true
  · by_cases runs : proc.ids.egid = gid
    · simp [live, runs, notRoot]
    · simp [live, runs]
  · simp [live]

end

theorem Safe.of_kept (kept : ∀ (i : Nat) (proc : Process), s.procs[i]? = some proc →
      ∃ after : Process, (permStep s issue).procs[i]? = some after ∧ after.ids = proc.ids)
    (tables : TablesSound (permStep s issue))
    (failed : (permCall s issue).1 ≠ 0 → permStep s issue = s) : Safe s issue where
  others := by
    intro i proc _ found
    obtain ⟨after, place, same⟩ := kept i proc found
    exact ⟨after, place, NotRaised.of_ids same⟩
  own := by
    intro i proc _ found
    obtain ⟨after, place, same⟩ := kept i proc found
    exact ⟨after, place, Or.inl (NotRaised.of_ids same)⟩
  tables := tables
  failed := failed

theorem Safe.of_tables (sound : TablesSound s)
    (answer : permCall s issue = (-1, s) ∨
      ∃ after, permCall s issue = (0, after) ∧ TablesSound after ∧
      after.procs = s.procs) : Safe s issue := by
  rcases answer with refused | ⟨after, done, sound', procs⟩
  · apply Safe.of_kept
    · intro i proc found
      exact ⟨proc, by rw [permStep, refused]; exact found, rfl⟩
    · rw [permStep, refused]
      exact sound
    · intro _
      rw [permStep, refused]
  · apply Safe.of_kept
    · intro i proc found
      exact ⟨proc, by rw [permStep, done]; exact procs ▸ found, rfl⟩
    · rw [permStep, done]
      exact sound'
    · intro wrong
      rw [done] at wrong
      exact absurd rfl wrong

theorem Safe.of_setId {known : Bool} {change : Context → Context} (sound : TablesSound s)
    (isCall : permCall s issue = permissionSetId s issue.caller known change) : Safe s issue := by
  rcases @setId_cases s issue.caller known change with refused | ⟨privileged, ids, done⟩
  · exact Safe.of_tables sound (Or.inl (isCall.trans refused))
  · have after : permStep s issue = permissionWriteContext s issue.caller ids := by
      rw [permStep, isCall, done]
    constructor
    · intro i proc other found
      exact ⟨proc, by rw [after, writeContext_other other]; exact found, NotRaised.refl⟩
    · intro i proc _ found
      obtain ⟨changed, place⟩ := @writeContext_place _ issue.caller _ _ ids found
      exact ⟨changed, by rw [after]; exact place, Or.inr privileged⟩
    · rw [after]
      exact sound.writeContext
    · intro wrong
      rw [isCall, done] at wrong
      exact absurd rfl wrong

theorem privileged_caller {i : Nat} {proc : Process}
    (privileged : permissionIsPrivileged s caller = true) (isCaller : some i = caller)
    (found : s.procs[i]? = some proc) : proc.ids.euid = rootUid := by
  subst isCaller
  simpa [permissionIsPrivileged, permissionReadContext, found] using privileged

theorem safe_iff_of_deleted {change : Context → Context} (status : (permCall s issue).1 = 0)
    (tables : TablesSound (permStep s issue))
    (procs : (permStep s issue).procs = s.procs.map (leaves change))
    (privileged : permissionIsPrivileged s issue.caller = true) : Safe s issue ↔
      ∀ (i : Nat) (proc : Process), some i ≠ issue.caller → s.procs[i]? = some proc →
      NotRaised proc (leaves change proc) := by
  have place : ∀ (i : Nat) (proc : Process), s.procs[i]? = some proc →
    (permStep s issue).procs[i]? = some (leaves change proc) := by
    intro i proc found
    rw [procs, List.getElem?_map, found]
    rfl
  constructor
  · intro safe i proc other found
    obtain ⟨after, isAfter, notRaised⟩ := safe.others i proc other found
    rw [place i proc found] at isAfter
    cases isAfter
    exact notRaised
  · intro notRaised
    constructor
    · exact fun i proc other found => ⟨_, place i proc found, notRaised i proc other found⟩
    · exact fun i proc _ found => ⟨_, place i proc found, Or.inr privileged⟩
    · exact tables
    · exact fun wrong => absurd status wrong

theorem safe_deleteUser (sound : TablesSound s) (isCall : issue.call = .deleteUser uid) :
    Safe s issue ↔ unusedAccount s issue := by
  have call : permCall s issue = permissionDeleteUser s issue.caller uid := by rw [permCall, isCall]
  have condition : unusedAccount s issue ↔ (deletesUser s issue.caller uid = true →
      ∀ i (inside : i < s.procs.length), s.procs[i].live = true → s.procs[i].ids.euid ≠ uid) := by
    rw [unusedAccount, isCall]
  rw [condition]
  rcases @deleteUser_cases s issue.caller uid sound with ⟨refused, out⟩ |
    ⟨deletes, status, tables, procs⟩
  · have safe := Safe.of_tables sound (Or.inl (call.trans refused))
    exact iff_of_true safe fun wrong => absurd (out.symm.trans wrong) (by decide)
  · have parts := deletes
    simp only [deletesUser, Bool.and_eq_true, decide_eq_true_eq] at parts
    obtain ⟨⟨⟨-, notRoot⟩, privileged⟩, -⟩ := parts
    rw [← call] at status tables procs
    rw [safe_iff_of_deleted status tables procs privileged]
    constructor
    · intro notRaised _ i inside
      by_cases isCaller : some i = issue.caller
      · have asRoot := privileged_caller privileged isCaller (List.getElem?_eq_getElem inside)
        intro _ same
        exact notRoot (same.symm.trans asRoot)
      · exact (notRaised_leaveUser notRoot).mp (notRaised i _ isCaller (List.getElem?_eq_getElem inside))
    · intro unused i proc _ found
      obtain ⟨inside, rfl⟩ := List.getElem?_eq_some_iff.mp found
      exact (notRaised_leaveUser notRoot).mpr (unused deletes i inside)

theorem safe_deleteGroup (sound : TablesSound s) (isCall : issue.call = .deleteGroup gid) :
    Safe s issue ↔ unusedAccount s issue := by
  have call : permCall s issue = permissionDeleteGroup s issue.caller gid := by
    rw [permCall, isCall]
  have condition : unusedAccount s issue ↔ (deletesGroup s issue.caller gid = true →
      ∀ i (inside : i < s.procs.length), some i ≠ issue.caller → s.procs[i].live = true →
      s.procs[i].ids.egid ≠ gid) := by
    rw [unusedAccount, isCall]
  rw [condition]
  rcases @deleteGroup_cases s issue.caller gid sound with ⟨refused, out⟩ |
    ⟨deletes, status, tables, procs⟩
  · have safe := Safe.of_tables sound (Or.inl (call.trans refused))
    exact iff_of_true safe fun wrong => absurd (out.symm.trans wrong) (by decide)
  · have parts := deletes
    simp only [deletesGroup, Bool.and_eq_true, decide_eq_true_eq] at parts
    obtain ⟨⟨⟨-, notRoot⟩, privileged⟩, -⟩ := parts
    rw [← call] at status tables procs
    rw [safe_iff_of_deleted status tables procs privileged]
    constructor
    · intro notRaised _ i inside other
      exact (notRaised_leaveGroup notRoot).mp (notRaised i _ other (List.getElem?_eq_getElem inside))
    · intro unused i proc other found
      obtain ⟨inside, rfl⟩ := List.getElem?_eq_some_iff.mp found
      exact (notRaised_leaveGroup notRoot).mpr (unused deletes i inside other)

theorem safe_iff (sound : TablesSound s) : Safe s issue ↔ unusedAccount s issue := by
  obtain ⟨caller, call⟩ := issue
  cases call with
  | deleteUser uid => exact safe_deleteUser sound rfl
  | deleteGroup gid => exact safe_deleteGroup sound rfl
  | createUser uid username =>
    exact iff_of_true (Safe.of_tables sound (createUser_cases sound)) trivial
  | createGroup gid groupname =>
      refine iff_of_true (Safe.of_tables sound ?_) trivial
      rcases @createGroup_cases s caller gid groupname with refused | ⟨name, -, -, room, unused, made⟩
      · exact Or.inl refused
      · exact Or.inr ⟨_, made, sound.addGroup room unused, rfl⟩
  | addUserToGroup uid gid =>
      refine iff_of_true (Safe.of_tables sound ?_) trivial
      rcases @addUserToGroup_cases s caller uid gid sound with refused | kept | ⟨members, changed, few, nodup, known⟩
      · exact Or.inl refused
      · exact Or.inr ⟨_, kept, sound, rfl⟩
      · exact Or.inr ⟨_, changed, sound.setMembers few nodup known, rfl⟩
  | removeUserFromGroup uid gid =>
      refine iff_of_true (Safe.of_tables sound ?_) trivial
      rcases @removeUserFromGroup_cases s caller uid gid sound with refused | ⟨members, changed, few, nodup, known⟩
      · exact Or.inl refused
      · exact Or.inr ⟨_, changed, sound.setMembers few nodup known, rfl⟩
  | setUid uid => exact iff_of_true (Safe.of_setId sound (show permissionSetUid s caller uid = _ from rfl)) trivial
  | setGid gid => exact iff_of_true (Safe.of_setId sound (show permissionSetGid s caller gid = _ from rfl)) trivial
  | setEuid euid => exact iff_of_true (Safe.of_setId sound (show permissionSetEuid s caller euid = _ from rfl)) trivial
  | setEgid egid => exact iff_of_true (Safe.of_setId sound (show permissionSetEgid s caller egid = _ from rfl)) trivial
  | spawn kernel =>
      refine iff_of_true (Safe.of_kept ?_ (sound.of_tables rfl rfl rfl) fun wrong => absurd rfl wrong) trivial
      intro i proc found
      exact ⟨proc, List.getElem?_append_left (List.getElem?_eq_some_iff.mp found).1 ▸ found, rfl⟩
  | exit place =>
      refine iff_of_true (Safe.of_kept ?_ (sound.of_tables rfl rfl rfl) fun wrong => absurd rfl wrong) trivial
      intro i proc found
      refine ⟨if place = i then { proc with live := false } else proc, ?_, ?_⟩
      · change (s.procs.modify place _)[i]? = _
        rw [List.getElem?_modify, found]
        rfl
      · split
        · rfl
        · rfl

theorem TablesSound.step (sound : TablesSound s) : TablesSound (permStep s issue) := by
  obtain ⟨caller, call⟩ := issue
  cases call with
  | deleteUser uid =>
      change TablesSound (permissionDeleteUser s caller uid).2
      rcases @deleteUser_cases s caller uid sound with ⟨refused, -⟩ | ⟨-, -, tables, -⟩
      · rw [refused]
        exact sound
      · exact tables
  | deleteGroup gid =>
      change TablesSound (permissionDeleteGroup s caller gid).2
      rcases @deleteGroup_cases s caller gid sound with ⟨refused, -⟩ | ⟨-, -, tables, -⟩
      · rw [refused]
        exact sound
      · exact tables
  | _ => exact Safe.tables ((safe_iff sound).mpr (by trivial))

/-- `permission_manager_init`, called with any processes. -/
def boot (procs : List Process) (caller : Caller) : Accounts :=
  permissionManagerInit ⟨false, [], [], ⟨0, 0, 0, 0, 0⟩, procs⟩ caller

theorem boot_sound (procs : List Process) : TablesSound (boot procs caller) := by
  unfold boot permissionManagerInit
  rw [if_neg Bool.noConfusion]
  have named : TablesSound
      ⟨true, [⟨rootUid, rootGid, "root".toList, 0o777⟩], [⟨rootGid, "root".toList, [rootUid]⟩],
      rootContext, procs⟩ := by
    constructor <;> simp [maxUsers, maxGroups, maxMembers]
  have written := @TablesSound.writeContext _ caller rootContext named
  refine written.of_tables ?_ ?_ ?_
  all_goals
    unfold permissionWriteContext
    dsimp only
    split <;> rfl

theorem stepsAllowed_iff_of_sound (sound : TablesSound s) (issues : List Issue) :
    StepsAllowed permStep unusedAccount s issues ↔ StepsAllowed permStep Safe s issues := by
  induction issues generalizing s with
  | nil => exact Iff.rfl
  | cons issue rest ih => exact and_congr (safe_iff sound).symm (ih sound.step)

/-- Every call of a run is safe exactly when no account is deleted that a process runs as. -/
theorem accounts_never_raise_privilege (procs : List Process) (caller : Caller)
    (issues : List Issue) : StepsAllowed permStep unusedAccount (boot procs caller) issues ↔
      StepsAllowed permStep Safe (boot procs caller) issues :=
  stepsAllowed_iff_of_sound (boot_sound procs) issues

/-- A process gave up root for user 5; root deletes that user, and the process is root again. -/
theorem deleted_user_is_root :
    ¬ StepsAllowed permStep Safe (boot [⟨true, rootContext⟩, ⟨true, rootContext⟩] (some 0))
      [⟨some 0, .createUser 5 (some ['u'])⟩, ⟨some 1, .setEuid 5⟩, ⟨some 0, .deleteUser 5⟩] := by
  intro all
  have last := all.2.2.1
  obtain ⟨after, place, notRaised⟩ :=
    last.others 1 ⟨true, { rootContext with euid := 5 }⟩ (by decide) (by decide)
  cases place
  exact absurd (notRaised.1 rfl) (by decide)

end Cos.Security
