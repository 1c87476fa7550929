import Cos.Lib.Run
import Cos.Lib.Span

/-! # Users, groups and the ids of processes

The tables of `permission_manager.c` and the ids that processes run with.  Every call is made by a
process, or by the kernel before there is one.
-/

namespace Cos.Security

open Cos.Lib

abbrev Id := UInt32

/-- `ROOT_UID` and `ROOT_GID`. -/
def rootUid : Id := 0

def rootGid : Id := 0

def maxUsers : Nat := 256

def maxGroups : Nat := 64

/-- The places in `members` of a group, and the bytes of a name. -/
def maxMembers : Nat := 32

def nameSize : Nat := 64

structure UserInfo where
  uid : Id
  gid : Id
  username : List Char
  permissions : Nat
deriving DecidableEq

structure GroupInfo where
  gid : Id
  groupname : List Char
  members : List Id
deriving DecidableEq

/-- `process_context_t`. -/
structure Context where
  uid : Id
  gid : Id
  euid : Id
  egid : Id
  umask : Nat
deriving DecidableEq

def rootContext : Context := ⟨rootUid, rootGid, rootUid, rootGid, 0o022⟩

/-- A place of the process table; `live` when its task is neither unused nor a zombie. -/
structure Process where
  live : Bool
  ids : Context
deriving DecidableEq

structure Accounts where
  initialized : Bool
  users : List UserInfo
  groups : List GroupInfo
  current : Context
  procs : List Process
deriving DecidableEq

abbrev Caller := Option Nat

section

variable (s : Accounts) (caller : Caller)

def permissionReadContext : Context :=
  match caller.bind (s.procs[·]?) with
  | some proc => proc.ids
  | none => s.current

def permissionWriteContext (ids : Context) : Accounts :=
  match caller.bind (fun i => (s.procs[i]?).map fun proc => (i, proc)) with
  | some (i, proc) => { s with procs := s.procs.set i { proc with ids := ids } }
  | none => { s with current := ids }

def permissionIsPrivileged : Bool := (permissionReadContext s caller).euid = rootUid

def permissionGetUser (uid : Id) : Option UserInfo :=
  if s.initialized then s.users.find? (·.uid = uid) else none

def permissionGetGroup (gid : Id) : Option GroupInfo :=
  if s.initialized then s.groups.find? (·.gid = gid) else none

/-- `permission_copy_name` has room for the name and its end. -/
def nameFits (name : List Char) : Bool := name.length < nameSize

def permissionManagerInit : Accounts :=
  if s.initialized then s
  else
    let s := { s with
      users := [⟨rootUid, rootGid, "root".toList, 0o777⟩]
      groups := [⟨rootGid, "root".toList, [rootUid]⟩]
      current := rootContext }
    { permissionWriteContext s caller rootContext with initialized := true }

def permissionCreateGroup (gid : Id) (groupname : Option (List Char)) : Int × Accounts :=
  if s.initialized = false ∨ maxGroups ≤ s.groups.length then (-1, s)
  else if permissionIsPrivileged s caller = false then (-1, s)
  else
    match groupname with
    | none => (-1, s)
    | some name =>
        if s.groups.any (·.gid = gid) then (-1, s)
        else if nameFits name = false then (-1, s)
        else (0, { s with groups := s.groups ++ [⟨gid, name, []⟩] })

def Context.leaveGroup (gid : Id) (ids : Context) : Context :=
  { ids with gid := if ids.gid = gid then rootGid else ids.gid, egid := if ids.egid = gid then rootGid else ids.egid }

def permissionDeleteGroup (gid : Id) : Int × Accounts :=
  if s.initialized = false ∨ gid = rootGid then (-1, s)
  else if permissionIsPrivileged s caller = false then (-1, s)
  else
    match s.groups.findIdx? (·.gid = gid) with
    | none => (-1, s)
    | some i =>
        (0, { s with
          users := s.users.map fun user => { user with gid := if user.gid = gid then rootGid else user.gid }
          procs := s.procs.map fun proc => if proc.live then { proc with ids := proc.ids.leaveGroup gid } else proc
          current := s.current.leaveGroup gid
          groups := swapRemove s.groups i })

def setMembers (gid : Id) (members : List Id) : List GroupInfo → List GroupInfo
  | [] => []
  | group :: rest => if group.gid = gid then { group with members := members } :: rest else group :: setMembers gid members rest

def permissionAddUserToGroup (uid gid : Id) : Int × Accounts :=
  if s.initialized = false then (-1, s)
  else if permissionIsPrivileged s caller = false then (-1, s)
  else if (permissionGetUser s uid).isNone then (-1, s)
  else
    match permissionGetGroup s gid with
    | none => (-1, s)
    | some group =>
        if maxMembers ≤ group.members.length then (-1, s)
        else if uid ∈ group.members then (0, s)
        else (0, { s with groups := setMembers gid (group.members ++ [uid]) s.groups })

def permissionRemoveUserFromGroup (uid gid : Id) : Int × Accounts :=
  if s.initialized = false then (-1, s)
  else if permissionIsPrivileged s caller = false then (-1, s)
  else
    match permissionGetGroup s gid with
    | none => (-1, s)
    | some group =>
        match group.members.findIdx? (· = uid) with
        | none => (-1, s)
        | some i => (0, { s with groups := setMembers gid (swapRemove group.members i) s.groups })

def permissionCreateUser (uid : Id) (username : Option (List Char)) : Int × Accounts :=
  if s.initialized = false ∨ maxUsers ≤ s.users.length then (-1, s)
  else if permissionIsPrivileged s caller = false then (-1, s)
  else
    match username with
    | none => (-1, s)
    | some name =>
        if s.users.any (·.uid = uid) then (-1, s)
        else
          -- The private group of the new user, unless there is one or no room for it.
          let fresh := (permissionGetGroup s uid).isNone && decide (s.groups.length < maxGroups)
          match if fresh then permissionCreateGroup s caller uid (some name) else (0, s) with
          | (status, s) =>
              if status ≠ 0 then (-1, s)
              else if nameFits name = false then (-1, if fresh then (permissionDeleteGroup s caller uid).2 else s)
              else
                let users := s.users
                let s := { s with users := users ++ [⟨uid, uid, name, 0⟩] }
                match if (permissionGetGroup s uid).isSome then permissionAddUserToGroup s caller uid uid else (0, s) with
                | (status, s) =>
                    if status ≠ 0 then
                      let s := { s with users := users }
                      (-1, if fresh then (permissionDeleteGroup s caller uid).2 else s)
                    else (0, { s with users := users ++ [⟨uid, uid, name, 0o755⟩] })

def permissionRemoveUserFromAllGroups (uid : Id) (groups : List GroupInfo) : List GroupInfo :=
  groups.map fun group => { group with members := swapFilter (· ≠ uid) group.members }

def Context.leaveUser (uid : Id) (ids : Context) : Context :=
  { ids with uid := if ids.uid = uid then rootUid else ids.uid, euid := if ids.euid = uid then rootUid else ids.euid }

def permissionDeleteUser (uid : Id) : Int × Accounts :=
  if s.initialized = false ∨ uid = rootUid then (-1, s)
  else if permissionIsPrivileged s caller = false then (-1, s)
  else
    match s.users.findIdx? (·.uid = uid) with
    | none => (-1, s)
    | some i =>
        (0, { s with
          groups := permissionRemoveUserFromAllGroups uid s.groups
          procs := s.procs.map fun proc => if proc.live then { proc with ids := proc.ids.leaveUser uid } else proc
          current := s.current.leaveUser uid
          users := swapRemove s.users i })

/-- The four functions that change one id of the caller; `known` when the table has the new one. -/
def permissionSetId (known : Bool) (change : Context → Context) : Int × Accounts :=
  if s.initialized = false then (-1, s)
  else if permissionIsPrivileged s caller = false then (-1, s)
  else if known = false then (-1, s)
  else (0, permissionWriteContext s caller (change (permissionReadContext s caller)))

def permissionSetUid (uid : Id) : Int × Accounts :=
  permissionSetId s caller (permissionGetUser s uid).isSome fun ctx => { ctx with uid := uid }

def permissionSetGid (gid : Id) : Int × Accounts :=
  permissionSetId s caller (permissionGetGroup s gid).isSome fun ctx => { ctx with gid := gid }

def permissionSetEuid (euid : Id) : Int × Accounts :=
  permissionSetId s caller (permissionGetUser s euid).isSome fun ctx => { ctx with euid := euid }

def permissionSetEgid (egid : Id) : Int × Accounts :=
  permissionSetId s caller (permissionGetGroup s egid).isSome fun ctx => { ctx with egid := egid }

/-- `process_init_credentials` for a new place of the table. -/
def processInitCredentials (kernel : Bool) : Accounts :=
  let ids :=
    if kernel then rootContext
    else
      match caller.bind (s.procs[·]?) with
      | some parent => parent.ids
      | none => rootContext
  { s with procs := s.procs ++ [⟨true, ids⟩] }

end

inductive PermCall
  | createUser (uid : Id) (username : Option (List Char))
  | deleteUser (uid : Id)
  | createGroup (gid : Id) (groupname : Option (List Char))
  | deleteGroup (gid : Id)
  | addUserToGroup (uid gid : Id)
  | removeUserFromGroup (uid gid : Id)
  | setUid (uid : Id)
  | setGid (gid : Id)
  | setEuid (euid : Id)
  | setEgid (egid : Id)
  /-- A process starts or ends between the calls. -/
  | spawn (kernel : Bool)
  | exit (place : Nat)
deriving DecidableEq

structure Issue where
  caller : Caller
  call : PermCall
deriving DecidableEq

def permCall (s : Accounts) (issue : Issue) : Int × Accounts :=
  match issue.call with
  | .createUser uid username => permissionCreateUser s issue.caller uid username
  | .deleteUser uid => permissionDeleteUser s issue.caller uid
  | .createGroup gid groupname => permissionCreateGroup s issue.caller gid groupname
  | .deleteGroup gid => permissionDeleteGroup s issue.caller gid
  | .addUserToGroup uid gid => permissionAddUserToGroup s issue.caller uid gid
  | .removeUserFromGroup uid gid => permissionRemoveUserFromGroup s issue.caller uid gid
  | .setUid uid => permissionSetUid s issue.caller uid
  | .setGid gid => permissionSetGid s issue.caller gid
  | .setEuid euid => permissionSetEuid s issue.caller euid
  | .setEgid egid => permissionSetEgid s issue.caller egid
  | .spawn kernel => (0, processInitCredentials s issue.caller kernel)
  | .exit place => (0,
    { s with procs := s.procs.modify place fun proc => { proc with live := false } })

def permStep (s : Accounts) (issue : Issue) : Accounts := (permCall s issue).2

end Cos.Security
