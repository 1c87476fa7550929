import Cos.Lib.Run
import Mathlib.Data.List.Nodup
import Mathlib.Algebra.Group.Nat.Defs

/-! # The signed roster of a group

`rost_apply` takes a roster that an admin of the group has signed.  Texts are C strings.
-/

namespace Cos.Messenger

open Cos.Lib

abbrev Text := List Char

def isspace (c : Char) : Bool := c = ' ' || (9 ≤ c.toNat && c.toNat ≤ 13)

def isdigit (c : Char) : Bool := '0' ≤ c && c ≤ '9'

def digitVal (c : Char) : Nat := c.toNat - '0'.toNat

/-- The digits of a number; the value is `none` once it does not fit any more. -/
def strtoulDigits : Text → Option Nat → Option Nat × Text
  | c :: rest, value =>
      if isdigit c then strtoulDigits rest ((value.map (· * 10 + digitVal c)).filter (· < 2 ^ 64)) else (value, c :: rest)
  | [], value => (value, [])

/-- `strtoul` in base ten: the value and where it ends. -/
def strtoul (text : Text) : Nat × Text :=
  let body := text.dropWhile isspace
  let neg := body.head? = some '-'
  let digits := if body.head? = some '+' ∨ neg then body.tail else body
  if digits.head?.any isdigit then
    match strtoulDigits digits (some 0) with
    | (none, rest) => (2 ^ 64 - 1, rest)
    | (some value, rest) => (if neg then (2 ^ 64 - value) % 2 ^ 64 else value, rest)
  else (0, text)

/-- `ROST_MAX` and `ROST_GROUPS`. -/
def rostMax : Nat := 128

def rostGroups : Nat := 32

structure Rost where
  gid : Text
  t : Nat
  post : Bool
  m : List (Text × Nat)
deriving DecidableEq, Repr

/-- The role of the first entry for the user, or `-1`. -/
def Rost.role (r : Rost) (uid : Text) : Int :=
  match r.m.find? (·.1 = uid) with
  | some entry => entry.2
  | none => -1

def rostFind (rosts : List Rost) (gid : Text) : Option Rost := rosts.find? (·.gid = gid)

def rostRole (rosts : List Rost) (gid uid : Text) : Int :=
  match rostFind rosts gid with
  | some r => r.role uid
  | none => -1

/-- `*r = nr` for the roster that was found. -/
def rostPut (nr : Rost) : List Rost → List Rost
  | [] => []
  | r :: rest => if r.gid = nr.gid then nr :: rest else r :: rostPut nr rest

/-- The list of a roster message, at most `room` entries of it. -/
def rostEntries : Nat → Text → Option (List (Text × Nat))
  | 0, _ => some []
  | _ + 1, [] => some []
  | room + 1, text =>
      let uid := text.takeWhile (· ≠ ':')
      match text.dropWhile (· ≠ ':') with
      | _ :: role :: rest =>
          if uid.length = 0 ∨ 12 ≤ uid.length ∨ role < '0' ∨ '2' < role then none
          else
            match rest with
            | [] => some [(uid, digitVal role)]
            | c :: more => if c = ',' then (rostEntries room more).map ((uid, digitVal role) :: ·) else none
      | _ => none

def keepsOwners (r : Rost) (signer : Text) (entries : List (Text × Nat)) : Bool :=
  r.m.all fun entry => entry.2 ≠ 2 || entry.1 = signer || entries.contains (entry.1, 2)

/-- `rost_apply`, at the time `now`. -/
def rostApply (gid signer p : Text) (now : Nat) (rosts : List Rost) : Bool × List Rost :=
  match rostFind rosts gid with
  | none => (false, rosts)
  | some r =>
      if rostRole rosts gid signer < 1 then (false, rosts)
      else
        match strtoul p with
        | (t, '|' :: list) =>
            if t ≤ r.t ∨ (now + 86400) % 2 ^ 64 < t then (false, rosts)
            else
              match rostEntries rostMax list with
              | none => (false, rosts)
              | some entries =>
                  if entries = [] ∨ keepsOwners r signer entries = false then (false, rosts)
                  else (true, rostPut ⟨gid, t % 2 ^ 32, false, entries⟩ rosts)
        | _ => (false, rosts)

structure RostMsg where
  gid : Text
  signer : Text
  p : Text
  now : Nat

def rostStep (rosts : List Rost) (msg : RostMsg) : List Rost :=
  (rostApply msg.gid msg.signer msg.p msg.now rosts).2

/-- The message passes every check of `rost_apply`. -/
structure Passes (rosts : List Rost) (msg : RostMsg) (r : Rost) (t : Nat)
    (entries : List (Text × Nat)) : Prop where
  found : rostFind rosts msg.gid = some r
  admin : 1 ≤ r.role msg.signer
  text : ∃ list, strtoul msg.p = (t, '|' :: list) ∧ rostEntries rostMax list = some entries
  newer : r.t < t
  past : t ≤ (msg.now + 86400) % 2 ^ 64
  nonempty : entries ≠ []
  keeps : keepsOwners r msg.signer entries = true

section

variable {rosts : List Rost} {msg : RostMsg} {r nr : Rost} {t : Nat} {entries : List (Text × Nat)}
  {uid gid : Text} {role : Nat} {msgs : List RostMsg}

theorem rostRole_of_find (found : rostFind rosts gid = some r) :
    rostRole rosts gid uid = r.role uid := by
  rw [rostRole, found]

theorem rostFind_put (found : rostFind rosts nr.gid = some r) :
    rostFind (rostPut nr rosts) nr.gid = some nr := by
  induction rosts with
  | nil => cases found
  | cons first rest ih =>
      rw [rostPut]
      by_cases isFirst : first.gid = nr.gid
      · rw [if_pos isFirst]
        exact List.find?_cons_of_pos (by simp)
      · rw [if_neg isFirst]
        rw [rostFind, List.find?_cons_of_neg (by simpa using isFirst)] at found ⊢
        exact ih found

theorem rostApply_cases (rosts : List Rost) (msg : RostMsg) :
    rostApply msg.gid msg.signer msg.p msg.now rosts = (false, rosts) ∧ (∀ r t entries,
      ¬ Passes rosts msg r t entries) ∨ ∃ r t entries, Passes rosts msg r t entries ∧
        rostApply msg.gid msg.signer msg.p msg.now rosts = (true, rostPut ⟨msg.gid, t % 2 ^ 32, false, entries⟩ rosts) := by
  rw [rostApply]
  split
  next none =>
    exact .inl ⟨rfl, fun r t entries passes => nomatch none.symm.trans passes.found⟩
  next r found =>
    have same (other : Rost) (t : Nat) (entries : List (Text × Nat)) (passes : Passes rosts msg other t entries) :
        other = r := Option.some.inj (passes.found.symm.trans found)
    rw [rostRole_of_find found]
    split
    next low =>
      refine .inl ⟨rfl, fun other t entries passes => ?_⟩
      have admin := passes.admin
      rw [same other t entries passes] at admin
      omega
    next high =>
      split
      next t list isText =>
        split
        next old =>
          refine .inl ⟨rfl, fun other t' entries passes => ?_⟩
          obtain ⟨list', isText', -⟩ := passes.text
          have isT : t = t' := congrArg Prod.fst (isText.symm.trans isText')
          have newer := passes.newer
          have past := passes.past
          rw [same other t' entries passes, ← isT] at newer
          omega
        next fresh =>
          split
          next bad =>
            refine .inl ⟨rfl, fun other t' entries passes => ?_⟩
            obtain ⟨list', isText', isEntries⟩ := passes.text
            obtain ⟨-, rfl⟩ : t = t' ∧ list = list' := by simpa using isText.symm.trans isText'
            exact nomatch bad.symm.trans isEntries
          next entries isEntries =>
            split
            next refused =>
              refine .inl ⟨rfl, fun other t' entries' passes => ?_⟩
              obtain ⟨list', isText', isEntries'⟩ := passes.text
              obtain ⟨-, rfl⟩ : t = t' ∧ list = list' := by simpa using isText.symm.trans isText'
              have isSame : entries = entries' := Option.some.inj (isEntries.symm.trans isEntries')
              have keeps := passes.keeps
              rw [same other t' entries' passes, ← isSame] at keeps
              rcases refused with none | drops
              · exact passes.nonempty (isSame ▸ none)
              · exact nomatch drops.symm.trans keeps
            next taken =>
              rw [not_or] at taken
              exact .inr ⟨r, t, entries, ⟨found, by omega, ⟨list, isText, isEntries⟩, by omega, by omega, taken.1,
                by simpa using taken.2⟩, rfl⟩
      next other =>
        refine .inl ⟨rfl, fun _ t entries passes => ?_⟩
        obtain ⟨list, isText, -⟩ := passes.text
        exact other t list isText

theorem rostFind_put_other (different : gid ≠ nr.gid) :
    rostFind (rostPut nr rosts) gid = rostFind rosts gid := by
  induction rosts with
  | nil => rfl
  | cons first rest ih =>
      rw [rostPut]
      by_cases isFirst : first.gid = nr.gid
      · rw [if_pos isFirst, rostFind, rostFind, List.find?_cons_of_neg (by simpa using Ne.symm different),
          List.find?_cons_of_neg (by simpa [isFirst] using Ne.symm different)]
      · rw [if_neg isFirst, rostFind, rostFind, List.find?_cons, List.find?_cons]
        split
        · rfl
        · exact ih

theorem Rost.role_of_mem (distinct : (r.m.map Prod.fst).Nodup) (member : (uid, role) ∈ r.m) :
    r.role uid = role := by
  rw [Rost.role]
  split
  next entry isEntry =>
    have same : entry.1 = uid := by simpa using List.find?_some isEntry
    have isMember := List.mem_of_find?_eq_some isEntry
    have isEntry : entry = (uid, role) := List.inj_on_of_nodup_map distinct isMember member same
    rw [isEntry]
  next none =>
    have absent := List.find?_eq_none.mp none (uid, role) member
    simp at absent

theorem Rost.mem_of_role (isRole : r.role uid = role) : (uid, role) ∈ r.m := by
  rw [Rost.role] at isRole
  split at isRole
  next entry isEntry =>
    have same : entry.1 = uid := by simpa using List.find?_some isEntry
    have isMember := List.mem_of_find?_eq_some isEntry
    rw [← same, ← Int.ofNat.inj isRole]
    exact isMember
  next => omega

theorem Passes.keptOwner (passes : Passes rosts msg r t entries) (owner : r.role uid = 2)
    (other : uid ≠ msg.signer) : (uid, 2) ∈ entries := by
  have keeps := List.all_eq_true.mp passes.keeps (uid, 2) (Rost.mem_of_role owner)
  simpa [other] using keeps

structure Guarded (rosts : List Rost) (msg : RostMsg) : Prop where
  owners : ∀ gid uid, (rostRole rosts gid uid = 2 ↔ rostRole (rostStep rosts msg) gid uid = 2) ∨
    gid = msg.gid ∧ rostRole rosts gid msg.signer = 2
  times : (rostApply msg.gid msg.signer msg.p msg.now rosts).1 = true →
    ∃ r nr, rostFind rosts msg.gid = some r ∧ rostFind (rostStep rosts msg) msg.gid = some nr ∧
    r.t < nr.t
  admins : rostRole rosts msg.gid msg.signer < 1 → rostStep rosts msg = rosts
  names : (rostApply msg.gid msg.signer msg.p msg.now rosts).1 = true →
    ∃ nr, rostFind (rostStep rosts msg) msg.gid = some nr ∧ (nr.m.map Prod.fst).Nodup

/-- A message that passes names nobody twice, has a time that is still newer in 32 bits, and makes
no owner unless an owner has signed it. -/
def RostCondition (rosts : List Rost) (msg : RostMsg) : Prop :=
  ∀ r t entries, Passes rosts msg r t entries → (entries.map Prod.fst).Nodup ∧ r.t < t % 2 ^ 32 ∧
    (r.role msg.signer = 2 ∨ ∀ uid, (uid, 2) ∈ entries → r.role uid = 2)

theorem guarded_unchanged (same :
    rostApply msg.gid msg.signer msg.p msg.now rosts = (false, rosts)) : Guarded rosts msg := by
  have step : rostStep rosts msg = rosts := congrArg Prod.snd same
  constructor
  · intro gid uid
    rw [step]
    exact .inl Iff.rfl
  · rw [same]
    exact nofun
  · exact fun _ => step
  · rw [same]
    exact nofun

section

variable (passes : Passes rosts msg r t entries)
  (taken : rostApply msg.gid msg.signer msg.p msg.now rosts =
  (true, rostPut ⟨msg.gid, t % 2 ^ 32, false, entries⟩ rosts))

include passes taken

theorem Passes.foundAfter :
    rostFind (rostStep rosts msg) msg.gid = some ⟨msg.gid, t % 2 ^ 32, false, entries⟩ := by
  have step : rostStep rosts msg = rostPut ⟨msg.gid, t % 2 ^ 32, false, entries⟩ rosts :=
    congrArg Prod.snd taken
  rw [step]
  exact @rostFind_put rosts r ⟨msg.gid, t % 2 ^ 32, false, entries⟩ passes.found

omit passes in
theorem rostStep_other (different : gid ≠ msg.gid) :
    rostRole (rostStep rosts msg) gid uid = rostRole rosts gid uid := by
  have step : rostStep rosts msg = rostPut ⟨msg.gid, t % 2 ^ 32, false, entries⟩ rosts :=
    congrArg Prod.snd taken
  rw [step, rostRole, rostRole, rostFind_put_other different]

theorem guarded_taken_iff : Guarded rosts msg ↔ (entries.map Prod.fst).Nodup ∧ r.t < t % 2 ^ 32 ∧
    (r.role msg.signer = 2 ∨ ∀ uid, (uid, 2) ∈ entries → r.role uid = 2) := by
  have after := passes.foundAfter taken
  have isTaken : (rostApply msg.gid msg.signer msg.p msg.now rosts).1 = true := by rw [taken]
  constructor
  · intro guarded
    obtain ⟨nr, isNr, distinct⟩ := guarded.names isTaken
    obtain ⟨old, nr', isOld, isNr', newer⟩ := guarded.times isTaken
    cases isNr.symm.trans after
    cases isNr'.symm.trans after
    cases isOld.symm.trans passes.found
    refine ⟨distinct, newer, ?_⟩
    by_cases owner : r.role msg.signer = 2
    · exact .inl owner
    · refine .inr fun uid member => ?_
      rcases guarded.owners msg.gid uid with same | ⟨-, isOwner⟩
      · rw [rostRole_of_find passes.found, rostRole_of_find after] at same
        exact same.mpr (Rost.role_of_mem distinct member)
      · exact absurd ((rostRole_of_find passes.found).symm.trans isOwner) owner
  · rintro ⟨distinct, newer, owners⟩
    constructor
    · intro gid uid
      by_cases isGroup : gid = msg.gid
      · subst isGroup
        rw [rostRole_of_find passes.found, rostRole_of_find after, rostRole_of_find passes.found]
        by_cases owner : r.role msg.signer = 2
        · exact .inr ⟨rfl, owner⟩
        · refine .inl ⟨fun isOwner => ?_, fun isOwner => ?_⟩
          · have other : uid ≠ msg.signer := fun isSigner => owner (isSigner ▸ isOwner)
            exact Rost.role_of_mem distinct (passes.keptOwner isOwner other)
          · exact owners.resolve_left owner uid (Rost.mem_of_role isOwner)
      · rw [rostStep_other taken isGroup]
        exact .inl Iff.rfl
    · exact fun _ => ⟨r, _, passes.found, after, newer⟩
    · intro low
      rw [rostRole_of_find passes.found] at low
      have := passes.admin
      omega
    · exact fun _ => ⟨_, after, distinct⟩

end

theorem guarded_iff (rosts : List Rost) (msg : RostMsg) :
    Guarded rosts msg ↔ RostCondition rosts msg := by
  rcases rostApply_cases rosts msg with ⟨same, never⟩ | ⟨r, t, entries, passes, taken⟩
  · exact ⟨fun _ r t entries passes => absurd passes (never r t entries), fun _ => guarded_unchanged same⟩
  · rw [guarded_taken_iff passes taken]
    constructor
    · intro holds other t' entries' passes'
      obtain rfl := Option.some.inj (passes'.found.symm.trans passes.found)
      obtain ⟨list, isText, isEntries⟩ := passes.text
      obtain ⟨list', isText', isEntries'⟩ := passes'.text
      obtain ⟨rfl, rfl⟩ : t = t' ∧ list = list' := by simpa using isText.symm.trans isText'
      obtain rfl := Option.some.inj (isEntries.symm.trans isEntries')
      exact holds
    · exact fun condition => condition r t entries passes

def takenTimes (gid : Text) : List Rost → List RostMsg → List Nat
  | _, [] => []
  | rosts, msg :: rest =>
      let later := takenTimes gid (rostStep rosts msg) rest
      if msg.gid = gid ∧ (rostApply msg.gid msg.signer msg.p msg.now rosts).1 then
        ((rostFind (rostStep rosts msg) gid).map Rost.t).toList ++ later
      else later

theorem rostFind_step (untaken :
    ¬ (msg.gid = gid ∧ (rostApply msg.gid msg.signer msg.p msg.now rosts).1 = true)) :
    rostFind (rostStep rosts msg) gid = rostFind rosts gid := by
  rcases rostApply_cases rosts msg with ⟨same, -⟩ | ⟨r, t, entries, passes, taken⟩
  · rw [rostStep, same]
  · have different : gid ≠ msg.gid := fun isGroup => untaken ⟨isGroup.symm, by rw [taken]⟩
    rw [rostStep, taken]
    exact rostFind_put_other different

theorem takenTimes_increasing (guarded : StepsAllowed rostStep Guarded rosts msgs) :
    (takenTimes gid rosts msgs).Pairwise (· < ·) ∧
      ∀ r, rostFind rosts gid = some r → ∀ t ∈ takenTimes gid rosts msgs, r.t < t := by
  induction msgs generalizing rosts with
  | nil => exact ⟨List.Pairwise.nil, fun _ _ _ member => nomatch member⟩
  | cons msg rest ih =>
      obtain ⟨later, above⟩ := ih guarded.2
      rw [takenTimes]
      split
      next taken =>
        obtain ⟨rfl, isTaken⟩ := taken
        obtain ⟨old, nr, found, after, newer⟩ := guarded.1.times isTaken
        rw [after]
        constructor
        · exact List.pairwise_cons.mpr ⟨above nr after, later⟩
        · intro r isOld t member
          cases isOld.symm.trans found
          rcases List.mem_cons.mp member with rfl | member
          · exact newer
          · exact Nat.lt_trans newer (above nr after t member)
      next untaken =>
        rw [rostFind_step untaken] at above
        exact ⟨later, above⟩

/-- Over any sequence of roster messages, what each may do and the order of the times. -/
theorem rosters_guarded (rosts : List Rost) (msgs : List RostMsg) :
    (StepsAllowed rostStep Guarded rosts msgs ∧ ∀ gid, (takenTimes gid rosts msgs).Pairwise (· < ·)) ↔
      StepsAllowed rostStep RostCondition rosts msgs := by
  have same := @stepsAllowed_congr _ _ rostStep Guarded RostCondition guarded_iff rosts msgs
  constructor
  · exact fun both => same.mp both.1
  · exact fun condition => ⟨same.mpr condition, fun gid => (takenTimes_increasing (same.mpr condition)).1⟩

end

def ownedGroup : List Rost := [⟨['g'], 1, false, [(['o'], 2), (['a'], 1)]⟩]

/-- The admin names the owner twice, demotes it that way and makes itself an owner. -/
theorem admin_takes_group :
    let msg : RostMsg := ⟨['g'], ['a'], "2|o:0,o:2,a:2".toList, 100⟩
    rostRole ownedGroup ['g'] ['a'] = 1 ∧ rostRole ownedGroup ['g'] ['o'] = 2 ∧
      rostRole (rostStep ownedGroup msg) ['g'] ['o'] = 0 ∧ rostRole (rostStep ownedGroup msg) ['g']
        ['a'] = 2 ∧ ¬ StepsAllowed rostStep Guarded ownedGroup [msg] := by
  refine ⟨by decide, by decide, by decide, by decide, fun guarded => ?_⟩
  rcases guarded.1.owners ['g'] ['o'] with same | ⟨-, isOwner⟩
  · exact absurd (same.mp (by decide)) (by decide)
  · exact absurd isOwner (by decide)

end Cos.Messenger
