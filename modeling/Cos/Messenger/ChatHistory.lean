import Mathlib

/-! # The chat history

The file of a conversation: `save_chat` writes a line for each message, and `load_chat` reads the
lines back with `sscanf`.  A character stands for a byte.
-/

namespace Cos.ChatHistory

abbrev Text := List Char

structure Contact where
  uid : Text
deriving DecidableEq, Repr

def isGroup (k : Contact) : Bool := k.uid.head? = some 'g'

def isLan (k : Contact) : Bool := k.uid = []

/-- What the file holds of a `msg_t`. -/
structure Message where
  id : Nat
  rid : Nat
  ts : Nat
  mine : Bool
  state : Nat
  flags : Nat
  pend : Nat
  sid : Text
  who : Text
  text : Text
deriving DecidableEq, Repr

def stSending : Nat := 0

def stFailed : Nat := 2

def maxMsgs : Nat := 400

def field (n : Nat) : Text := Nat.toDigits 10 n ++ ['\t']

def numbers (m : Message) : List Nat :=
  [if m.mine then 1 else 0, m.ts, m.state, m.flags ||| m.pend <<< 4, m.id, m.rid]

def recordLine (k : Contact) (m : Message) : Text :=
  if isGroup k then '3' :: '\t' ::
    ((numbers m).flatMap field ++ (m.sid ++ '\t' :: (m.who ++ '\t' :: m.text)))
  else '2' :: '\t' :: ((numbers m).flatMap field ++ m.text)

def saveChat (k : Contact) (chat : List Message) : Text :=
  chat.flatMap fun m => recordLine k m ++ ['\n']

def isSpace (c : Char) : Bool := c = ' ' ∨ c = '\t' ∨ c = '\n' ∨ c = '\x0b' ∨ c = '\x0c' ∨ c = '\r'

/-- `%d` or `%u` of `sscanf`. -/
def scanInt (s : Text) : Option (Int × Text) :=
  let s := s.dropWhile isSpace
  let negative := s.head? = some '-'
  let s := if s.head? = some '-' ∨ s.head? = some '+' then s.drop 1 else s
  let digits := s.takeWhile Char.isDigit
  if digits = [] then none
  else some (if negative then - (Nat.ofDigitChars 10 digits 0 : Int)
    else Nat.ofDigitChars 10 digits 0, s.dropWhile Char.isDigit)

/-- Numbers that are each followed by a `\\t` of the format, which any run of white space matches,
then `%n`. -/
def scanNumbers : Nat → Text → Option (List Int × Text)
  | 0, s => some ([], s)
  | count + 1, s =>
      match scanInt s with
      | none => none
      | some (v, s) => (scanNumbers count (s.dropWhile isSpace)).map fun (vs, s) => (v :: vs, s)

def flatText (s : Text) : Text := s.map fun c => if c = '\n' ∨ c = '\r' ∨ c = '\t' then ' ' else c

/-- `scopy` into `cap` bytes: no half character at the end. -/
def scopy (cap : Nat) (s : Text) : Text :=
  if s.length < cap then s
  else (((s.take cap).reverse.dropWhile fun c => c.toNat / 64 = 2).drop 1).reverse

def addMsg (chat : List Message) (m : Message) : List Message :=
  (if chat.length = maxMsgs then chat.drop 1 else chat) ++ [{ m with text := flatText m.text }]

def splitNames (names : Text) : Option (Text × Text × Text) :=
  let rest := (names.dropWhile (· ≠ '\t')).drop 1
  if '\t' ∈ names ∧ '\t' ∈ rest then
    some (names.takeWhile (· ≠ '\t'), rest.takeWhile (· ≠ '\t'), (rest.dropWhile (· ≠ '\t')).drop 1)
  else none

def word (bits : Nat) (v : Int) : Nat := (v % 2 ^ bits).toNat

def loadLine (k : Contact) (nextId : Nat) (l : Text) : Option Message × Nat :=
  match l.take 2, scanNumbers 6 (l.drop 2) with
  | ['2', '\t'], some ([mine, ts, state, fl, mid2, rid2], text) =>
      let state := if mine ≠ 0 ∧ state = stSending ∧ isLan k then (stFailed : Int) else state
      (some ⟨word 32 mid2, word 32 rid2, word 32 ts, mine ≠ 0, word 8 state,
        word 4 fl, if isLan k then 0 else word 2 (fl / 16), [], [], text⟩, nextId)
  | ['3', '\t'], some ([mine, ts, state, fl, mid2, rid2], names) =>
      ((splitNames names).map fun (sid, who, text) =>
        ⟨word 32 mid2, word 32 rid2, word 32 ts, mine ≠ 0, word 8 state,
          word 4 fl, word 2 (fl / 16), scopy 12 sid, scopy 16 who, text⟩, nextId)
  | _, _ =>
      match scanNumbers 3 l with
      | some ([mine, ts, state], text) =>
          let waits : Bool := mine ≠ 0 ∧ state = stSending
          let mid := if waits ∧ !isLan k then (nextId + 1) % 2 ^ 32 else 0
          let state := if waits ∧ isLan k then (stFailed : Int) else state
          (some ⟨mid, 0, word 32 ts, mine ≠ 0, word 8 state, 0, 0, [], [], text⟩,
            if waits ∧ !isLan k then (nextId + 1) % 2 ^ 32 else nextId)
      | _ => (none, nextId)

/-- The lines of a file; `line` is what has been read of one. -/
def fileLines (line : Text) : Text → List Text
  | [] => if line = [] then [] else [line]
  | c :: s => if c = '\n' then line :: fileLines [] s else fileLines (line ++ [c]) s

def loadStep (k : Contact) (before : List Message × Nat) (l : Text) : List Message × Nat :=
  match loadLine k before.2 l with
  | (some m, nextId) => (addMsg before.1 m, nextId)
  | (none, nextId) => (before.1, nextId)

/-- `sealed` is what the vault puts around a file. -/
def loadChat (k : Contact) (sealed nextId : Nat) (file : Text) : List Message × Nat :=
  if file.length + sealed = 0 ∨ file.length + sealed > 8 * 2 ^ 20 then ([], nextId)
  else (fileLines [] file).foldl (loadStep k) ([], nextId)

/-- A message as it is kept in memory: texts of one line without tabs, and the fields in their
bounds. -/
structure Stored (k : Contact) (m : Message) : Prop where
  flat : ∀ c ∈ m.text, c ≠ '\n' ∧ c ≠ '\r' ∧ c ≠ '\t'
  words : m.id < 2 ^ 32 ∧ m.rid < 2 ^ 32 ∧ m.ts < 2 ^ 32
  bytes : m.state < 2 ^ 8 ∧ m.flags < 16 ∧ m.pend < 4
  names : m.sid.length < 12 ∧ m.who.length < 16
  sender : isGroup k = false → m.sid = [] ∧ m.who = []

/-- An unsent message to a contact of the local network has failed, and its edit is not sent
again. -/
def reloaded (k : Contact) (m : Message) : Message :=
  if isLan k then { m with state := if m.mine ∧ m.state = stSending then stFailed else m.state, pend := 0 } else m

def keeps (k : Contact) (m : Message) : Prop :=
  if isGroup k then
    (∃ c, m.sid.head? = some c ∧ isSpace c = false) ∧ ∀ c ∈ m.sid ++ m.who, c ≠ '\n' ∧ c ≠ '\t'
  else ∀ c, m.text.head? = some c → isSpace c = false

variable {k : Contact} {m : Message} {chat : List Message} {n nextId sealed : Nat}
  {s rest line : Text}

theorem field_digit (n : Nat) : ∃ c tail, field n = c :: tail ∧ c.isDigit = true := by
  obtain ⟨c, tail, isDigits⟩ := List.exists_cons_of_ne_nil (Nat.toDigits_ne_nil (n := n) (b := 10))
  have digit := Nat.isDigit_of_mem_toDigits (b := 10) (n := n) (c := c) (by decide) (by decide)
    (by simp [isDigits])
  exact ⟨c, tail ++ ['\t'], by simp [field, isDigits], digit⟩

theorem digit_plain {c : Char} (digit : c.isDigit = true) :
    isSpace c = false ∧ c ≠ '-' ∧ c ≠ '+' ∧ c ≠ '\n' := by
  refine ⟨?_, ?_, ?_, ?_⟩
  · by_contra space
    simp only [isSpace, Bool.not_eq_false, decide_eq_true_eq] at space
    rcases space with rfl | rfl | rfl | rfl | rfl | rfl <;> cases digit
  all_goals rintro rfl; cases digit

theorem dropWhile_field : (field n ++ rest).dropWhile isSpace = field n ++ rest := by
  obtain ⟨c, tail, isField, digit⟩ := field_digit n
  rw [isField, List.cons_append, List.dropWhile_cons_of_neg (by simp [digit_plain digit])]

theorem scanInt_field : scanInt (field n ++ rest) = some ((n : Int), '\t' :: rest) := by
  obtain ⟨c, tail, isField, digit⟩ := field_digit n
  obtain ⟨-, minus, plus, -⟩ := digit_plain digit
  have digits : ∀ c ∈ Nat.toDigits 10 n, c.isDigit = true :=
    fun c member => Nat.isDigit_of_mem_toDigits (by decide) (by decide) member
  have head : (field n ++ rest).head? = some c := by rw [isField]; rfl
  have tab : ('\t' :: rest).takeWhile Char.isDigit = [] := rfl
  have split_ : field n ++ rest = Nat.toDigits 10 n ++ '\t' :: rest := by simp [field]
  simp only [scanInt, dropWhile_field, head, Option.some.injEq, minus, plus, or_self, if_false]
  rw [split_, List.takeWhile_append_of_pos digits, List.dropWhile_append_of_pos digits, tab]
  simp [Nat.toDigits_ne_nil, Nat.ofDigitChars_ten_toDigits,
    show ('\t' :: rest).dropWhile Char.isDigit = '\t' :: rest from rfl]

theorem scanNumbers_fields (ns : List Nat) :
    scanNumbers ns.length ((ns.flatMap field ++ rest).dropWhile isSpace) =
      some (ns.map Int.ofNat, rest.dropWhile isSpace) := by
  induction ns with
  | nil => rfl
  | cons n ns ih =>
      have skip (s : Text) : ('\t' :: s).dropWhile isSpace = s.dropWhile isSpace := rfl
      simp [scanNumbers, List.append_assoc, dropWhile_field, scanInt_field, skip, ih]

theorem scanNumbers_record :
    scanNumbers 6 ((numbers m).flatMap field ++ rest) =
    some ((numbers m).map Int.ofNat, rest.dropWhile isSpace) := by
  have scans := @scanNumbers_fields rest (numbers m)
  have first : (numbers m).flatMap field ++ rest = field (if m.mine then 1 else 0) ++
    ((numbers m).tail.flatMap field ++ rest) := by
    simp [numbers]
  rwa [first, dropWhile_field, ← first] at scans

theorem flags_split (few : m.flags < 16) :
    (m.flags ||| m.pend <<< 4) % 16 = m.flags ∧ (m.flags ||| m.pend <<< 4) / 16 = m.pend := by
  have whole : m.flags ||| m.pend <<< 4 = m.pend * 2 ^ 4 + m.flags := by
    rw [Nat.or_comm, Nat.shiftLeft_eq, Nat.mul_comm]
    exact (Nat.two_pow_add_eq_or_of_lt few m.pend).symm
  rw [whole]
  omega

theorem word_small {bits : Nat} (small : n < 2 ^ bits) : word bits n = n := by
  have cast : ((n : Int) % 2 ^ bits) = ((n % 2 ^ bits : Nat) : Int) := by simp
  rw [word, cast, Int.toNat_natCast, Nat.mod_eq_of_lt small]

theorem fields_back (stored : Stored k m) :
    word 32 m.id = m.id ∧ word 32 m.rid = m.rid ∧ word 32 m.ts = m.ts ∧ word 8 m.state = m.state ∧
    word 4 ((m.flags ||| m.pend <<< 4 : Nat) : Int) = m.flags ∧
    word 2 (((m.flags ||| m.pend <<< 4 : Nat) : Int) / 16) = m.pend := by
  obtain ⟨⟨idWord, ridWord, tsWord⟩, ⟨stateByte, few, pends⟩⟩ := And.intro stored.words stored.bytes
  obtain ⟨low, high⟩ := flags_split (m := m) few
  refine ⟨word_small idWord, word_small ridWord, word_small tsWord, word_small stateByte, ?_,
    ?_⟩ <;> unfold word <;> omega

theorem loadLine_friend (stored : Stored k m) (friend : isGroup k = false) :
    loadLine k nextId (recordLine k m) =
    (some { reloaded k m with text := m.text.dropWhile isSpace }, nextId) := by
  obtain ⟨id, rid, ts, state, flags, pend⟩ := fields_back stored
  obtain ⟨noSid, noWho⟩ := stored.sender friend
  have failed : word 8 stFailed = stFailed := rfl
  simp only [loadLine, recordLine, friend, Bool.false_eq_true, if_false, List.take_succ_cons,
    List.take_zero, List.drop_succ_cons, List.drop_zero, scanNumbers_record]
  by_cases unsent : m.mine = true ∧ m.state = stSending
  · cases lan : isLan k <;> cases m <;> simp_all [numbers, reloaded]
  · have sent : m.mine = true → ¬ (m.state : Int) = stSending := by
      exact fun isMine same => unsent ⟨isMine, by exact_mod_cast same⟩
    cases lan : isLan k <;> cases isMine : m.mine <;> cases m <;> simp_all [numbers, reloaded]

theorem loadLine_group (stored : Stored k m) (group : isGroup k = true) :
    loadLine k nextId (recordLine k m) =
      ((splitNames ((m.sid ++ '\t' :: (m.who ++ '\t' :: m.text)).dropWhile isSpace)).map fun (sid, who, text) =>
        { m with sid := scopy 12 sid, who := scopy 16 who, text := text }, nextId) := by
  obtain ⟨id, rid, ts, state, flags, pend⟩ := fields_back stored
  simp only [loadLine, recordLine, group, if_true, List.take_succ_cons, List.take_zero,
    List.drop_succ_cons, List.drop_zero, scanNumbers_record]
  cases isMine : m.mine <;> simp_all [numbers]

theorem splitNames_parts {a b : Text} (first : '\t' ∉ a) (second : '\t' ∉ b) :
    splitNames (a ++ '\t' :: (b ++ '\t' :: rest)) = some (a, b, rest) := by
  have tab (s : Text) :
    ('\t' :: s).takeWhile (· ≠ '\t') = [] ∧ ('\t' :: s).dropWhile (· ≠ '\t') = '\t' :: s :=
    ⟨rfl, rfl⟩
  have before : ∀ c ∈ a, decide (c ≠ '\t') = true := by grind
  have between : ∀ c ∈ b, decide (c ≠ '\t') = true := by grind
  rw [splitNames, List.takeWhile_append_of_pos before, List.dropWhile_append_of_pos before,
    (tab _).1, (tab _).2, List.drop_succ_cons, List.drop_zero, List.takeWhile_append_of_pos between,
    List.dropWhile_append_of_pos between, (tab _).1, (tab _).2]
  simp

theorem splitNames_tabs (some_ : splitNames s ≠ none) : 2 ≤ s.count '\t' := by
  by_cases tabs : '\t' ∈ s ∧ '\t' ∈ (s.dropWhile (· ≠ '\t')).drop 1
  · obtain ⟨first, after, rfl, none_⟩ := List.eq_append_cons_of_mem tabs.1
    have dropped : ((first ++ '\t' :: after).dropWhile (· ≠ '\t')).drop 1 = after := by
      rw [List.dropWhile_append_of_pos (by grind)]
      rfl
    have more := List.count_pos_iff.mpr (dropped ▸ tabs.2)
    rw [List.count_append, List.count_cons_self]
    omega
  · exact absurd (if_neg tabs) some_

theorem scopy_short {cap : Nat} (short : s.length < cap) : scopy cap s = s := if_pos short

theorem flatText_flat (flat : ∀ c ∈ s, c ≠ '\n' ∧ c ≠ '\r' ∧ c ≠ '\t') : flatText s = s := by
  refine (List.map_congr_left fun c member => ?_).trans (List.map_id s)
  obtain ⟨line, back, tab⟩ := flat c member
  exact if_neg (by simp [line, back, tab])

def reread (k : Contact) (m : Message) : Option Message :=
  (loadLine k 0 (recordLine k m)).1.map fun m => { m with text := flatText m.text }

theorem loadLine_record (stored : Stored k m) :
    loadLine k nextId (recordLine k m) = ((loadLine k 0 (recordLine k m)).1, nextId) := by
  cases group : isGroup k with
  | false => rw [loadLine_friend stored group, loadLine_friend stored group]
  | true => rw [loadLine_group stored group, loadLine_group stored group]

theorem isLan_group (group : isGroup k = true) : isLan k = false := by
  cases k with | mk uid => cases uid <;> simp_all [isGroup, isLan]

theorem reread_iff (stored : Stored k m) (clean : ∀ c ∈ m.sid ++ m.who, c ≠ '\n' ∧ c ≠ '\t') :
    reread k m = some (reloaded k m) ↔ keeps k m := by
  cases group : isGroup k with
  | false =>
      have tail : flatText (m.text.dropWhile isSpace) = m.text.dropWhile isSpace :=
        flatText_flat fun c member => stored.flat c (List.dropWhile_sublist _ |>.mem member)
      have same : (reloaded k m).text = m.text := by unfold reloaded; split <;> rfl
      rw [reread, loadLine_friend stored group, Option.map_some, tail]
      simp only [keeps, group, Bool.false_eq_true, if_false, Option.some.injEq]
      constructor
      · intro back c head
        have text : m.text.dropWhile isSpace = m.text := (congrArg Message.text back).trans same
        by_contra space
        obtain ⟨rest, isText⟩ := List.head?_eq_some_iff.mp head
        have shorter := (List.dropWhile_suffix (l := rest) isSpace).length_le
        rw [isText, List.dropWhile_cons_of_pos (by simpa using space)] at text
        have long := congrArg List.length text
        rw [List.length_cons] at long
        omega
      · intro plain
        have text : m.text.dropWhile isSpace = m.text := by
          cases isText : m.text with
          | nil => rfl
          | cons c rest => rw [List.dropWhile_cons_of_neg (by simp [plain c (by simp [isText])])]
        rw [text, ← same]
  | true =>
      have tail : flatText m.text = m.text := flatText_flat stored.flat
      obtain ⟨shortSid, shortWho⟩ := stored.names
      have noTab : '\t' ∉ m.sid ∧ '\t' ∉ m.who := ⟨fun tab => (clean _ (by simp [tab])).2 rfl, fun tab => (clean _ (by simp [tab])).2 rfl⟩
      have lan := isLan_group group
      have one : (m.who ++ '\t' :: m.text).count '\t' = 1 := by
        have noText : '\t' ∉ m.text := fun tab => (stored.flat _ tab).2.2 rfl
        rw [List.count_append, List.count_cons_self, List.count_eq_zero.mpr noTab.2, List.count_eq_zero.mpr noText]
      rw [reread, loadLine_group stored group, List.dropWhile_append]
      simp only [keeps, group, if_true, reloaded, lan, Bool.false_eq_true, if_false, and_iff_left clean]
      split
      · -- the tabs around an empty id are one run of white space
        next blank =>
        have few : (('\t' :: (m.who ++ '\t' :: m.text)).dropWhile isSpace).count '\t' ≤ 1 := by
          have less := (List.dropWhile_sublist (l := m.who ++ '\t' :: m.text) isSpace).count_le '\t'
          rw [one] at less
          exact less
        have none_ : splitNames (('\t' :: (m.who ++ '\t' :: m.text)).dropWhile isSpace) = none := by
          by_contra some_
          have two := splitNames_tabs some_
          omega
        rw [none_]
        refine ⟨nofun, fun ⟨c, head, plain⟩ => ?_⟩
        obtain ⟨rest, isSid⟩ := List.head?_eq_some_iff.mp head
        rw [isSid, List.dropWhile_cons_of_neg (by simp [plain])] at blank
        cases blank
      · next some_ =>
        have noTabLeft : '\t' ∉ m.sid.dropWhile isSpace := fun tab => noTab.1 (List.dropWhile_sublist _ |>.mem tab)
        have shortLeft : (m.sid.dropWhile isSpace).length < 12 := by
          have less := (List.dropWhile_sublist (l := m.sid) isSpace).length_le
          omega
        rw [splitNames_parts noTabLeft noTab.2]
        simp only [Option.map_some, scopy_short shortLeft, scopy_short shortWho, tail, Option.some.injEq]
        constructor
        · intro back
          have sid : m.sid.dropWhile isSpace = m.sid := congrArg Message.sid back
          obtain ⟨c, rest, isLeft⟩ := List.exists_cons_of_ne_nil (by simpa using some_ : m.sid.dropWhile isSpace ≠ [])
          refine ⟨c, by rw [← sid, isLeft]; rfl, ?_⟩
          have stops := List.head?_dropWhile_not isSpace m.sid
          simpa [isLeft] using stops
        · rintro ⟨c, head, plain⟩
          obtain ⟨rest, isSid⟩ := List.head?_eq_some_iff.mp head
          have sid : m.sid.dropWhile isSpace = m.sid := by
            rw [isSid, List.dropWhile_cons_of_neg (by simp [plain])]
          rw [sid]

theorem fileLines_record (one : '\n' ∉ s) :
    fileLines line (s ++ '\n' :: rest) = (line ++ s) :: fileLines [] rest := by
  induction s generalizing line with
  | nil => simp [fileLines]
  | cons c s ih =>
      obtain ⟨here, later⟩ : c ≠ '\n' ∧ '\n' ∉ s := by simpa [eq_comm] using one
      rw [List.cons_append, fileLines, if_neg here, ih later, List.append_assoc]
      rfl

theorem fileLines_one (before : '\n' ∉ line) : ∀ l ∈ fileLines line s, '\n' ∉ l := by
  induction s generalizing line with
  | nil => unfold fileLines; split <;> simp [before]
  | cons c s ih =>
      rw [fileLines]
      split
      · exact List.forall_mem_cons.mpr ⟨before, ih (by simp)⟩
      · next other => exact ih (by simpa [before] using Ne.symm other)

theorem recordLine_one (stored : Stored k m) (clean : ∀ c ∈ m.sid ++ m.who, c ≠ '\n' ∧ c ≠ '\t') :
    '\n' ∉ recordLine k m := by
  have fields : '\n' ∉ (numbers m).flatMap field := by
    simp only [List.mem_flatMap, not_exists, not_and, field, List.mem_append, List.mem_singleton]
    rintro n - (digit | tab)
    · exact (digit_plain (Nat.isDigit_of_mem_toDigits (by decide) (by decide) digit)).2.2.2 rfl
    · cases tab
  have text : '\n' ∉ m.text := fun member => (stored.flat _ member).1 rfl
  have names : '\n' ∉ m.sid ∧ '\n' ∉ m.who := by
    simpa [not_or] using fun member => (clean _ (List.mem_append.mpr member)).1 rfl
  unfold recordLine
  split <;> simp [fields, text, names]

theorem fileLines_saved (stored : ∀ m ∈ chat, Stored k m)
    (clean : ∀ m ∈ chat, ∀ c ∈ m.sid ++ m.who, c ≠ '\n' ∧ c ≠ '\t') :
    fileLines [] (saveChat k chat) = chat.map (recordLine k) := by
  induction chat with
  | nil => rfl
  | cons m chat ih =>
      have one := recordLine_one (stored m (by simp)) (clean m (by simp))
      have rest := ih (fun m member => stored m (by simp [member])) (fun m member => clean m (by simp [member]))
      have split_ : saveChat k (m :: chat) = recordLine k m ++ '\n' :: saveChat k chat := by simp [saveChat]
      rw [split_, fileLines_record one, rest]
      rfl

theorem loadStep_records {before : List Message} (stored : ∀ m ∈ chat, Stored k m)
    (room : before.length + chat.length ≤ maxMsgs) :
    (chat.map (recordLine k)).foldl (loadStep k) (before, nextId) =
    (before ++ chat.filterMap (reread k), nextId) := by
  induction chat generalizing before with
  | nil => simp
  | cons m chat ih =>
      have later : ∀ m ∈ chat, Stored k m := fun m member => stored m (by simp [member])
      rw [List.length_cons] at room
      rw [List.map_cons, List.foldl_cons, loadStep, loadLine_record (stored m (by simp))]
      cases found : (loadLine k 0 (recordLine k m)).1 with
      | none =>
          have none_ : reread k m = none := by rw [reread, found]; rfl
          have fits : before.length + chat.length ≤ maxMsgs := by omega
          rw [List.filterMap_cons, none_]
          exact ih later fits
      | some back =>
          have some_ : reread k m = some { back with text := flatText back.text } := by rw [reread, found]; rfl
          have notFull : before.length ≠ maxMsgs := by omega
          rw [List.filterMap_cons, some_]
          have added : addMsg before back = before ++ [{ back with text := flatText back.text }] := by
            rw [addMsg, if_neg notFull]
          simp only [added]
          have room' : (before ++ [{ back with text := flatText back.text }]).length + chat.length ≤ maxMsgs := by
            rw [List.length_append, List.length_singleton]
            omega
          rw [ih later room', List.append_assoc]
          rfl

theorem filterMap_eq_map {α β : Type} {f : α → Option β} {g : α → β} {l : List α} :
    l.filterMap f = l.map g ↔ ∀ a ∈ l, f a = some (g a) := by
  refine ⟨fun same => ?_, fun each => ?_⟩
  · induction l with
    | nil => nofun
    | cons a l ih =>
        rw [List.filterMap_cons, List.map_cons] at same
        cases found : f a with
        | none =>
            rw [found] at same
            have long := congrArg List.length same
            have short := List.length_filterMap_le f l
            simp only [List.length_cons, List.length_map] at long
            omega
        | some b =>
            rw [found] at same
            obtain ⟨rfl, rest⟩ := List.cons.inj same
            exact List.forall_mem_cons.mpr ⟨found, ih rest⟩
  · rw [← List.filterMap_eq_map']
    exact List.filterMap_congr each

theorem scanInt_suffix {v : Int} (scans : scanInt s = some (v, rest)) : rest <:+ s := by
  simp only [scanInt, Option.ite_none_left_eq_some, Option.some.injEq, Prod.mk.injEq] at scans
  obtain ⟨-, -, rfl⟩ := scans
  refine (List.dropWhile_suffix _).trans (List.IsSuffix.trans ?_ (List.dropWhile_suffix isSpace))
  split
  · exact List.drop_suffix 1 _
  · exact List.suffix_refl _

theorem scanNumbers_suffix {count : Nat} {vs : List Int}
    (scans : scanNumbers count s = some (vs, rest)) : rest <:+ s := by
  induction count generalizing s vs with
  | zero =>
      obtain ⟨-, rfl⟩ := Prod.mk.inj (Option.some.inj scans)
      exact List.suffix_refl _
  | succ count ih =>
      rw [scanNumbers] at scans
      cases first : scanInt s with
      | none => rw [first] at scans; cases scans
      | some found =>
          rw [first] at scans
          obtain ⟨more, others, isMore⟩ := Option.map_eq_some_iff.mp scans
          obtain ⟨-, rfl⟩ := Prod.mk.inj isMore
          exact ((ih others).trans (List.dropWhile_suffix isSpace)).trans (scanInt_suffix first)

theorem scopy_subset (cap : Nat) (s : Text) : scopy cap s ⊆ s := by
  unfold scopy
  split
  · exact List.Subset.refl s
  · intro c member
    have taken : c ∈ (s.take cap).reverse :=
      (List.dropWhile_sublist _).mem (List.mem_of_mem_drop (List.mem_reverse.mp member))
    exact List.mem_of_mem_take (List.mem_reverse.mp taken)

theorem splitNames_clean {a b t : Text} (splits : splitNames s = some (a, b, t)) :
    ∀ c ∈ a ++ b, c ∈ s ∧ c ≠ '\t' := by
  simp only [splitNames] at splits
  split at splits
  · obtain ⟨rfl, rfl, rfl⟩ : _ = a ∧ _ = b ∧ _ = t := by simpa using splits
    intro c member
    rcases List.mem_append.mp member with first | second
    · exact ⟨( List.takeWhile_prefix _).subset first, by simpa using List.mem_takeWhile_imp first⟩
    · have after := List.mem_of_mem_tail (( List.takeWhile_prefix _).subset second)
      exact ⟨(List.dropWhile_sublist _).mem after, by simpa using List.mem_takeWhile_imp second⟩
  · cases splits

theorem loadLine_clean {l : Text} (one : '\n' ∉ l) (reads : (loadLine k nextId l).1 = some m) :
    ∀ c ∈ m.sid ++ m.who, c ≠ '\n' ∧ c ≠ '\t' := by
  unfold loadLine at reads
  split at reads
  · obtain rfl := Option.some.inj reads
    nofun
  · next names _ scans =>
    obtain ⟨⟨sid, who, text⟩, splits, rfl⟩ := Option.map_eq_some_iff.mp reads
    have inside := List.Subset.trans (scanNumbers_suffix scans).subset (List.drop_subset 2 l)
    intro c member
    have parts : c ∈ sid ++ who := by
      rcases List.mem_append.mp member with first | second
      · exact List.mem_append_left _ (scopy_subset 12 sid first)
      · exact List.mem_append_right _ (scopy_subset 16 who second)
    obtain ⟨found, noTab⟩ := splitNames_clean splits c parts
    exact ⟨fun isEnd => one (isEnd ▸ inside found), noTab⟩
  · split at reads
    · obtain rfl := Option.some.inj reads
      nofun
    · cases reads

theorem loadSteps_clean {lines : List Text} {before : List Message × Nat}
    (one : ∀ l ∈ lines, '\n' ∉ l)
    (clean : ∀ m ∈ before.1, ∀ c ∈ m.sid ++ m.who, c ≠ '\n' ∧ c ≠ '\t') :
    ∀ m ∈ (lines.foldl (loadStep k) before).1, ∀ c ∈ m.sid ++ m.who, c ≠ '\n' ∧ c ≠ '\t' := by
  induction lines generalizing before with
  | nil => exact clean
  | cons l lines ih =>
      obtain ⟨here, later⟩ := List.forall_mem_cons.mp one
      refine ih later ?_
      rw [loadStep]
      split
      · next back nextId reads =>
        intro m member
        rcases List.mem_append.mp member with old | new
        · refine clean m ?_
          split at old
          · exact List.mem_of_mem_drop old
          · exact old
        · obtain rfl := List.mem_singleton.mp new
          have read : (loadLine k before.2 l).1 = some back := by rw [reads]
          have clean := loadLine_clean here read
          exact clean
      · exact clean

theorem reloaded_names (k : Contact) (m : Message) :
    (reloaded k m).sid = m.sid ∧ (reloaded k m).who = m.who := by
  unfold reloaded
  split <;> exact ⟨rfl, rfl⟩

theorem keeps_clean (stored : Stored k m) (kept : keeps k m) :
    ∀ c ∈ m.sid ++ m.who, c ≠ '\n' ∧ c ≠ '\t' := by
  cases group : isGroup k with
  | true =>
      rw [keeps, if_pos group] at kept
      exact kept.2
  | false =>
      obtain ⟨noSid, noWho⟩ := stored.sender group
      rw [noSid, noWho]
      nofun

theorem loadLines_iff (stored : ∀ m ∈ chat, Stored k m) (few : chat.length ≤ maxMsgs)
    (clean : ∀ m ∈ chat, ∀ c ∈ m.sid ++ m.who, c ≠ '\n' ∧ c ≠ '\t') :
    ((fileLines [] (saveChat k chat)).foldl (loadStep k) ([], nextId)).1 = chat.map (reloaded k) ↔
    ∀ m ∈ chat, keeps k m := by
  rw [fileLines_saved stored clean, loadStep_records stored (by simpa using few), List.nil_append,
    filterMap_eq_map]
  exact forall₂_congr fun m member => reread_iff (stored m member) (clean m member)

/-- The history comes back exactly when the file is not too long and every record is read as it was
written. -/
theorem chat_round_trip_iff (stored : ∀ m ∈ chat, Stored k m) (few : chat.length ≤ maxMsgs) :
    (loadChat k sealed nextId (saveChat k chat)).1 = chat.map (reloaded k) ↔
      (chat = [] ∨ (saveChat k chat).length + sealed ≤ 8 * 2 ^ 20) ∧ ∀ m ∈ chat, keeps k m := by
  cases chat with
  | nil => simp [loadChat, saveChat, fileLines]
  | cons m chat =>
      have some_ : (saveChat k (m :: chat)).length ≠ 0 := by simp [saveChat]
      by_cases long : (saveChat k (m :: chat)).length + sealed > 8 * 2 ^ 20
      · rw [loadChat, if_pos (.inr long)]
        refine ⟨nofun, fun ⟨short, _⟩ => ?_⟩
        have fits := short.resolve_left (List.cons_ne_nil m chat)
        omega
      · have reads : ¬ ((saveChat k (m :: chat)).length + sealed = 0 ∨ (saveChat k (m :: chat)).length + sealed > 8 * 2 ^ 20) := by
          omega
        rw [loadChat, if_neg reads, and_iff_right (.inr (Nat.le_of_not_gt long))]
        constructor
        · intro back
          refine (loadLines_iff stored few fun other member => ?_).mp back
          -- what was read has clean names, so what was written has
          have found := back ▸ List.mem_map_of_mem (f := reloaded k) member
          have clean := loadSteps_clean (fileLines_one (by simp)) (by simp) _ found
          rwa [(reloaded_names k other).1, (reloaded_names k other).2] at clean
        · intro kept
          exact (loadLines_iff stored few fun other member => keeps_clean (stored other member) (kept other member)).mpr kept

/-- A friend's two messages. -/
theorem chat_round_trip_friend :
    (loadChat ⟨['a']⟩ 33 7 (saveChat ⟨['a']⟩ [⟨1, 0, 5, true, 0, 0, 0, [], [], ['h', 'i']⟩, ⟨0, 9, 6, false, 3, 4, 1, [], [], []⟩])).1 =
      [⟨1, 0, 5, true, 0, 0, 0, [], [], ['h', 'i']⟩, ⟨0, 9, 6, false, 3, 4, 1, [], [], []⟩] := by
  refine (chat_round_trip_iff ?_ (by decide)).mpr ⟨.inr (by decide), ?_⟩
  · refine List.forall_mem_cons.mpr ⟨?_, List.forall_mem_singleton.mpr ?_⟩ <;> constructor <;>
      simp [isGroup]
  · refine List.forall_mem_cons.mpr ⟨?_, List.forall_mem_singleton.mpr ?_⟩ <;>
      simp [keeps, isGroup, isSpace]

/-- What the user writes in a group has no sender's id and is gone; a text that begins with a blank
loses it. -/
theorem chat_loses_own :
    (loadChat ⟨['g', '1']⟩ 0 7 (saveChat ⟨['g', '1']⟩ [⟨1, 0, 5, true, 1, 0, 0, [], [], ['h', 'i']⟩])).1 = [] ∧
    (loadChat ⟨['a']⟩ 0 7 (saveChat ⟨['a']⟩ [⟨1, 0, 5, true, 1, 0, 0, [], [], [' ', 'h', 'i']⟩])).1 =
      [⟨1, 0, 5, true, 1, 0, 0, [], [], ['h', 'i']⟩] := by
  decide

end Cos.ChatHistory
