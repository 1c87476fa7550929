import Cos.Messenger.Vault

/-! # What switching the lock does to the files

For each file of the two directories: when it is stored encrypted after the lock is switched on, and
when it can still be read after the lock is switched off.
-/

namespace Cos.Messenger

variable {gcm : Gcm} {v : Vlt} {base path : Text} {luck : FileLuck} {dirLuck : DirLuck}
  {raw data plain : Bytes} {whole encrypt : Bool} {dir : Dir} {entry : Entry} {m after : App}
  {password again : Text} {key : MasterKey}

def Marked (raw : Bytes) : Prop := raw.take 5 = encMagic

instance : Decidable (Marked raw) := inferInstanceAs (Decidable (_ = _))

def Protected (whole : Bool) (entry : Entry) : Prop :=
  entry.isDir = false ∧ (whole = true ∨ vaultFileWanted entry.name = true)

/-- The file is stored encrypted with what could be read from it before. -/
def StoredEncrypted (gcm : Gcm) (key : MasterKey) (path : Text) (before after : Bytes) : Prop :=
  Marked after ∧ ∃ plain, vread gcm ⟨true, true, key⟩ path before = some plain ∧
    vread gcm ⟨true, true, key⟩ path after = some plain

def StillReadable (gcm : Gcm) (key : MasterKey) (path : Text) (before after : Bytes) : Prop :=
  ∀ plain, vread gcm ⟨true, true, key⟩ path before = some plain →
    vread gcm ⟨false, false, fun _ => 0⟩ path after = some plain

/-- Each entry of a directory is in the other with contents in that relation. -/
def Dir.Each (dir other : Dir) (holds : Entry → Bytes → Prop) : Prop :=
  ∀ entry ∈ dir.entries, ∃ found ∈ other.entries, found.name = entry.name ∧
    holds entry found.content

/-- After switching on: every protected file is stored encrypted. -/
def AllEncrypted (gcm : Gcm) (key : MasterKey) (before after : App) : Prop :=
  (before.main.Each after.main fun entry content => Protected false entry →
    StoredEncrypted gcm key (filePath mainBase entry.name) entry.content content) ∧
  before.files.Each after.files fun entry content => Protected true entry →
    StoredEncrypted gcm key (filePath filesBase entry.name) entry.content content

/-- After switching off: every file that could be opened is still readable with the same contents,
and the header is gone only if no encrypted file is left. -/
structure NothingLost (gcm : Gcm) (key : MasterKey) (before after : App) : Prop where
  main : before.main.Each after.main fun entry content => entry.isDir = false →
    StillReadable gcm key (filePath mainBase entry.name) entry.content content
  files : before.files.Each after.files fun entry content => entry.isDir = false →
    StillReadable gcm key (filePath filesBase entry.name) entry.content content
  header : after.header = none →
    (before.main.Each after.main fun entry content => entry.isDir = false → ¬ Marked content) ∧
    before.files.Each after.files fun entry content => entry.isDir = false → ¬ Marked content

/-- The conversion comes to the point where it writes the file: the directory opens, the file is
among the first 256 candidates that are listed, it is neither empty nor larger than 9 MiB, and
looking it up, the buffer and the read succeed. -/
structure Reached (luck : DirLuck) (whole : Bool) (dir : Dir) (entry : Entry) : Prop where
  opens : luck.opens = true
  listed : entry ∈ tableOf luck whole dir
  stat : (luck.file entry.name).stat = true
  filled : entry.content.length ≠ 0
  small : entry.content.length ≤ convertMax
  alloc : (luck.file entry.name).alloc = true
  read : (luck.file entry.name).read = true

instance : Decidable (Reached dirLuck whole dir entry) :=
  decidable_of_iff (dirLuck.opens = true ∧ entry ∈ tableOf dirLuck whole dir ∧ (dirLuck.file entry.name).stat = true ∧
      entry.content.length ≠ 0 ∧ entry.content.length ≤ convertMax ∧
      (dirLuck.file entry.name).alloc = true ∧ (dirLuck.file entry.name).read = true)
    ⟨fun ⟨opens, listed, stat, filled, small, alloc, read⟩ => ⟨opens, listed, stat, filled, small, alloc, read⟩,
      fun reached => ⟨reached.opens, reached.listed, reached.stat, reached.filled, reached.small,
        reached.alloc, reached.read⟩⟩

/-- The file can be read, and it is reached and its encrypted form is written whole, or it is
encrypted and left alone. -/
def EncryptsWell (gcm : Gcm) (key : MasterKey) (base : Text) (luck : DirLuck) (whole : Bool)
    (dir : Dir) (entry : Entry) : Prop :=
  ∃ plain, vread gcm ⟨true, true, key⟩ (filePath base entry.name) entry.content = some plain ∧
    if Reached luck whole dir entry ∧ (luck.file entry.name).sealAlloc = true ∧
    (luck.file entry.name).write.isSome = true then ∃ count, (luck.file entry.name).write =
    some count ∧ plain.length + encOver ≤ count else Marked entry.content

/-- If the file can be read: it is reached, what it holds is not empty, does not look encrypted and
is written whole, or it is left alone and was not encrypted. -/
def DecryptsWell (gcm : Gcm) (key : MasterKey) (base : Text) (luck : DirLuck) (whole : Bool)
    (dir : Dir) (entry : Entry) : Prop :=
  ∀ plain, vread gcm ⟨true, true, key⟩ (filePath base entry.name) entry.content = some plain →
    if Reached luck whole dir entry ∧ plain ≠ [] ∧ (luck.file entry.name).write.isSome = true
    then ¬ Marked plain ∧ ∃ count, (luck.file entry.name).write = some count ∧ plain.length ≤ count
    else ¬ Marked entry.content

/-- The file decrypts well, and where the header can be removed it is one that can be read. -/
def EndsWell (gcm : Gcm) (key : MasterKey) (base : Text) (luck : DirLuck) (unlink whole : Bool)
    (dir : Dir) (entry : Entry) : Prop :=
  DecryptsWell gcm key base luck whole dir entry ∧
    (unlink = true → (vread gcm ⟨true, true, key⟩ (filePath base entry.name) entry.content).isSome =
    true)

theorem Marked.length (marked : Marked raw) : 5 ≤ raw.length := by
  have same := congrArg List.length marked
  rw [List.length_take] at same
  change min 5 raw.length = 5 at same
  omega

theorem vread_of_not_marked (plainText : ¬ Marked raw) : vread gcm v path raw = some raw :=
  if_pos (Or.inr plainText)

theorem vread_of_marked (marked : Marked raw) : vread gcm v path raw =
    if v.unlocked = false ∨ raw.length < encOver then none
    else gcm.gcmOpen v.key ((raw.drop 5).take 12) path ((raw.drop 17).take (raw.length - encOver))
      ((raw.drop (17 + (raw.length - encOver))).take 16) := by
  unfold vread
  rw [if_neg]
  rintro (short | other)
  · exact absurd marked.length (Nat.not_le_of_lt short)
  · exact other marked

theorem vread_locked_iff {key : MasterKey} :
    vread gcm ⟨false, false, key⟩ path raw = some plain ↔ ¬ Marked raw ∧ raw = plain := by
  by_cases marked : Marked raw
  · rw [vread_of_marked marked, if_pos (Or.inl rfl)]
    exact ⟨fun wrong => (Option.some_ne_none plain wrong.symm).elim, fun wrong => absurd marked wrong.1⟩
  · rw [vread_of_not_marked marked]
    exact ⟨fun same => ⟨marked, Option.some.inj same⟩, fun same => congrArg some same.2⟩

theorem vread_length (lawful : gcm.Lawful) (marked : Marked raw)
    (opened : vread gcm v path raw = some plain) : plain.length + encOver = raw.length := by
  rw [vread_of_marked marked] at opened
  split at opened
  · cases opened
  · next enough =>
    have same := lawful.opened_length _ _ _ _ _ _ opened
    rw [List.length_take, List.length_drop] at same
    unfold encOver at *
    omega

theorem sealedFile_length (lawful : gcm.Lawful) :
    (sealedFile gcm v path luck data).length = data.length + encOver := by
  unfold sealedFile
  simp only [List.length_append, List.length_ofFn, lawful.sealed_length, lawful.tag_length]
  change 5 + 12 + data.length + 16 = _
  unfold encOver
  omega

theorem sealedFile_marked : Marked (sealedFile gcm v path luck data) := by
  unfold Marked sealedFile
  simp only [List.append_assoc]
  exact List.take_left' rfl

theorem vread_sealedFile (lawful : gcm.Lawful) (unlocked : v.unlocked = true) :
    vread gcm v path (sealedFile gcm v path luck data) = some data := by
  rw [vread_of_marked sealedFile_marked, sealedFile_length lawful, if_neg]
  · have slices : ∀ nonce cipher tag : Bytes, nonce.length = 12 → cipher.length = data.length →
        tag.length = 16 → ((encMagic ++ nonce ++ cipher ++ tag).drop 5).take 12 = nonce ∧
        ((encMagic ++ nonce ++ cipher ++ tag).drop 17).take (data.length + encOver - encOver) = cipher ∧
        ((encMagic ++ nonce ++ cipher ++ tag).drop (17 + (data.length + encOver - encOver))).take 16 = tag := by
      intro nonce cipher tag isNonce isCipher isTag
      have head : (encMagic ++ nonce).length = 17 := by
        rw [List.length_append, isNonce]
        rfl
      refine ⟨?_, ?_, ?_⟩
      · rw [List.append_assoc, List.append_assoc, List.drop_left' (show encMagic.length = 5 from rfl)]
        exact List.take_left' isNonce
      · rw [List.append_assoc, List.drop_left' head, Nat.add_sub_cancel, ← isCipher]
        exact List.take_left' rfl
      · rw [Nat.add_sub_cancel, List.drop_left' (by rw [List.length_append, head, isCipher]), ← isTag]
        exact List.take_length
    obtain ⟨isNonce, isCipher, isTag⟩ := slices (List.ofFn luck.nonce) (gcm.gcmSeal v.key (List.ofFn luck.nonce) path data).1
      (gcm.gcmSeal v.key (List.ofFn luck.nonce) path data).2 (List.length_ofFn)
      (lawful.sealed_length _ _ _ _) (lawful.tag_length _ _ _ _)
    unfold sealedFile
    rw [isNonce, isCipher, isTag]
    exact lawful.open_seal _ _ _ _
  · rw [unlocked]
    rintro (wrong | wrong)
    · cases wrong
    · omega

theorem convertFile_eq (some : raw.length ≠ 0) (small : raw.length ≤ convertMax)
    (stat : luck.stat = true) (alloc : luck.alloc = true) (read : luck.read = true)
    (opened : vread gcm v path raw = Option.some data) : convertFile gcm v luck encrypt path raw =
      if encrypt then vwrite gcm { v with present := true } path luck raw data else cosWriteFile luck raw data := by
  unfold convertFile
  rw [if_neg, if_neg, if_neg, opened]
  · rw [read]
    simp
  · rw [alloc]
    simp
  · rw [stat, not_or, not_or]
    exact ⟨by simp, some, Nat.not_lt.mpr small⟩

theorem convertFile_skip
    (skips : ¬ (luck.stat = true ∧ raw.length ≠ 0 ∧ raw.length ≤ convertMax ∧ luck.alloc = true ∧ luck.read = true)) :
    convertFile gcm v luck encrypt path raw = raw := by
  unfold convertFile
  split
  · rfl
  · next passes =>
    split
    · rfl
    · next alloc =>
      split
      · rfl
      · next read =>
        rw [not_or, not_or] at passes
        obtain ⟨stat, some, small⟩ := passes
        exact absurd ⟨(Bool.not_eq_false _).mp stat, some, Nat.not_lt.mp small,
          (Bool.not_eq_false _).mp alloc, (Bool.not_eq_false _).mp read⟩ skips

theorem convertFile_unread (unread : vread gcm v path raw = none) :
    convertFile gcm v luck encrypt path raw = raw := by
  unfold convertFile
  rw [unread]
  split
  · rfl
  · split
    · rfl
    · split <;> rfl

theorem cosWriteFile_closed (closed : luck.write = none) : cosWriteFile luck raw data = raw := by
  unfold cosWriteFile
  rw [closed]
  split <;> rfl

theorem cosWriteFile_open {count : Nat} (opens : luck.write = some count) (some : data ≠ []) :
    cosWriteFile luck raw data = data.take count := by
  unfold cosWriteFile
  rw [if_neg some, opens]

theorem storedEncrypted_written {count : Nat} (lawful : gcm.Lawful)
    (opened : vread gcm ⟨true, true, key⟩ path raw = some plain) (opens : luck.write = some count)
    (memory : luck.sealAlloc = true) :
    StoredEncrypted gcm key path raw (vwrite gcm ⟨true, true, key⟩ path luck raw plain) ↔
      plain.length + encOver ≤ count := by
  have long : (sealedFile gcm ⟨true, true, key⟩ path luck plain).length = plain.length + encOver :=
    sealedFile_length lawful
  have written : vwrite gcm ⟨true, true, key⟩ path luck raw plain =
      (sealedFile gcm ⟨true, true, key⟩ path luck plain).take count := by
    unfold vwrite
    rw [if_neg (by simp), if_neg (by simp), if_neg (by rw [memory]; simp), cosWriteFile_open opens]
    intro empty
    rw [empty, List.length_nil] at long
    unfold encOver at long
    omega
  rw [written]
  constructor
  · rintro ⟨marked, same, before, stored⟩
    have isPlain : plain = same := Option.some.inj (opened.symm.trans before)
    have length := vread_length lawful marked stored
    rw [List.length_take, long, ← isPlain] at length
    omega
  · intro all
    rw [List.take_of_length_le (long ▸ all)]
    exact ⟨sealedFile_marked, plain, opened, vread_sealedFile lawful rfl⟩

theorem storedEncrypted_same (opened : vread gcm ⟨true, true, key⟩ path raw = some plain) :
    StoredEncrypted gcm key path raw raw ↔ Marked raw :=
  ⟨fun stored => stored.1, fun marked => ⟨marked, plain, opened, opened⟩⟩

theorem stillReadable_written {count : Nat}
    (opened : vread gcm ⟨true, true, key⟩ path raw = some plain) (opens : luck.write = some count)
    (some : plain ≠ []) : StillReadable gcm key path raw (cosWriteFile luck raw plain) ↔
    ¬ Marked plain ∧ plain.length ≤ count := by
  rw [cosWriteFile_open opens some]
  constructor
  · intro readable
    obtain ⟨plainText, same⟩ := vread_locked_iff.mp (readable plain opened)
    have all : plain.length ≤ count := by
      have length := congrArg List.length same
      rw [List.length_take] at length
      omega
    rw [List.take_of_length_le all] at plainText
    exact ⟨plainText, all⟩
  · rintro ⟨plainText, all⟩ other before
    rw [List.take_of_length_le all, Option.some.inj (before.symm.trans opened)]
    exact vread_of_not_marked plainText

theorem stillReadable_same (opened : vread gcm ⟨true, true, key⟩ path raw = some plain) :
    StillReadable gcm key path raw raw ↔ ¬ Marked raw := by
  constructor
  · intro readable
    exact (vread_locked_iff.mp (readable plain opened)).1
  · intro plainText other before
    rw [vread_of_not_marked plainText] at before ⊢
    exact before

theorem tableOf_sublist : (tableOf dirLuck whole dir).Sublist dir.entries :=
  (List.take_sublist _ _).trans (List.filter_sublist.trans (List.take_sublist _ _))

theorem listed_iff (member : entry ∈ dir.entries) :
    entry.name ∈ (tableOf dirLuck whole dir).map Entry.name ↔
    entry ∈ tableOf dirLuck whole dir := by
  constructor
  · intro named
    obtain ⟨other, listed, same⟩ := List.mem_map.mp named
    have isEntry : other = entry := List.inj_on_of_nodup_map dir.unique (tableOf_sublist.subset listed) member same
    exact isEntry ▸ listed
  · intro listed
    exact List.mem_map_of_mem listed

theorem convertNames_eq (names : List Text) (nodup : names.Nodup) (entries : List Entry) :
    convertNames gcm v base dirLuck encrypt names entries =
      entries.map fun entry => if entry.name ∈ names then { entry with
        content := convertFile gcm v (dirLuck.file entry.name) encrypt (filePath base entry.name) entry.content }
        else entry := by
  induction names generalizing entries with
  | nil =>
    unfold convertNames
    simp
  | cons name rest ih =>
    obtain ⟨fresh, nodup⟩ := List.nodup_cons.mp nodup
    rw [convertNames, ih nodup, rewrite, List.map_map]
    refine List.map_congr_left fun entry _ => ?_
    by_cases same : entry.name = name
    · simp only [Function.comp, same, if_true, fresh, if_false, List.mem_cons_self]
    · simp only [Function.comp, same, if_false, List.mem_cons, false_or]

def converted (gcm : Gcm) (v : Vlt) (base : Text) (luck : DirLuck) (whole encrypt : Bool)
    (dir : Dir) (entry : Entry) : Bytes :=
  if luck.opens = true ∧ entry ∈ tableOf luck whole dir then
    convertFile gcm v (luck.file entry.name) encrypt (filePath base entry.name) entry.content
  else entry.content

theorem vaultConvertDir_entries : (vaultConvertDir gcm v base dirLuck whole encrypt dir).entries =
    dir.entries.map fun entry =>
    { entry with content := converted gcm v base dirLuck whole encrypt dir entry } := by
  unfold vaultConvertDir
  split
  · next closed =>
    unfold converted
    rw [closed]
    simp
  · next opens =>
    dsimp only
    rw [convertNames_eq _ ((tableOf_sublist.map Entry.name).nodup dir.unique)]
    refine List.map_congr_left fun entry member => ?_
    unfold converted
    rw [(Bool.not_eq_false _).mp opens]
    by_cases listed : entry ∈ tableOf dirLuck whole dir
    · rw [if_pos ((listed_iff member).mpr listed), if_pos ⟨rfl, listed⟩]
    · rw [if_neg (mt (listed_iff member).mp listed), if_neg fun both => listed both.2]

theorem each_iff {holds : Entry → Bytes → Prop} :
    dir.Each (vaultConvertDir gcm v base dirLuck whole encrypt dir) holds ↔
      ∀ entry ∈ dir.entries, holds entry (converted gcm v base dirLuck whole encrypt dir entry) := by
  refine forall_congr' fun entry => forall_congr' fun member => ?_
  rw [vaultConvertDir_entries]
  constructor
  · rintro ⟨found, inOther, same, holds⟩
    obtain ⟨other, inDir, rfl⟩ := List.mem_map.mp inOther
    have isEntry : other = entry := List.inj_on_of_nodup_map dir.unique inDir member same
    rwa [isEntry] at holds
  · intro holds
    exact ⟨_, List.mem_map_of_mem member, rfl, holds⟩

theorem converted_skip (skips : ¬ Reached dirLuck whole dir entry) :
    converted gcm v base dirLuck whole encrypt dir entry = entry.content := by
  unfold converted
  split
  · next listed =>
    refine convertFile_skip fun ⟨stat, filled, small, alloc, read⟩ => skips ?_
    exact ⟨listed.1, listed.2, stat, filled, small, alloc, read⟩
  · rfl

theorem converted_reached (reached : Reached dirLuck whole dir entry)
    (opened : vread gcm v (filePath base entry.name) entry.content = some plain) :
    converted gcm v base dirLuck whole encrypt dir entry =
      if encrypt then vwrite gcm { v with present := true } (filePath base entry.name) (dirLuck.file entry.name) entry.content plain
      else cosWriteFile (dirLuck.file entry.name) entry.content plain := by
  unfold converted
  rw [if_pos ⟨reached.opens, reached.listed⟩]
  exact convertFile_eq reached.filled reached.small reached.stat reached.alloc reached.read opened

theorem converted_unread (unread : vread gcm v (filePath base entry.name) entry.content = none) :
    converted gcm v base dirLuck whole encrypt dir entry = entry.content := by
  unfold converted
  split
  · exact convertFile_unread unread
  · rfl

theorem storedEncrypted_iff (lawful : gcm.Lawful) :
    StoredEncrypted gcm key (filePath base entry.name) entry.content
      (converted gcm ⟨true, true, key⟩ base dirLuck whole true dir entry) ↔
    EncryptsWell gcm key base dirLuck whole dir entry := by
  cases opened : vread gcm ⟨true, true, key⟩ (filePath base entry.name) entry.content with
  | none =>
    constructor
    · rintro ⟨-, plain, before, -⟩
      rw [opened] at before
      cases before
    · rintro ⟨plain, before, -⟩
      rw [opened] at before
      cases before
  | some plain =>
    have only : EncryptsWell gcm key base dirLuck whole dir entry ↔
        if Reached dirLuck whole dir entry ∧ (dirLuck.file entry.name).sealAlloc = true ∧
          (dirLuck.file entry.name).write.isSome = true
        then ∃ count, (dirLuck.file entry.name).write = some count ∧ plain.length + encOver ≤ count
        else Marked entry.content := by
      constructor
      · rintro ⟨other, before, well⟩
        rw [opened] at before
        rwa [← Option.some.inj before] at well
      · intro well
        exact ⟨plain, opened, well⟩
    rw [only]
    by_cases reached : Reached dirLuck whole dir entry
    · rw [converted_reached reached opened, if_pos rfl]
      by_cases memory : (dirLuck.file entry.name).sealAlloc = true
      · cases opens : (dirLuck.file entry.name).write with
        | none =>
          rw [if_neg (by simp), vwrite, if_neg (by simp), if_neg (by simp),
            if_neg (by rw [memory]; simp), cosWriteFile_closed opens]
          exact storedEncrypted_same opened
        | some count =>
          rw [if_pos ⟨reached, memory, rfl⟩, storedEncrypted_written lawful opened opens memory]
          exact ⟨fun all => ⟨count, rfl, all⟩, fun ⟨_, same, all⟩ => Option.some.inj same ▸ all⟩
      · rw [if_neg fun all => memory all.2.1, vwrite, if_neg (by simp), if_neg (by simp),
          if_pos (Bool.eq_false_iff.mpr memory)]
        exact storedEncrypted_same opened
    · rw [converted_skip reached, if_neg fun all => reached all.1]
      exact storedEncrypted_same opened

theorem stillReadable_iff : StillReadable gcm key (filePath base entry.name) entry.content
      (converted gcm ⟨true, true, key⟩ base dirLuck whole false dir entry) ↔
    DecryptsWell gcm key base dirLuck whole dir entry := by
  cases opened : vread gcm ⟨true, true, key⟩ (filePath base entry.name) entry.content with
  | none =>
    constructor
    · intro _ plain before
      rw [opened] at before
      cases before
    · intro _ plain before
      rw [opened] at before
      cases before
  | some plain =>
    have only : DecryptsWell gcm key base dirLuck whole dir entry ↔
        if Reached dirLuck whole dir entry ∧ plain ≠ [] ∧ (dirLuck.file entry.name).write.isSome = true
        then ¬ Marked plain ∧ ∃ count, (dirLuck.file entry.name).write = some count ∧
        plain.length ≤ count else ¬ Marked entry.content := by
      constructor
      · intro well
        exact well plain opened
      · intro well other before
        rw [opened] at before
        rwa [← Option.some.inj before]
    rw [only]
    by_cases reached : Reached dirLuck whole dir entry
    · rw [converted_reached reached opened, if_neg Bool.false_ne_true]
      by_cases filled : plain = []
      · rw [if_neg fun all => all.2.1 filled, cosWriteFile, if_pos filled]
        exact stillReadable_same opened
      · cases opens : (dirLuck.file entry.name).write with
        | none =>
          rw [if_neg (by simp), cosWriteFile_closed opens]
          exact stillReadable_same opened
        | some count =>
          rw [if_pos ⟨reached, filled, rfl⟩, stillReadable_written opened opens filled]
          refine and_congr_right fun _ => ?_
          exact ⟨fun all => ⟨count, rfl, all⟩, fun ⟨_, same, all⟩ => Option.some.inj same ▸ all⟩
    · rw [converted_skip reached, if_neg fun all => reached all.1]
      exact stillReadable_same opened

theorem clear_iff (readable : StillReadable gcm key (filePath base entry.name) entry.content
      (converted gcm ⟨true, true, key⟩ base dirLuck whole false dir entry)) :
    ¬ Marked (converted gcm ⟨true, true, key⟩ base dirLuck whole false dir entry) ↔
      (vread gcm ⟨true, true, key⟩ (filePath base entry.name) entry.content).isSome = true := by
  cases opened : vread gcm ⟨true, true, key⟩ (filePath base entry.name) entry.content with
  | none =>
    have marked : Marked entry.content := by
      by_contra plainText
      rw [vread_of_not_marked plainText] at opened
      cases opened
    rw [converted_unread opened]
    exact ⟨fun clear => absurd marked clear, fun some => by cases some⟩
  | some plain => exact ⟨fun _ => rfl, fun _ => (vread_locked_iff.mp (readable plain opened)).1⟩

/-- One directory, as far as `NothingLost` is about it. -/
theorem endsWell_iff {unlink : Bool} {other : Dir}
    (isOther : other = vaultConvertDir gcm ⟨true, true, key⟩ base dirLuck whole false dir) :
    ((dir.Each other fun entry content => entry.isDir = false →
        StillReadable gcm key (filePath base entry.name) entry.content content) ∧
      (unlink = true → dir.Each other fun entry content => entry.isDir = false → ¬ Marked content)) ↔
    ∀ entry ∈ dir.entries, entry.isDir = false →
    EndsWell gcm key base dirLuck unlink whole dir entry := by
  rw [isOther, each_iff, each_iff]
  constructor
  · rintro ⟨readable, clear⟩ entry member isFile
    have still := readable entry member isFile
    exact ⟨stillReadable_iff.mp still, fun unlinked => (clear_iff still).mp (clear unlinked entry member isFile)⟩
  · intro well
    refine ⟨fun entry member isFile => stillReadable_iff.mpr (well entry member isFile).1,
      fun unlinked entry member isFile => ?_⟩
    obtain ⟨decrypts, opens⟩ := well entry member isFile
    exact (clear_iff (stillReadable_iff.mpr decrypts)).mpr (opens unlinked)

theorem pwSet_cases {luck : Luck} (set : pwSet gcm luck key password again m = some after) :
    after = vaultConvertAll gcm luck true
    { m with header := some ⟨password, key⟩, vlt := ⟨true, true, key⟩ } := by
  unfold pwSet at set
  split at set
  · cases set
  · split at set
    · cases set
    · split at set
      · cases set
      · split at set
        · cases set
        · exact (Option.some.inj set).symm

theorem vaultOpen_key {luck : Luck} {header : Header} {opened : MasterKey}
    (isHeader : m.header = some header) (opens : vaultOpen luck password m = some opened) :
    opened = header.key := by
  unfold vaultOpen at opens
  rw [isHeader] at opens
  dsimp only at opens
  split at opens
  · exact (Option.some.inj opens).symm
  · cases opens

theorem pwOff_cases {luck : Luck} {header : Header} (isHeader : m.header = some header)
    (off : pwOff gcm luck password m = some after) :
    after.main = vaultConvertDir gcm ⟨m.vlt.present, true, header.key⟩ mainBase luck.main false
    false m.main ∧ after.files =
    vaultConvertDir gcm ⟨m.vlt.present, true, header.key⟩ filesBase luck.files true false m.files ∧
    (after.header = none ↔ luck.unlink = true) := by
  unfold pwOff at off
  split at off
  · cases off
  · next opened opens =>
    rw [vaultOpen_key isHeader opens] at off
    rw [← Option.some.inj off]
    refine ⟨rfl, rfl, ?_⟩
    dsimp only
    rw [isHeader]
    cases luck.unlink
    · exact ⟨(by rintro ⟨⟩), (by rintro ⟨⟩)⟩
    · exact ⟨fun _ => rfl, fun _ => rfl⟩

/-- A completed switch on stores every protected file encrypted exactly if each is encrypted well,
and a completed switch off loses nothing and leaves nothing encrypted without its key exactly if
each file ends well. -/
theorem lock_switch_ok (lawful : gcm.Lawful) :
    (∀ (luck : Luck) (key : MasterKey) (password again : Text) (m after : App),
      pwSet gcm luck key password again m = some after →
      (AllEncrypted gcm key m after ↔
        (∀ entry ∈ m.main.entries, Protected false entry →
          EncryptsWell gcm key mainBase luck.main false m.main entry) ∧
        ∀ entry ∈ m.files.entries, Protected true entry →
          EncryptsWell gcm key filesBase luck.files true m.files entry)) ∧
    ∀ (luck : Luck) (header : Header) (password : Text) (m after : App), m.header = some header →
      m.vlt = ⟨true, true, header.key⟩ → pwOff gcm luck password m = some after →
      (NothingLost gcm header.key m after ↔
        (∀ entry ∈ m.main.entries, entry.isDir = false →
          EndsWell gcm header.key mainBase luck.main luck.unlink false m.main entry) ∧
        ∀ entry ∈ m.files.entries, entry.isDir = false →
          EndsWell gcm header.key filesBase luck.files luck.unlink true m.files entry) := by
  constructor
  · intro luck key password again m after set
    rw [pwSet_cases set]
    refine and_congr (each_iff.trans ?_) (each_iff.trans ?_) <;>
    · refine forall_congr' fun entry => forall_congr' fun _ => forall_congr' fun _ => ?_
      exact storedEncrypted_iff lawful
  · intro luck header password m after isHeader isOpen off
    obtain ⟨isMain, isFiles, unlinked⟩ := pwOff_cases isHeader off
    rw [isOpen] at isMain isFiles
    rw [← endsWell_iff isMain, ← endsWell_iff isFiles]
    constructor
    · intro kept
      exact ⟨⟨kept.main, fun gone => (kept.header (unlinked.mpr gone)).1⟩,
        kept.files, fun gone => (kept.header (unlinked.mpr gone)).2⟩
    · rintro ⟨⟨main, mainClear⟩, files, filesClear⟩
      exact ⟨main, files, fun gone => ⟨mainClear (unlinked.mp gone), filesClear (unlinked.mp gone)⟩⟩

/-- A stand-in for the cipher, for files that it is not called for or that hold nothing. -/
def clearGcm : Gcm where
  gcmSeal _ _ _ data := (data, List.replicate 16 0)
  gcmOpen _ _ _ data _ := some data

theorem clearGcm_lawful : clearGcm.Lawful where
  open_seal _ _ _ _ := rfl
  sealed_length _ _ _ _ := rfl
  tag_length _ _ _ _ := List.length_replicate
  opened_length _ _ _ _ _ _ opened := congrArg List.length (Option.some.inj opened).symm

def luckyDir : DirLuck := ⟨true, 4096, fun _ => ⟨true, true, true, true, fun _ => 0, some 16777216⟩⟩

def lucky : Luck := ⟨luckyDir, luckyDir, true, true⟩

def zeroKey : MasterKey := fun _ => 0

def typedPassword : Text := "correct horse".toList

def receivedFile : Entry := ⟨List.replicate 40 'x', false, [1]⟩

def unlockedApp : App where
  header := none
  vlt := ⟨false, false, zeroKey⟩
  main := ⟨[], List.nodup_nil⟩
  files := ⟨[receivedFile], List.nodup_singleton _⟩

def emptyDrafts : Entry :=
  ⟨"drafts.txt".toList, false, encMagic ++ List.replicate 28 0⟩

def lockedApp : App where
  header := some ⟨typedPassword, zeroKey⟩
  vlt := ⟨true, true, zeroKey⟩
  main := ⟨[emptyDrafts], List.nodup_singleton _⟩
  files := ⟨[], List.nodup_nil⟩

def switchedOn : App :=
  vaultConvertAll clearGcm lucky true
    { unlockedApp with header := some ⟨typedPassword, zeroKey⟩, vlt := ⟨true, true, zeroKey⟩ }

def switchedOff : App :=
  { vaultConvertAll clearGcm lucky false lockedApp with header := none, vlt := ⟨false, false, fun _ => 0⟩ }

theorem unlockedApp_set :
    pwSet clearGcm lucky zeroKey typedPassword typedPassword unlockedApp = some switchedOn := rfl

theorem lockedApp_off : pwOff clearGcm lucky typedPassword lockedApp = some switchedOff := rfl

theorem lock_switch_ok_example :
    (AllEncrypted clearGcm zeroKey unlockedApp switchedOn ↔
      (∀ entry ∈ unlockedApp.main.entries, Protected false entry →
        EncryptsWell clearGcm zeroKey mainBase lucky.main false unlockedApp.main entry) ∧
      ∀ entry ∈ unlockedApp.files.entries, Protected true entry →
        EncryptsWell clearGcm zeroKey filesBase lucky.files true unlockedApp.files entry) ∧
    (NothingLost clearGcm zeroKey lockedApp switchedOff ↔
      (∀ entry ∈ lockedApp.main.entries, entry.isDir = false →
        EndsWell clearGcm zeroKey mainBase lucky.main lucky.unlink false lockedApp.main entry) ∧
      ∀ entry ∈ lockedApp.files.entries, entry.isDir = false →
        EndsWell clearGcm zeroKey filesBase lucky.files lucky.unlink true lockedApp.files entry) :=
  ⟨(lock_switch_ok clearGcm_lawful).1 lucky zeroKey typedPassword typedPassword unlockedApp switchedOn unlockedApp_set,
    (lock_switch_ok clearGcm_lawful).2 lucky ⟨typedPassword, zeroKey⟩ typedPassword lockedApp
      switchedOff rfl rfl lockedApp_off⟩

/-- Nothing fails, and yet the file with the long name stays in the clear when the lock is switched
on, and the empty drafts stay encrypted when it is switched off and the key is gone. -/
theorem long_name_stays_clear :
    ¬ AllEncrypted clearGcm zeroKey unlockedApp switchedOn ∧
    ¬ NothingLost clearGcm zeroKey lockedApp switchedOff := by
  have stays : switchedOn.files.entries = [receivedFile] := by decide
  have remains : switchedOff.main.entries = [emptyDrafts] := by decide
  constructor
  · rintro ⟨-, files⟩
    obtain ⟨found, member, -, stored⟩ := files receivedFile List.mem_cons_self
    obtain ⟨marked, -⟩ := stored ⟨rfl, Or.inl rfl⟩
    rw [List.mem_singleton.mp member] at marked
    revert marked
    decide
  · intro kept
    obtain ⟨found, member, -, readable⟩ := kept.main emptyDrafts List.mem_cons_self
    have opened := readable rfl [] rfl
    rw [List.mem_singleton.mp member] at opened
    cases opened

end Cos.Messenger
