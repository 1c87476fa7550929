import Cos.Messenger.Roster
import Mathlib.Data.List.Nodup

/-! # The app lock

`vault.inc`: the files that the lock protects, how one of them is read and written while the lock is
on, and how switching it on and off rewrites what is on disk.  AES-GCM is a parameter.  What may
fail (a directory or a file that cannot be read, memory, a write that stops early) comes from
outside.  A `Char` of a name or a password is one C `char`.
-/

namespace Cos.Messenger

abbrev Bytes := List UInt8

abbrev MasterKey := Fin 32 → UInt8

/-- `gcm_seal` and `gcm_open`: key, nonce, file name, data.  Sealing gives the ciphertext and the
tag. -/
structure Gcm where
  gcmSeal : MasterKey → Bytes → Text → Bytes → Bytes × Bytes
  gcmOpen : MasterKey → Bytes → Text → Bytes → Bytes → Option Bytes

structure Gcm.Lawful (gcm : Gcm) : Prop where
  open_seal : ∀ key nonce path data,
    gcm.gcmOpen key nonce path (gcm.gcmSeal key nonce path data).1
    (gcm.gcmSeal key nonce path data).2 = some data
  sealed_length : ∀ key nonce path data, (gcm.gcmSeal key nonce path data).1.length = data.length
  tag_length : ∀ key nonce path data, (gcm.gcmSeal key nonce path data).2.length = 16
  opened_length : ∀ key nonce path data tag plain,
    gcm.gcmOpen key nonce path data tag = some plain → plain.length = data.length

structure Entry where
  name : Text
  isDir : Bool
  content : Bytes
deriving DecidableEq

structure Dir where
  entries : List Entry
  unique : (entries.map Entry.name).Nodup

/-- What a file meets: `nonce` is what `vault_random` gives, `write` how many bytes get to disk, or
`none` when the file is not opened. -/
structure FileLuck where
  stat : Bool
  alloc : Bool
  read : Bool
  sealAlloc : Bool
  nonce : Fin 12 → UInt8
  write : Option Nat

/-- `reads` is the number of entries that `cos_readdir` returns before it ends or fails. -/
structure DirLuck where
  opens : Bool
  reads : Nat
  file : Text → FileLuck

def encMagic : Bytes := [0x43, 0x45, 0x4e, 0x43, 0x31]

def encOver : Nat := 5 + 12 + 16

structure Vlt where
  present : Bool
  unlocked : Bool
  key : MasterKey

section

variable (gcm : Gcm) (v : Vlt) (path : Text)

/-- `vread` of a file that was read whole. -/
def vread (raw : Bytes) : Option Bytes :=
  if raw.length < 5 ∨ raw.take 5 ≠ encMagic then some raw
  else if v.unlocked = false ∨ raw.length < encOver then none
  else
    let length := raw.length - encOver
    gcm.gcmOpen v.key ((raw.drop 5).take 12) path ((raw.drop 17).take length) ((raw.drop (17 + length)).take 16)

/-- `cos_write_file`: the file is emptied first. -/
def cosWriteFile (luck : FileLuck) (old data : Bytes) : Bytes :=
  if data = [] then old
  else
    match luck.write with
    | none => old
    | some count => data.take count

/-- What `vwrite` puts into the file. -/
def sealedFile (luck : FileLuck) (data : Bytes) : Bytes :=
  let nonce := List.ofFn luck.nonce
  encMagic ++ nonce ++ (gcm.gcmSeal v.key nonce path data).1 ++
    (gcm.gcmSeal v.key nonce path data).2

def vwrite (luck : FileLuck) (old data : Bytes) : Bytes :=
  if v.present = false then cosWriteFile luck old data
  else if v.unlocked = false then old
  else if luck.sealAlloc = false then old
  else cosWriteFile luck old (sealedFile gcm v path luck data)

end

/-- `strstr(text, part) != NULL`. -/
def hasPart (part : Text) : Text → Bool
  | [] => part.isEmpty
  | c :: rest => part.isPrefixOf (c :: rest) || hasPart part rest

def vaultNames : List Text :=
  ["account.txt".toList, "contacts.txt".toList, "unread.txt".toList, "e2e.key".toList,
    "e2e_peers.txt".toList, "e2e_groups.bin".toList, "e2e_roster.bin".toList, "e2e_mode.txt".toList,
    "prefs.txt".toList, "drafts.txt".toList]

def vaultFileWanted (name : Text) : Bool :=
  vaultNames.contains name || ("chat_".toList.isPrefixOf name && hasPart ".txt".toList name)

/-- An entry that `vault_convert_dir` takes into its table. -/
def candidate (whole : Bool) (entry : Entry) : Bool :=
  !entry.isDir && decide (entry.name.length < 40) && (whole || vaultFileWanted entry.name)

/-- The entries in `names[256]`. -/
def tableOf (luck : DirLuck) (whole : Bool) (dir : Dir) : List Entry :=
  ((dir.entries.take luck.reads).filter (candidate whole)).take 256

/-- `9u << 20`. -/
def convertMax : Nat := 9437184

section

variable (gcm : Gcm) (v : Vlt) (base : Text)

/-- `"%s/%s"`. -/
def filePath (name : Text) : Text := base ++ '/' :: name

def convertFile (luck : FileLuck) (encrypt : Bool) (path : Text) (raw : Bytes) : Bytes :=
  if luck.stat = false ∨ raw.length = 0 ∨ convertMax < raw.length then raw
  else if luck.alloc = false then raw
  else if luck.read = false then raw
  else
    match vread gcm v path raw with
    | none => raw
    | some data =>
        if encrypt then vwrite gcm { v with present := true } path luck raw data else cosWriteFile luck raw data

def rewrite (entries : List Entry) (name : Text) (change : Bytes → Bytes) : List Entry :=
  entries.map fun entry => if entry.name = name then { entry with content := change entry.content }
    else entry

theorem rewrite_names (entries : List Entry) (name : Text) (change : Bytes → Bytes) :
    (rewrite entries name change).map Entry.name = entries.map Entry.name := by
  rw [rewrite, List.map_map]
  refine List.map_congr_left fun entry _ => ?_
  dsimp only [Function.comp]
  split <;> rfl

def convertNames (luck : DirLuck) (encrypt : Bool) : List Text → List Entry → List Entry
  | [], entries => entries
  | name :: rest, entries =>
      convertNames luck encrypt rest
        (rewrite entries name (convertFile gcm v (luck.file name) encrypt (filePath base name)))

theorem convertNames_names (luck : DirLuck) (encrypt : Bool) (names : List Text)
    (entries : List Entry) :
    (convertNames gcm v base luck encrypt names entries).map Entry.name =
    entries.map Entry.name := by
  induction names generalizing entries with
  | nil => rfl
  | cons name rest ih => exact (ih _).trans (rewrite_names _ _ _)

def vaultConvertDir (luck : DirLuck) (whole encrypt : Bool) (dir : Dir) : Dir :=
  if luck.opens = false then dir
  else
    { entries := convertNames gcm v base luck encrypt ((tableOf luck whole dir).map Entry.name) dir.entries
      unique := by
        rw [convertNames_names]
        exact dir.unique }

end

/-- `vault.bin`: the master key wrapped with the password. -/
structure Header where
  password : Text
  key : MasterKey

structure App where
  header : Option Header
  vlt : Vlt
  /-- `/messenger` without the header, and `/messenger/files`. -/
  main : Dir
  files : Dir

structure Luck where
  main : DirLuck
  files : DirLuck
  /-- The header can be written, read and removed. -/
  header : Bool
  unlink : Bool

def mainBase : Text := "/messenger".toList

def filesBase : Text := "/messenger/files".toList

def weakPasswords : List Text :=
  ["123456".toList, "1234567".toList, "12345678".toList, "123456789".toList, "password".toList,
    "qwerty".toList, "abcdef".toList, "654321".toList, "111111".toList, "000000".toList,
    "letmein".toList, "iloveyou".toList]

def pwWeak (password : Text) : Bool :=
  weakPasswords.contains password || password.all fun c => some c = password.head?

section

variable (gcm : Gcm) (luck : Luck)

def vaultConvertAll (encrypt : Bool) (m : App) : App :=
  { m with
    main := vaultConvertDir gcm m.vlt mainBase luck.main false encrypt m.main
    files := vaultConvertDir gcm m.vlt filesBase luck.files true encrypt m.files }

/-- `pw_submit` for `PW_SET`, with the key that `vault_random` gives; `none` when the lock stays
off. -/
def pwSet (key : MasterKey) (password again : Text) (m : App) : Option App :=
  if password.length < 6 then none
  else if pwWeak password then none
  else if password ≠ again then none
  else if luck.header = false then none
  else some (vaultConvertAll gcm luck true { m with header := some ⟨password, key⟩, vlt := ⟨true, true, key⟩ })

def vaultOpen (password : Text) (m : App) : Option MasterKey :=
  match m.header with
  | none => none
  | some header => if luck.header && header.password = password then some header.key else none

/-- `pw_submit` for `PW_OFF`; `none` when the lock stays on. -/
def pwOff (password : Text) (m : App) : Option App :=
  match vaultOpen luck password m with
  | none => none
  | some key =>
      let converted := vaultConvertAll gcm luck false { m with vlt := ⟨m.vlt.present, true, key⟩ }
      some
        { converted with
          header := if luck.unlink then none else m.header
          vlt := ⟨false, false, fun _ => 0⟩ }

end

end Cos.Messenger
