import Cos.Lib.Scan
import Cos.Messenger.Roster

/-! # People's keys

The keys of friends and fellow group members, as `e2ec.inc` holds them: the identity that was pinned
first, the bundle that messages are encrypted to, and a new identity that waits for the user.  Keyed
by the C-OS ID, or by the address of a LAN contact.
-/

namespace Cos.Messenger

open Cos.Lib

def bundleLen : Nat := 197

/-- An `e2e_bundle_t` in its packed form: the two identity keys, the prekey's number, the prekey and
its signature. -/
structure Bundle where
  bytes : List UInt8
  length : bytes.length = bundleLen
deriving DecidableEq

namespace Bundle

def zero : Bundle := ⟨List.replicate bundleLen 0, List.length_replicate⟩

def ikDh (b : Bundle) : List UInt8 := b.bytes.take 32

def ikSg (b : Bundle) : List UInt8 := (b.bytes.drop 32).take 65

def spkId (b : Bundle) : Nat :=
  ((b.bytes.drop 97).take 4).foldl (fun value byte => value * 256 + byte.toNat) 0

end Bundle

def hexVal (c : Char) : Option Nat :=
  if '0' ≤ c ∧ c ≤ '9' then some (c.toNat - '0'.toNat)
  else if 'a' ≤ c ∧ c ≤ 'f' then some (c.toNat - 'a'.toNat + 10)
  else if 'A' ≤ c ∧ c ≤ 'F' then some (c.toNat - 'A'.toNat + 10)
  else none

def hexOf (bytes : List UInt8) : Text :=
  bytes.flatMap fun byte => [Nat.digitChar (byte.toNat / 16), Nat.digitChar (byte.toNat % 16)]

/-- `%2x` on two characters of a word. -/
def hexPair (a b : Char) : Option Nat :=
  if a = '+' then hexVal b
  else if a = '-' then (hexVal b).map (256 - ·)
  else
    match hexVal a, hexVal b with
    | some high, some low => some (16 * high + low)
    | some low, none => some low
    | none, _ => none

/-- What `hex_to` stores until a pair cannot be read. -/
def hexTo : Nat → Text → List UInt8
  | n + 1, a :: b :: rest =>
      match hexPair a b with
      | some value => UInt8.ofNat value :: hexTo n rest
      | none => []
  | _, _ => []

def e2eB64 : Text := "ABCDEFGHIJKLMNOPQRSTUVWXYZabcdefghijklmnopqrstuvwxyz0123456789-_".toList

def b64decFrom : Text → Nat → Nat → Option (List UInt8)
  | [], _, bits => if 6 ≤ bits then none else some []
  | c :: rest, acc, bits =>
      if c ∈ e2eB64 then
        let acc := (acc * 64 + e2eB64.idxOf c) % 2 ^ 32
        if 8 ≤ bits + 6 then
          (b64decFrom rest (acc % 2 ^ (bits + 6 - 8)) (bits + 6 - 8)).map (UInt8.ofNat (acc / 2 ^ (bits + 6 - 8)) :: ·)
        else b64decFrom rest acc (bits + 6)
      else none

def e2eB64dec (text : Text) (cap : Nat) : Option (List UInt8) :=
  (b64decFrom text 0 0).filter (·.length ≤ cap)

/-- The bundle of a `KEY` answer, before its signature is checked. -/
def readBundle (b64 : Text) : Option Bundle :=
  match e2eB64dec b64 bundleLen with
  | some bytes => if size : bytes.length = bundleLen then some ⟨bytes, size⟩ else none
  | none => none

/-- `%s` of `sscanf` with a width: the word and what follows it. -/
def scanWord (width : Nat) (text : Text) : Option (Text × Text) :=
  match text.dropWhile isspace with
  | [] => none
  | body =>
      let word := (scanPart isspace body).1
      some (word.take width, body.drop (word.take width).length)

/-- `%d` of `sscanf`, read as an unsigned number in 32 bits. -/
def scanInt (text : Text) : Option (Nat × Text) :=
  match text.dropWhile isspace with
  | [] => none
  | body =>
      match strtoul body with
      | (value, rest) =>
          if rest = body then none
          else if body.head? = some '-' then some (if 2 ^ 63 < 2 ^ 64 - value then (0, rest) else (value % 2 ^ 32, rest))
          else some (if 2 ^ 63 ≤ value then (2 ^ 32 - 1, rest) else (value % 2 ^ 32, rest))

structure Pkey where
  uid : Text
  ks : Nat
  kchanged : Bool
  kchecked : Bool
  kwait : Bool
  hasKb : Bool
  kfp : List UInt8
  kb : Bundle
  knb : Bundle
  kfetch : Nat
  kreqMs : Nat
deriving DecidableEq

def Pkey.blank (uid : Text) : Pkey :=
  ⟨uid, 0, false, false, false, false, List.replicate 32 0, .zero, .zero, 0, 0⟩

def krMax : Nat := 2048

def pkrFind (kr : List Pkey) (uid : Text) : Option Pkey :=
  if 12 ≤ uid.length then none else kr.find? (·.uid = uid)

/-- The first entry that holds nothing worth keeping becomes the one of `uid`. -/
def pkrReuse (uid : Text) : List Pkey → List Pkey
  | [] => []
  | p :: rest => if p.ks = 0 ∧ p.kwait = false then .blank uid :: rest else p :: pkrReuse uid rest

/-- The table after `pkr` has looked for `uid`. -/
def pkr (kr : List Pkey) (uid : Text) : List Pkey :=
  if (pkrFind kr uid).isSome ∨ 12 ≤ uid.length then kr
  else if kr.length < krMax then kr ++ [.blank uid]
  else pkrReuse uid kr

/-- What the pointer of `pkr` shows: an entry of the table, or the cleared one that no person
owns. -/
def pkrGet (kr : List Pkey) (uid : Text) : Pkey := (pkrFind kr uid).getD (.blank [])

/-- A write through the pointer; nothing is left of a write to the cleared one. -/
def pkrSet (uid : Text) (change : Pkey → Pkey) : List Pkey → List Pkey
  | [] => []
  | p :: rest => if p.uid = uid then change p :: rest else p :: pkrSet uid change rest

structure Contact where
  ip : Nat
  uid : Text
deriving DecidableEq

def ipKey (ip : Nat) : Text :=
  "ip:".toList ++ (List.range 8).map fun i => Nat.digitChar (ip / 16 ^ (7 - i) % 16)

def ckey (k : Contact) : Text := if k.uid ≠ [] then k.uid else ipKey k.ip

def peerText (p : Pkey) : Text :=
  p.uid ++ ' ' :: (Nat.toDigits 10 p.ks ++
    ' ' :: (hexOf p.kfp ++ ' ' :: if p.hasKb then hexOf p.kb.bytes else ['-']))

def e2eSavePeers (kr : List Pkey) : Text :=
  ((kr.filter (·.ks ≠ 0)).map peerText).flatMap (· ++ ['\n'])

/-- The four fields of a line: `sscanf` has to read them all. -/
def scanPeer (line : Text) : Option (Text × Nat × Text × Text) := do
  let (uid, rest) ← scanWord 15 line
  let (ks, rest) ← scanInt rest
  let (fp, rest) ← scanWord 79 rest
  let (bh, _) ← scanWord 400 rest
  pure (uid, ks, fp, bh)

def loadBundle (bh : Text) (p : Pkey) : Pkey :=
  if bh.length = bundleLen * 2 then
    if size : (hexTo bundleLen bh).length = bundleLen then { p with kb := ⟨hexTo bundleLen bh, size⟩, hasKb := true } else p
  else p

def loadPeer (ks : Nat) (fp bh : Text) (p : Pkey) : Pkey :=
  if fp.length = 64 then
    let read := hexTo 32 fp
    let p := { p with kfp := read ++ p.kfp.drop read.length }
    if read.length = 32 then loadBundle bh { p with ks := if ks = 2 then 2 else 1 } else p
  else p

def loadLine (kr : List Pkey) (line : Text) : List Pkey :=
  match scanPeer line with
  | some (uid, ks, fp, bh) =>
    if uid.length < 12 then pkrSet uid (loadPeer ks fp bh) (pkr kr uid) else kr
  | none => kr

def e2eLoadPeers (file : Text) : List Pkey := (scanParts (· = '\n') file).foldl loadLine []

inductive Opened
  | text (plain : Text)
  | malformed
  | noPrekey
  | refused
deriving DecidableEq

/-- The primitives; `Own` is our identity and our prekeys. -/
structure Crypto (Own : Type) where
  bundleVerify : Bundle → Bool
  fingerprint : List UInt8 → List UInt8 → List UInt8
  fingerprint_length : ∀ dh sg, (fingerprint dh sg).length = 32
  /-- The envelope for a bundle, a context and a text; nothing when it fails or does not fit. -/
  encrypt : Own → Bundle → Text → Text → Option Text
  decrypt : Own → List UInt8 → Text → List UInt8 → Opened

def Crypto.fp (cr : Crypto Own) (b : Bundle) : List UInt8 := cr.fingerprint b.ikDh b.ikSg

def Crypto.answer (cr : Crypto Own) (b64 : Text) : Option Bundle :=
  (readBundle b64).filter cr.bundleVerify

structure Peers (Own : Type) where
  accId : Text
  myIp : Nat
  own : Own
  ready : Bool
  req : Bool
  kr : List Pkey
  file : Text

section

variable {Own : Type} (cr : Crypto Own) (s : Peers Own)

def Peers.save : Peers Own := { s with file := e2eSavePeers s.kr }

def Peers.set (uid : Text) (change : Pkey → Pkey) : Peers Own :=
  { s with kr := pkrSet uid change s.kr }

def since (now t : Nat) : Nat := (now + (2 ^ 64 - t % 2 ^ 64)) % 2 ^ 64

/-- `e2e_request_uid`; `sent` when the server is online and takes the frame. -/
def e2eRequestUid (kr : List Pkey) (uid : Text) (now : Nat) (sent : Bool) : List Pkey :=
  let kr := pkr kr uid
  if (pkrGet kr uid).kwait ∨ sent = false then kr
  else pkrSet uid (fun p => { p with kwait := true, kreqMs := now }) kr

def e2eRequestKey (kr : List Pkey) (k : Contact) (now : Nat) (sent : Bool) : List Pkey :=
  e2eRequestUid kr (ckey k) now (sent || k.uid = [])

/-- What a signed bundle of `uid` does to the entry. -/
def takeBundle (nb : Bundle) (uid : Text) : Peers Own :=
  let p := pkrGet s.kr uid
  if p.ks = 0 then (s.set uid fun p =>
    { p with kb := nb, hasKb := true, ks := 1, kfp := cr.fp nb }).save
  else if cr.fp nb = p.kfp then
    if p.hasKb = false ∨ p.kb ≠ nb ∧ p.kb.spkId ≤ nb.spkId then
      (s.set uid fun p => { p with kb := nb, hasKb := true, kchanged := false }).save
    else s.set uid fun p => { p with kchanged := false }
  else if p.kchanged = false ∨ p.knb ≠ nb then s.set uid fun p =>
    { p with knb := nb, kchanged := true }
  else s

def e2eOnKey (uid b64 : Text) (now : Nat) : Peers Own :=
  let s := { s with
    kr := pkrSet uid (fun p => { p with kwait := false, kchecked := true, kfetch := now }) (pkr s.kr uid) }
  match cr.answer b64 with
  | some nb => takeBundle cr s nb uid
  | none => s

/-- The first four bytes of the identity that waits, as the user compares them. -/
def fpMatches (nb : Bundle) (fp8 : Option Text) : Bool :=
  match fp8 with
  | some text => hexOf ((cr.fp nb).take 4) = text.map Char.toLower
  | none => true

def e2eTrustUid (uid : Text) (fp8 : Option Text) : Peers Own :=
  let s := { s with kr := pkr s.kr uid }
  let p := pkrGet s.kr uid
  if p.kchanged ∧ fpMatches cr p.knb fp8 then
    (s.set uid fun p => { p with kfp := cr.fp p.knb, kb := p.knb, hasKb := true, kchanged := false, ks := 1 }).save
  else s

def e2eVerifyUid (uid : Text) : Peers Own :=
  let s := { s with kr := pkr s.kr uid }
  let p := pkrGet s.kr uid
  if p.ks ≠ 0 ∧ p.kchanged = false then (s.set uid fun p => { p with ks := 2 }).save else s

inductive Wire
  | ok (b : Bundle) (env : Text)
  | plain
  | wait
  | fail
deriving DecidableEq

def mylabel (k : Contact) : Text := if k.uid ≠ [] then s.accId else ipKey s.myIp

def digits (n : Nat) : Text := Nat.toDigits 10 n

def wireCtx (sender recipient : Text) (id kind : Nat) : Text :=
  sender ++ '|' :: (recipient ++ '|' :: (digits id ++ '|' :: digits kind))

/-- `E2E_REFRESH_MS` and `E2E_MAXPT`. -/
def refreshMs : Nat := 600000

def maxPt : Nat := 2200

def stale (p : Pkey) (now : Nat) : Bool :=
  p.kchecked = false || refreshMs < since now p.kfetch ||
    (p.hasKb = false && 15000 < since now p.kfetch)

def e2eWire (k : Contact) (id kind : Nat) (plain : Text) (now : Nat) (sent : Bool) :
    Wire × Peers Own :=
  if s.ready = false then (if s.req then .fail else .plain, s)
  else
    let key := ckey k
    let old := stale (pkrGet (pkr s.kr key) key) now
    let s := { s with kr := if old then e2eRequestKey (pkr s.kr key) k now sent else pkr s.kr key }
    let p := pkrGet s.kr key
    if old ∧ p.kwait then (.wait, s)
    else if p.kchanged then (.fail, s)
    else if p.hasKb = false then (if s.req then .fail else .plain, s)
    else if maxPt < plain.length then (.fail, s)
    else
      match cr.encrypt s.own p.kb (wireCtx (mylabel s k) key id kind) plain with
      | some env => (.ok p.kb env, s)
      | none => (.fail, s)

/-- What a received text becomes: it waits, is taken as it is, was opened with the keys of a bundle,
or is replaced by a note. -/
inductive Got
  | parked
  | asIs
  | opened (b : Bundle) (text : Text)
  | note
deriving DecidableEq

def encrypted (text : Text) : Bool := text.take 2 = [Char.ofNat 1, 'E']

def e2eOpen (k : Contact) (p : Pkey) (text : Text) (cap rid kind : Nat) : Opened :=
  match e2eB64dec (text.drop 2) cap with
  | some (first :: env) =>
    cr.decrypt s.own p.kb.ikDh (wireCtx (ckey k) (mylabel s k) rid kind) (first :: env)
  | _ => .malformed

def e2eLookAgain (k : Contact) (now : Nat) (sent : Bool) : Peers Own :=
  { s with kr := e2eRequestKey (pkrSet (ckey k) (fun p => { p with kchecked := false }) s.kr) k now sent }

def e2eIn (k : Contact) (text : Text) (rid kind : Nat) (refeeding : Bool) (now : Nat)
    (sent : Bool) : Got × Peers Own :=
  let key := ckey k
  let asks := (pkrGet (pkr s.kr key) key).kchecked = false ∧ refeeding = false
  let s := { s with kr := if asks then e2eRequestKey (pkr s.kr key) k now sent else pkr s.kr key }
  let p := pkrGet s.kr key
  if asks ∧ p.kwait then (.parked, s)
  else if p.kchanged then (if refeeding then .note else .parked, s)
  else if encrypted text = false then (if s.req ∨ p.hasKb then .note else .asIs, s)
  else if s.ready = false ∨ p.hasKb = false then (.note, s)
  else
    match e2eOpen cr s k p text 3300 rid kind with
    | .text plain => (.opened p.kb plain, s)
    | .refused =>
        if refeeding = false ∧ 20000 < since now p.kfetch then
          let s := e2eLookAgain s k now sent
          (if (pkrGet s.kr key).kwait then .parked else .note, s)
        else (.note, s)
    | _ => (.note, s)

def lanIn (k : Contact) (text : Text) (rid kind : Nat) (now : Nat) (sent : Bool) :
    Got × Peers Own :=
  let key := ckey k
  let s := { s with kr := pkr s.kr key }
  let p := pkrGet s.kr key
  if p.kchecked = false then (.parked, { s with kr := e2eRequestKey s.kr k now sent })
  else if p.kchanged then (.parked, s)
  else if encrypted text = false then (if s.req ∨ p.hasKb then .parked else .asIs, s)
  else if s.ready = false ∨ p.hasKb = false then (.note, s)
  else
    match e2eOpen cr s k p text 1500 rid kind with
    | .text plain => (.opened p.kb plain, s)
    | .refused => if 20000 < since now p.kfetch then (.parked, e2eLookAgain s k now sent) else (.note, s)
    | _ => (.note, s)

def plainDelRefused (k : Contact) : Bool × Peers Own :=
  if s.req then (true, s)
  else
    let s := { s with kr := pkr s.kr (ckey k) }
    ((pkrGet s.kr (ckey k)).hasKb, s)

end

end Cos.Messenger
