import Cos.Messenger.PeersSound
import Mathlib

/-! # Runs of the key table

Answers of the server and of the LAN, time-outs, messages in both directions, decisions of the user,
and restarts.  Beside the table a run keeps, for each person, the identity that was answered first
or that the user has accepted last.

A frame that waited and is handled again, or a message that waited and is sent again, is a step of
its own.
-/

namespace Cos.Messenger

open Cos.Lib

variable {Own : Type} (cr : Crypto Own)

inductive PeerCall (Own : Type)
  | key (uid b64 : Text) (now : Nat)
  | lanKey (k : Contact) (b64 : Text) (now : Nat)
  | timeout (uid : Text) (now : Nat)
  | request (uid : Text) (now : Nat) (sent : Bool)
  | requestContact (k : Contact) (now : Nat) (sent : Bool)
  | lookAgain (uid : Text) (now : Nat) (sent : Bool)
  | send (k : Contact) (id kind : Nat) (plain : Text) (now : Nat) (sent : Bool)
  | msgIn (k : Contact) (text : Text) (rid kind : Nat) (refeeding : Bool) (now : Nat) (sent : Bool)
  | lanMsgIn (k : Contact) (text : Text) (rid kind : Nat) (now : Nat) (sent : Bool)
  | delIn (k : Contact)
  | trust (uid : Text) (fp8 : Option Text)
  | verify (uid : Text)
  | require (on : Bool)
  | maintain (own : Own)
  | restart (ready : Bool) (own : Own)

inductive Output
  | cipher (key : Text) (b : Bundle)
  | plain (key : Text)
  | shownOpened (key : Text) (b : Bundle)
  | shownPlain (key : Text)
  | plainDelete (key : Text)
deriving DecidableEq

def wireOutput (key : Text) : Wire → List Output
  | .ok b _ => [.cipher key b]
  | .plain => [.plain key]
  | .wait | .fail => []

def gotOutput (key : Text) : Got → List Output
  | .opened b _ => [.shownOpened key b]
  | .asIs => [.shownPlain key]
  | .parked | .note => []

def peerCall (s : Peers Own) : PeerCall Own → List Output × Peers Own
  | .key uid b64 now => ([], if (pkrGet s.kr uid).kwait then e2eOnKey cr s uid b64 now else s)
  | .lanKey k b64 now =>
      let s := { s with kr := pkr s.kr (ckey k) }
      ([], if (pkrGet s.kr (ckey k)).kwait then e2eOnKey cr s (ckey k) b64 now else s)
  | .timeout uid now =>
      let p := pkrGet s.kr uid
      ([], if p.kwait ∧ 8000 < since now p.kreqMs then e2eOnKey cr s uid [] now else s)
  | .request uid now sent => ([], { s with kr := e2eRequestUid s.kr uid now sent })
  | .requestContact k now sent => ([], { s with kr := e2eRequestKey s.kr k now sent })
  | .lookAgain uid now sent =>
      ([], { s with kr := e2eRequestUid (pkrSet uid (fun p => { p with kchecked := false }) (pkr s.kr uid)) uid now sent })
  | .send k id kind plain now sent =>
      let (wire, s) := e2eWire cr s k id kind plain now sent
      (wireOutput (ckey k) wire, s)
  | .msgIn k text rid kind refeeding now sent =>
      let (got, s) := e2eIn cr s k text rid kind refeeding now sent
      (gotOutput (ckey k) got, s)
  | .lanMsgIn k text rid kind now sent =>
      let (got, s) := lanIn cr s k text rid kind now sent
      (gotOutput (ckey k) got, s)
  | .delIn k =>
      let (refused, s) := plainDelRefused s k
      (if refused then [] else [.plainDelete (ckey k)], s)
  | .trust uid fp8 => ([], e2eTrustUid cr s uid fp8)
  | .verify uid => ([], e2eVerifyUid s uid)
  | .require on => ([], { s with req := on })
  | .maintain own => ([], { s with own := own })
  | .restart ready own => ([], { s with kr := e2eLoadPeers s.file, ready := ready, own := own })

def answered (s : Peers Own) : PeerCall Own → Option (Text × Bundle)
  | .key uid b64 _ => if (pkrGet s.kr uid).kwait then (cr.answer b64).map (uid, ·) else none
  | .lanKey k b64 _ =>
    if (pkrGet s.kr (ckey k)).kwait then (cr.answer b64).map (ckey k, ·) else none
  | _ => none

def accepted (s : Peers Own) : PeerCall Own → Option (Text × List UInt8)
  | .trust uid fp8 =>
      let p := pkrGet s.kr uid
      if p.kchanged ∧ fpMatches cr p.knb fp8 then some (uid, cr.fp p.knb) else none
  | _ => none

/-- The client, and the identity pinned first or accepted last for each person. -/
structure PeerWorld (Own : Type) where
  peers : Peers Own
  pins : Text → Option (List UInt8)

def pinStep (w : PeerWorld Own) (call : PeerCall Own) : Text → Option (List UInt8) := fun key =>
  match answered cr w.peers call, accepted cr w.peers call with
  | some (uid, b), _ => if key = uid ∧ w.pins key = none then some (cr.fp b) else w.pins key
  | none, some (uid, fp) => if key = uid then some fp else w.pins key
  | none, none => w.pins key

def peerStep (w : PeerWorld Own) (call : PeerCall Own) : PeerWorld Own :=
  ⟨(peerCall cr w.peers call).2, pinStep cr w call⟩

/-- A text leaves for, or comes from, the pinned identity and no other; plain text only where there
is no key and none is required; nothing while another identity waits. -/
def Output.Fits (w : PeerWorld Own) : Output → Prop
  | .cipher key b | .shownOpened key b =>
    w.pins key = some (cr.fp b) ∧ (pkrGet w.peers.kr key).kchanged = false
  | .plain key | .shownPlain key | .plainDelete key =>
      w.peers.req = false ∧ w.pins key = none ∧ (pkrGet w.peers.kr key).kchanged = false

structure PinRule (w : PeerWorld Own) (call : PeerCall Own) : Prop where
  outputs : ∀ output ∈ (peerCall cr w.peers call).1, output.Fits cr w
  /-- A bundle of another identity leaves the pinned one in place and stops everything. -/
  changed : ∀ uid b fp, answered cr w.peers call = some (uid, b) → w.pins uid = some fp →
    cr.fp b ≠ fp → let before := pkrGet w.peers.kr uid
    let after := pkrGet (peerStep cr w call).peers.kr uid
    after.kchanged = true ∧ after.kfp = before.kfp ∧ after.kb = before.kb
  /-- Without the user a bundle is only replaced by one of the same identity with a prekey that is
  not older. -/
  prekeys : ∀ uid, (pkrGet w.peers.kr uid).hasKb = true →
    (∀ fp, accepted cr w.peers call ≠ some (uid, fp)) → let before := pkrGet w.peers.kr uid
    let after := pkrGet (peerStep cr w call).peers.kr uid
    after.hasKb = true ∧ cr.fp after.kb = cr.fp before.kb ∧ before.kb.spkId ≤ after.kb.spkId

/-- The file can hold the names of everybody who is pinned, and without encryption nobody who has a
key is written to. -/
def peerCondition (w : PeerWorld Own) : PeerCall Own → Prop
  | .restart .. => ∀ p ∈ w.peers.kr, p.ks ≠ 0 → plainId p.uid = true
  | .send k .. => w.peers.ready = true ∨ w.peers.req = true ∨ (pkrGet w.peers.kr (ckey k)).hasKb = false
  | _ => True

instance (w : PeerWorld Own) : ∀ call : PeerCall Own, Decidable (peerCondition w call)
  | .restart .. => inferInstanceAs (Decidable (∀ p ∈ w.peers.kr, p.ks ≠ 0 → plainId p.uid = true))
  | .send k .. => inferInstanceAs (Decidable (w.peers.ready = true ∨ w.peers.req = true ∨
      (pkrGet w.peers.kr (ckey k)).hasKb = false))
  | .key .. | .lanKey .. | .timeout .. | .request .. | .requestContact .. | .lookAgain ..
  | .msgIn .. | .lanMsgIn .. | .delIn .. | .trust .. | .verify .. | .require .. | .maintain .. =>
    isTrue trivial

variable {cr} {s s' : Peers Own} {w : PeerWorld Own} {uid key : Text} {p : Pkey} {nb : Bundle}
  {kr kr' : List Pkey}

structure PeersSound (cr : Crypto Own) (s : Peers Own) : Prop where
  table : TableSound cr s.kr
  file : s.file = e2eSavePeers s.kr

/-- The table tells of everybody the identity that the run has pinned. -/
structure WorldSound (cr : Crypto Own) (w : PeerWorld Own) :
    Prop extends PeersSound cr w.peers where
  pins : ∀ key, w.pins key = (keyView w.peers.kr key).map KeyView.kfp

structure Quiet (cr : Crypto Own) (s s' : Peers Own) : Prop where
  keys : SameKeys cr s.kr s'.kr
  file : s'.file = s.file
  accId : s'.accId = s.accId

theorem Quiet.sound (quiet : Quiet cr s s') (sound : PeersSound cr s) : PeersSound cr s' :=
  ⟨quiet.keys.sound, by rw [quiet.file, sound.file, quiet.keys.file]⟩

theorem SameKeys.get (same : SameKeys cr kr kr') (sound : TableSound cr kr) (key : Text) :
    (pkrGet kr' key).hasKb = (pkrGet kr key).hasKb ∧
      (pkrGet kr' key).kchanged = (pkrGet kr key).kchanged ∧
      ((pkrGet kr key).hasKb = true → (pkrGet kr' key).kb = (pkrGet kr key).kb) := by
  have before := sound.get key
  have after := same.sound.get key
  rw [same.view] at after
  cases isView : keyView kr key with
  | none =>
      simp only [isView] at before after
      rw [before.2.1, before.2.2, after.2.1, after.2.2]
      exact ⟨rfl, rfl, nofun⟩
  | some view =>
      simp only [isView] at before after
      rw [before.2.1, before.2.2.2.1, before.2.2.2.2.1, after.2.1, after.2.2.2.1, after.2.2.2.2.1]
      exact ⟨rfl, rfl, fun _ => rfl⟩

theorem WorldSound.pinned (sound : WorldSound cr w) (same : SameKeys cr w.peers.kr kr')
    (has : (pkrGet kr' key).hasKb = true) : w.pins key = some (cr.fp (pkrGet kr' key).kb) := by
  have after := same.sound.get key
  rw [sound.pins, ← same.view]
  cases isView : keyView kr' key with
  | none =>
      simp only [isView] at after
      exact nomatch after.2.1.symm.trans has
  | some view =>
      simp only [isView] at after
      rw [Option.map_some, after.2.2.2.1, after.2.2.2.2.2]

theorem WorldSound.unpinned (sound : WorldSound cr w)
    (lacks : (pkrGet w.peers.kr key).hasKb = false) :
    w.pins key = none ∧ (pkrGet w.peers.kr key).kchanged = false := by
  have before := sound.table.get key
  rw [sound.pins]
  cases isView : keyView w.peers.kr key with
  | none =>
      simp only [isView] at before
      exact ⟨rfl, before.2.2⟩
  | some view =>
      simp only [isView] at before
      exact nomatch before.2.1.symm.trans lacks

/-- What a signed bundle does to the keys of the person it is for. -/
def viewTaken (cr : Crypto Own) (nb : Bundle) (before after : Option KeyView) : Prop :=
  match before with
  | none => after = some ⟨cr.fp nb, nb, false⟩
  | some view =>
      if cr.fp nb = view.kfp then
        ∃ kb, after = some ⟨view.kfp, kb, false⟩ ∧ cr.fp kb = view.kfp ∧ view.kb.spkId ≤ kb.spkId
      else after = some { view with kchanged := true }

theorem takeBundle_keys (sound : PeersSound cr s) (found : pkrFind s.kr uid = some p) :
    PeersSound cr (takeBundle cr s nb uid) ∧
      viewTaken cr nb (keyView s.kr uid) (keyView (takeBundle cr s nb uid).kr uid) ∧
      ∀ key, key ≠ uid → keyView (takeBundle cr s nb uid).kr key = keyView s.kr key := by
  have isGet : pkrGet s.kr uid = p := by rw [pkrGet, found]; rfl
  have entry := sound.table.entries p (mem_of_pkrFind found).1
  have isView : keyView s.kr uid = if p.ks ≠ 0 then some ⟨p.kfp, p.kb, p.kchanged⟩ else none := by
    rw [keyView, found, Option.filter_some]
    by_cases free : p.ks = 0 <;> simp [free]
  -- A write to the entry that leaves it pinned and sound.
  have put {change : Pkey → Pkey} (keeps : ∀ p, (change p).uid = p.uid)
      (sound' : EntrySound cr (change p)) (pinned : (change p).ks ≠ 0) :=
      sound.table.put found keeps sound' pinned
  rw [takeBundle, isGet]
  split
  next free =>
    obtain ⟨table, -, views⟩ :=
      @put (fun p => { p with kb := nb, hasKb := true, ks := 1, kfp := cr.fp nb }) (fun _ => rfl)
      ⟨(by rintro ⟨⟩), fun _ => ⟨⟨.inl rfl, rfl, cr.fingerprint_length _ _⟩, rfl⟩⟩ (by simp)
    refine ⟨⟨table, rfl⟩, ?_, fun key other => (views key).trans (if_neg other)⟩
    rw [isView, if_neg (by simpa using free)]
    exact (views uid).trans (by rw [if_pos rfl, (entry.blank free).2])
  next taken =>
    obtain ⟨pinned, isFp⟩ := entry.pinned taken
    rw [isView, if_pos taken]
    simp only [viewTaken]
    split
    next same =>
      split
      next newer =>
        have newer := newer.resolve_left (by simp [pinned.hasKb])
        obtain ⟨table, -, views⟩ := @put (fun p => { p with kb := nb, hasKb := true, kchanged := false }) (fun _ => rfl)
          ⟨fun free => absurd free taken, fun _ => ⟨⟨pinned.ks, rfl, pinned.size⟩, same⟩⟩ taken
        exact ⟨⟨table, rfl⟩, ⟨nb, (views uid).trans (if_pos rfl), same, newer.2⟩,
          fun key other => (views key).trans (if_neg other)⟩
      next older =>
        obtain ⟨table, -, views⟩ := @put (fun p => { p with kchanged := false }) (fun _ => rfl)
          ⟨fun free => absurd free taken, fun _ => ⟨⟨pinned.ks, pinned.hasKb, pinned.size⟩, isFp⟩⟩ taken
        refine ⟨⟨table, sound.file.trans (Eq.symm ?_)⟩, ⟨p.kb, (views uid).trans (if_pos rfl), isFp,
          Nat.le_refl _⟩, fun key other => (views key).trans (if_neg other)⟩
        apply savePeers_set
        exact fun _ _ _ => ⟨rfl, rfl⟩
    next different =>
      split
      next =>
        obtain ⟨table, -, views⟩ := @put (fun p => { p with knb := nb, kchanged := true }) (fun _ => rfl)
          ⟨fun free => absurd free taken, fun _ => ⟨⟨pinned.ks, pinned.hasKb, pinned.size⟩, isFp⟩⟩ taken
        refine ⟨⟨table, sound.file.trans (Eq.symm ?_)⟩, (views uid).trans (if_pos rfl),
          fun key other => (views key).trans (if_neg other)⟩
        apply savePeers_set
        exact fun _ _ _ => ⟨rfl, rfl⟩
      next known =>
        rw [not_or] at known
        have isChanged : p.kchanged = true := by simpa using known.1
        exact ⟨sound, by rw [isView, if_pos taken, isChanged], fun _ _ => rfl⟩

theorem e2eOnKey_keys {b64 : Text} {now : Nat} (sound : PeersSound cr s)
    (waits : (pkrGet s.kr uid).kwait = true) : PeersSound cr (e2eOnKey cr s uid b64 now) ∧
      (∀ key, key ≠ uid → keyView (e2eOnKey cr s uid b64 now).kr key = keyView s.kr key) ∧
      match cr.answer b64 with
      | some nb => viewTaken cr nb (keyView s.kr uid) (keyView (e2eOnKey cr s uid b64 now).kr uid)
      | none => keyView (e2eOnKey cr s uid b64 now).kr uid = keyView s.kr uid := by
  obtain ⟨p, found⟩ : ∃ p, pkrFind s.kr uid = some p := by
    rw [pkrGet] at waits
    cases found : pkrFind s.kr uid with
    | none =>
        rw [found] at waits
        cases waits
    | some p => exact ⟨p, rfl⟩
  have placed : pkr s.kr uid = s.kr := by rw [pkr, if_pos (.inl (by rw [found]; rfl))]
  have flags : FlagsOnly fun p : Pkey =>
    { p with kwait := false, kchecked := true, kfetch := now } :=
    ⟨fun _ => rfl, fun _ => rfl, fun _ => rfl, fun _ => rfl, fun _ => rfl, fun _ => rfl⟩
  have same := @TableSound.flags s.kr uid _ Own cr sound.table flags
  have foundAfter := @pkrFind_set s.kr uid _ flags.uid
  rw [found, Option.map_some] at foundAfter
  rw [e2eOnKey, placed]
  cases cr.answer b64 with
  | none => exact ⟨⟨same.sound, sound.file.trans same.file.symm⟩, fun key _ => same.view key,
    same.view uid⟩
  | some nb =>
      obtain ⟨sound', taken, others⟩ := @takeBundle_keys Own cr
        { s with kr := pkrSet uid (fun p => { p with kwait := false, kchecked := true, kfetch := now }) s.kr } uid _ nb
        ⟨same.sound, sound.file.trans same.file.symm⟩ foundAfter
      rw [same.view] at taken
      exact ⟨sound', fun key other => (others key other).trans (same.view key), taken⟩

theorem e2eTrustUid_keys {fp8 : Option Text} (sound : PeersSound cr s) :
    PeersSound cr (e2eTrustUid cr s uid fp8) ∧
      (∀ key, key ≠ uid → keyView (e2eTrustUid cr s uid fp8).kr key = keyView s.kr key) ∧
      keyView (e2eTrustUid cr s uid fp8).kr uid =
        if (pkrGet s.kr uid).kchanged ∧ fpMatches cr (pkrGet s.kr uid).knb fp8 then
          some ⟨cr.fp (pkrGet s.kr uid).knb, (pkrGet s.kr uid).knb, false⟩
        else keyView s.kr uid := by
  cases found : pkrFind s.kr uid with
  | none =>
      have same := sound.table.pkr uid
      have before : (pkrGet s.kr uid).kchanged = false := by rw [pkrGet, found]; rfl
      have after : (pkrGet (pkr s.kr uid) uid).kchanged = false :=
        (same.get sound.table uid).2.1.trans before
      rw [e2eTrustUid]
      simp only [before, after, Bool.false_eq_true, false_and, if_false]
      exact ⟨⟨same.sound, sound.file.trans same.file.symm⟩, fun key _ => same.view key, same.view uid⟩
  | some p =>
      have placed : pkr s.kr uid = s.kr := by rw [pkr, if_pos (.inl (by rw [found]; rfl))]
      have isGet : pkrGet s.kr uid = p := by rw [pkrGet, found]; rfl
      rw [e2eTrustUid, placed]
      simp only [isGet]
      split
      next =>
        obtain ⟨table, -, views⟩ := @TableSound.put s.kr p uid
          (fun p => { p with kfp := cr.fp p.knb, kb := p.knb, hasKb := true, kchanged := false, ks := 1 }) Own cr sound.table
          found (fun _ => rfl) ⟨(by rintro ⟨⟩), fun _ => ⟨⟨.inl rfl, rfl, cr.fingerprint_length _ _⟩, rfl⟩⟩ (by simp)
        exact ⟨⟨table, rfl⟩, fun key other => (views key).trans (if_neg other), (views uid).trans (if_pos rfl)⟩
      next => exact ⟨sound, fun _ _ => rfl, rfl⟩

theorem e2eVerifyUid_keys (sound : PeersSound cr s) :
    PeersSound cr (e2eVerifyUid s uid) ∧
    ∀ key, keyView (e2eVerifyUid s uid).kr key = keyView s.kr key := by
  cases found : pkrFind s.kr uid with
  | none =>
      have same := sound.table.pkr uid
      have view : keyView s.kr uid = none := by rw [keyView, found]; rfl
      have after := same.sound.get uid
      rw [same.view, view] at after
      rw [e2eVerifyUid]
      simp only [after.1, ne_eq, not_true_eq_false, false_and, if_false]
      exact ⟨⟨same.sound, sound.file.trans same.file.symm⟩, same.view⟩
  | some p =>
      have placed : pkr s.kr uid = s.kr := by rw [pkr, if_pos (.inl (by rw [found]; rfl))]
      have isGet : pkrGet s.kr uid = p := by rw [pkrGet, found]; rfl
      rw [e2eVerifyUid, placed]
      simp only [isGet]
      split
      next pinned =>
        obtain ⟨entry, isFp⟩ := (sound.table.entries p (mem_of_pkrFind found).1).pinned pinned.1
        obtain ⟨table, -, views⟩ := @TableSound.put s.kr p uid (fun p => { p with ks := 2 }) Own cr sound.table found
          (fun _ => rfl) ⟨(by rintro ⟨⟩), fun _ => ⟨⟨.inr rfl, entry.hasKb, entry.size⟩, isFp⟩⟩ (by simp)
        refine ⟨⟨table, rfl⟩, fun key => (views key).trans ?_⟩
        split
        next isKey =>
          rw [isKey, keyView, found, Option.filter_some, if_pos (by simpa using pinned.1)]
          rfl
        next => rfl
      next => exact ⟨sound, fun _ => rfl⟩

theorem SameKeys.quiet (same : SameKeys cr s.kr kr) : Quiet cr s { s with kr := kr } :=
  ⟨same, rfl, rfl⟩

theorem TableSound.requestKey (sound : TableSound cr kr) (k : Contact) (now : Nat) (sent : Bool) :
    SameKeys cr kr (e2eRequestKey kr k now sent) := sound.requestUid _ now _

theorem TableSound.lookAgain (sound : TableSound cr kr) (uid : Text) (now : Nat) (sent : Bool) :
    SameKeys cr kr (e2eRequestUid (pkrSet uid (fun p => { p with kchecked := false }) kr) uid now sent) :=
  have flags := @TableSound.flags kr uid (fun p => { p with kchecked := false }) Own cr sound
    ⟨fun _ => rfl, fun _ => rfl, fun _ => rfl, fun _ => rfl, fun _ => rfl, fun _ => rfl⟩
  flags.trans (flags.sound.requestUid uid now sent)

theorem TableSound.asked (sound : TableSound cr kr) (k : Contact) (now : Nat) (sent asks : Bool) :
    SameKeys cr kr (if asks then e2eRequestKey (Messenger.pkr kr (ckey k)) k now sent
    else Messenger.pkr kr (ckey k)) := by
  have placed := sound.pkr (ckey k)
  split
  · exact placed.trans (placed.sound.requestKey k now sent)
  · exact placed

theorem WorldSound.fits (sound : WorldSound cr w) (same : SameKeys cr w.peers.kr kr')
    (still : (pkrGet kr' key).kchanged = false) :
    ((pkrGet kr' key).hasKb = true → w.pins key = some (cr.fp (pkrGet kr' key).kb)) ∧
      ((pkrGet kr' key).hasKb = false → w.pins key = none) ∧
      (pkrGet w.peers.kr key).kchanged = false := by
  obtain ⟨sameHas, sameChanged, -⟩ := same.get sound.table key
  refine ⟨fun has => sound.pinned same has, fun lacks => ?_, sameChanged ▸ still⟩
  exact (sound.unpinned (sameHas ▸ lacks)).1

theorem e2eWire_quiet {k : Contact} {id kind now : Nat} {plain : Text} {sent : Bool}
    (sound : PeersSound cr s) : Quiet cr s (e2eWire cr s k id kind plain now sent).2 := by
  rw [e2eWire]
  split
  · exact (SameKeys.refl sound.table).quiet
  · have same := sound.table.asked k now sent (stale (pkrGet (pkr s.kr (ckey k)) (ckey k)) now)
    simp only
    obtain ⟨kr', isKr⟩ : ∃ kr', (if stale (pkrGet (pkr s.kr (ckey k)) (ckey k)) now then
      e2eRequestKey (pkr s.kr (ckey k)) k now sent else pkr s.kr (ckey k)) = kr' := ⟨_, rfl⟩
    rw [isKr] at same ⊢
    have quiet : Quiet cr s { s with kr := kr' } := same.quiet
    split
    · exact quiet
    · split
      · exact quiet
      · split
        · exact quiet
        · split
          · exact quiet
          · split <;> exact quiet

theorem e2eWire_fits {k : Contact} {id kind now : Nat} {plain : Text} {sent : Bool}
    (sound : WorldSound cr w) (permitted : peerCondition w (.send k id kind plain now sent)) :
    ∀ output ∈ wireOutput (ckey k) (e2eWire cr w.peers k id kind plain now sent).1,
    output.Fits cr w := by
  have silent (wire : Wire) (nothing : wireOutput (ckey k) wire = []) :
      ∀ output ∈ wireOutput (ckey k) wire, output.Fits cr w := by
    rw [nothing]
    exact fun _ member => nomatch member
  rw [e2eWire]
  split
  next off =>
    intro output member
    by_cases required : w.peers.req = true
    · rw [if_pos required] at member
      cases member
    · rw [if_neg required] at member
      obtain rfl := List.mem_singleton.mp member
      have lacks := (permitted.resolve_left (by simp [off])).resolve_left required
      exact ⟨by simpa using required, sound.unpinned lacks⟩
  next =>
    have same := sound.table.asked k now sent
      (stale (pkrGet (pkr w.peers.kr (ckey k)) (ckey k)) now)
    simp only
    obtain ⟨kr', isKr⟩ : ∃ kr', (if stale (pkrGet (pkr w.peers.kr (ckey k)) (ckey k)) now then
      e2eRequestKey (pkr w.peers.kr (ckey k)) k now sent else pkr w.peers.kr (ckey k)) = kr' := ⟨_, rfl⟩
    rw [isKr] at same ⊢
    split
    · exact silent .wait rfl
    · split
      · exact silent .fail rfl
      next still =>
        obtain ⟨isPinned, isFree, unchanged⟩ := @WorldSound.fits Own cr w (ckey k) kr' sound same (by simpa using still)
        split
        next lacks =>
          intro output member
          by_cases required : w.peers.req = true
          · rw [if_pos required] at member
            cases member
          · rw [if_neg required] at member
            obtain rfl := List.mem_singleton.mp member
            exact ⟨by simpa using required, isFree lacks, unchanged⟩
        next has =>
          split
          · exact silent .fail rfl
          · split
            next env isEnv =>
              intro output member
              obtain rfl := List.mem_singleton.mp member
              exact ⟨isPinned (by simpa using has), unchanged⟩
            next => exact silent .fail rfl

/-- A received text that is shown although the keys do not change. -/
def GotFits (cr : Crypto Own) (w : PeerWorld Own) (key : Text) (got : Got) : Prop :=
  ∀ output ∈ gotOutput key got, output.Fits cr w

theorem gotFits_silent {got : Got} (nothing : gotOutput key got = []) : GotFits cr w key got := by
  rw [GotFits, nothing]
  exact fun _ member => nomatch member

theorem gotFits_opened {b : Bundle} {text : Text} (pinned : w.pins key = some (cr.fp b))
    (still : (pkrGet w.peers.kr key).kchanged = false) : GotFits cr w key (.opened b text) := by
  intro output member
  obtain rfl := List.mem_singleton.mp member
  exact ⟨pinned, still⟩

theorem gotFits_plain (optional : w.peers.req = false) (free : w.pins key = none)
    (still : (pkrGet w.peers.kr key).kchanged = false) : GotFits cr w key .asIs := by
  intro output member
  obtain rfl := List.mem_singleton.mp member
  exact ⟨optional, free, still⟩

theorem e2eIn_fits {k : Contact} {text : Text} {rid kind now : Nat} {refeeding sent : Bool}
    (sound : WorldSound cr w) :
      Quiet cr w.peers (e2eIn cr w.peers k text rid kind refeeding now sent).2 ∧
      GotFits cr w (ckey k) (e2eIn cr w.peers k text rid kind refeeding now sent).1 := by
  rw [e2eIn]
  have same := sound.table.asked k now sent
    (decide ((pkrGet (pkr w.peers.kr (ckey k)) (ckey k)).kchecked = false ∧ refeeding = false))
  simp only [decide_eq_true_eq] at same
  simp only
  obtain ⟨kr', isKr⟩ :
    ∃ kr', (if (pkrGet (pkr w.peers.kr (ckey k)) (ckey k)).kchecked = false ∧ refeeding = false then
    e2eRequestKey (pkr w.peers.kr (ckey k)) k now sent
      else pkr w.peers.kr (ckey k)) = kr' := ⟨_, rfl⟩
  rw [isKr] at same ⊢
  have quiet : Quiet cr w.peers { w.peers with kr := kr' } := same.quiet
  split
  · exact ⟨quiet, gotFits_silent rfl⟩
  · split
    · refine ⟨quiet, ?_⟩
      cases refeeding <;> exact gotFits_silent rfl
    next still =>
      obtain ⟨isPinned, isFree, unchanged⟩ := @WorldSound.fits Own cr w (ckey k) kr' sound same (by simpa using still)
      split
      · refine ⟨quiet, ?_⟩
        split
        · exact gotFits_silent rfl
        next optional =>
          rw [not_or] at optional
          exact gotFits_plain (by simpa using optional.1) (isFree (by simpa using optional.2)) unchanged
      · split
        · exact ⟨quiet, gotFits_silent rfl⟩
        next has =>
          rw [not_or] at has
          split
          next => exact ⟨quiet, gotFits_opened (isPinned (by simpa using has.2)) unchanged⟩
          next =>
            split
            · refine ⟨(same.trans (same.sound.lookAgain (ckey k) now _)).quiet, ?_⟩
              split <;> exact gotFits_silent rfl
            · exact ⟨quiet, gotFits_silent rfl⟩
          next => exact ⟨quiet, gotFits_silent rfl⟩

theorem lanIn_fits {k : Contact} {text : Text} {rid kind now : Nat} {sent : Bool}
    (sound : WorldSound cr w) : Quiet cr w.peers (lanIn cr w.peers k text rid kind now sent).2 ∧
      GotFits cr w (ckey k) (lanIn cr w.peers k text rid kind now sent).1 := by
  have same := sound.table.pkr (ckey k)
  have quiet : Quiet cr w.peers { w.peers with kr := pkr w.peers.kr (ckey k) } := same.quiet
  rw [lanIn]
  split
  · exact ⟨(same.trans (same.sound.requestKey k now sent)).quiet, gotFits_silent rfl⟩
  · split
    · exact ⟨quiet, gotFits_silent rfl⟩
    next still =>
      obtain ⟨isPinned, isFree, unchanged⟩ := @WorldSound.fits Own cr w (ckey k) _ sound same (by simpa using still)
      split
      · refine ⟨quiet, ?_⟩
        split
        · exact gotFits_silent rfl
        next optional =>
          rw [not_or] at optional
          exact gotFits_plain (by simpa using optional.1) (isFree (by simpa using optional.2)) unchanged
      · split
        · exact ⟨quiet, gotFits_silent rfl⟩
        next has =>
          rw [not_or] at has
          split
          next => exact ⟨quiet, gotFits_opened (isPinned (by simpa using has.2)) unchanged⟩
          next =>
            split
            · exact ⟨(same.trans (same.sound.lookAgain (ckey k) now _)).quiet, gotFits_silent rfl⟩
            · exact ⟨quiet, gotFits_silent rfl⟩
          next => exact ⟨quiet, gotFits_silent rfl⟩

theorem plainDelRefused_fits {k : Contact} (sound : WorldSound cr w) :
    Quiet cr w.peers (plainDelRefused w.peers k).2 ∧
      ((plainDelRefused w.peers k).1 = false → (Output.plainDelete (ckey k)).Fits cr w) := by
  rw [plainDelRefused]
  split
  · exact ⟨(SameKeys.refl sound.table).quiet, nofun⟩
  next optional =>
    have same := sound.table.pkr (ckey k)
    refine ⟨same.quiet, fun lacks => ?_⟩
    have lacks := (same.get sound.table (ckey k)).1.symm.trans lacks
    exact ⟨by simpa using optional, sound.unpinned lacks⟩

section

variable {call : PeerCall Own}

theorem PeersSound.shows {view : KeyView} (sound : PeersSound cr s)
    (isView : keyView s.kr key = some view) :
      (pkrGet s.kr key).hasKb = true ∧ (pkrGet s.kr key).kfp = view.kfp ∧
      (pkrGet s.kr key).kb = view.kb ∧ (pkrGet s.kr key).kchanged = view.kchanged ∧
      cr.fp view.kb = view.kfp := by
  have shown := sound.table.get key
  simp only [isView] at shown
  exact shown.2

theorem PeersSound.view (sound : PeersSound cr s) (has : (pkrGet s.kr key).hasKb = true) :
    ∃ view, keyView s.kr key = some view := by
  cases isView : keyView s.kr key with
  | some view => exact ⟨view, rfl⟩
  | none =>
      have shown := sound.table.get key
      simp only [isView] at shown
      exact nomatch shown.2.1.symm.trans has

theorem still_rule (sound : WorldSound cr w) (unanswered : answered cr w.peers call = none)
    (unaccepted : accepted cr w.peers call = none)
    (sound' : PeersSound cr (peerStep cr w call).peers)
      (views : ∀ key, ∃ forget : KeyView → Bool, keyView (peerStep cr w call).peers.kr key =
      (keyView w.peers.kr key).map fun view => { view with kchanged := forget view })
    (outputs : ∀ output ∈ (peerCall cr w.peers call).1, output.Fits cr w) :
    WorldSound cr (peerStep cr w call) ∧ PinRule cr w call := by
  refine ⟨⟨sound', fun key => ?_⟩, outputs, fun uid b fp isAnswer => ?_, fun uid has _ => ?_⟩
  · have pins : (peerStep cr w call).pins key = w.pins key := by
      change pinStep cr w call key = _
      rw [pinStep, unanswered, unaccepted]
    obtain ⟨forget, isView⟩ := views key
    rw [pins, sound.pins, isView, Option.map_map]
    rfl
  · rw [unanswered] at isAnswer
    cases isAnswer
  · obtain ⟨view, isView⟩ := sound.toPeersSound.view has
    obtain ⟨forget, isAfter⟩ := views uid
    rw [isView, Option.map_some] at isAfter
    obtain ⟨-, -, isKb, -⟩ := sound.toPeersSound.shows isView
    obtain ⟨has', -, isKb', -⟩ := sound'.shows isAfter
    exact ⟨has', by rw [isKb', isKb], by rw [isKb', isKb]⟩

theorem same_views (same : ∀ key, keyView kr' key = keyView kr key) (key : Text) :
    ∃ forget : KeyView → Bool, keyView kr' key = (keyView kr key).map fun view =>
    { view with kchanged := forget view } := by
  refine ⟨KeyView.kchanged, ?_⟩
  rw [same]
  cases keyView kr key <;> rfl

theorem quiet_rule (sound : WorldSound cr w) (unanswered : answered cr w.peers call = none)
    (unaccepted : accepted cr w.peers call = none)
    (quiet : Quiet cr w.peers (peerCall cr w.peers call).2)
    (outputs : ∀ output ∈ (peerCall cr w.peers call).1, output.Fits cr w) :
    WorldSound cr (peerStep cr w call) ∧ PinRule cr w call :=
  still_rule sound unanswered unaccepted (quiet.sound sound.toPeersSound)
    (same_views quiet.keys.view) outputs

theorem answer_rule {b64 : Text} {now : Nat} (sound : WorldSound cr w)
    (isCall : peerCall cr w.peers call = ([], e2eOnKey cr w.peers uid b64 now))
    (waits : (pkrGet w.peers.kr uid).kwait = true)
    (isAnswer : answered cr w.peers call = (cr.answer b64).map (uid, ·))
    (unaccepted : accepted cr w.peers call = none) :
    WorldSound cr (peerStep cr w call) ∧ PinRule cr w call := by
  obtain ⟨sound', others, taken⟩ :=
    @e2eOnKey_keys Own cr w.peers uid b64 now sound.toPeersSound waits
  have isStep : (peerStep cr w call).peers = e2eOnKey cr w.peers uid b64 now :=
    congrArg Prod.snd isCall
  have isPins (key : Text) : (peerStep cr w call).pins key = pinStep cr w call key := rfl
  have silent : ∀ output ∈ (peerCall cr w.peers call).1, output.Fits cr w := by
    rw [isCall]
    exact fun _ member => nomatch member
  rw [← isStep] at sound' others taken
  cases isBundle : cr.answer b64 with
  | none =>
      simp only [isBundle] at taken
      rw [isBundle] at isAnswer
      have view (key : Text) : keyView (peerStep cr w call).peers.kr key = keyView w.peers.kr key := by
        by_cases isUid : key = uid
        · rw [isUid, taken]
        · exact others key isUid
      exact still_rule sound isAnswer unaccepted sound' (same_views view) silent
  | some nb =>
      simp only [isBundle] at taken
      rw [isBundle, Option.map_some] at isAnswer
      refine ⟨⟨sound', fun key => ?_⟩, silent, fun other b fp isSome pinned isOther => ?_, fun key has _ => ?_⟩
      · rw [isPins, pinStep, isAnswer, sound.pins]
        by_cases isUid : key = uid
        · subst isUid
          cases isView : keyView w.peers.kr key with
          | none =>
              simp only [isView, viewTaken] at taken
              rw [taken]
              simp
          | some view =>
              simp only [isView, viewTaken] at taken
              split at taken
              · obtain ⟨kb, isKb, -, -⟩ := taken
                rw [isKb]
                simp
              · rw [taken]
                simp
        · rw [others key isUid]
          simp [isUid]
      · rw [isAnswer] at isSome
        obtain ⟨rfl, rfl⟩ := Prod.mk.inj (Option.some.inj isSome)
        rw [sound.pins] at pinned
        cases isView : keyView w.peers.kr uid with
        | none =>
            rw [isView] at pinned
            cases pinned
        | some view =>
            rw [isView] at pinned
            obtain rfl := Option.some.inj pinned
            simp only [isView, viewTaken] at taken
            rw [if_neg isOther] at taken
            obtain ⟨-, isFp, isKb, -⟩ := sound.toPeersSound.shows isView
            obtain ⟨-, isFp', isKb', isChanged, -⟩ := sound'.shows taken
            exact ⟨isChanged, isFp'.trans isFp.symm, isKb'.trans isKb.symm⟩
      · obtain ⟨before, isBefore⟩ := sound.toPeersSound.view has
        obtain ⟨-, -, isKb, -, isFp⟩ := sound.toPeersSound.shows isBefore
        by_cases isUid : key = uid
        · subst isUid
          simp only [isBefore, viewTaken] at taken
          split at taken
          · obtain ⟨kb, isAfter, isFp', newer⟩ := taken
            obtain ⟨has', -, isKb', -⟩ := sound'.shows isAfter
            exact ⟨has', by rw [isKb', isKb, isFp', isFp], by rw [isKb', isKb]; exact newer⟩
          · obtain ⟨has', -, isKb', -⟩ := sound'.shows taken
            exact ⟨has', by rw [isKb', isKb], by rw [isKb', isKb]⟩
        · obtain ⟨has', -, isKb', -⟩ := sound'.shows ((others key isUid).trans isBefore)
          exact ⟨has', by rw [isKb', isKb], by rw [isKb', isKb]⟩

theorem trust_rule {fp8 : Option Text} (sound : WorldSound cr w) :
    WorldSound cr (peerStep cr w (.trust uid fp8)) ∧ PinRule cr w (.trust uid fp8) := by
  obtain ⟨sound', others, taken⟩ := @e2eTrustUid_keys Own cr w.peers uid fp8 sound.toPeersSound
  have isPins (key : Text) :
    (peerStep cr w (.trust uid fp8)).pins key = pinStep cr w (.trust uid fp8) key := rfl
  have isAccepted : accepted cr w.peers (.trust uid fp8) = if (pkrGet w.peers.kr uid).kchanged ∧
      fpMatches cr (pkrGet w.peers.kr uid).knb fp8
      then some (uid, cr.fp (pkrGet w.peers.kr uid).knb) else none := rfl
  by_cases accepts : (pkrGet w.peers.kr uid).kchanged ∧ fpMatches cr (pkrGet w.peers.kr uid).knb fp8
  · rw [if_pos accepts] at taken isAccepted
    refine ⟨⟨sound', fun key => ?_⟩, fun _ member => (nomatch member),
      fun _ _ _ isAnswer => (nomatch isAnswer), fun key has unaccepted => ?_⟩
    · rw [isPins, pinStep, isAccepted]
      simp only [answered]
      by_cases isUid : key = uid
      · rw [if_pos isUid, isUid]
        exact (congrArg (Option.map KeyView.kfp) taken).symm
      · rw [if_neg isUid, sound.pins]
        exact (congrArg (Option.map KeyView.kfp) (others key isUid)).symm
    · have isUid : key ≠ uid := by
        rintro rfl
        exact unaccepted _ isAccepted
      obtain ⟨view, isView⟩ := sound.toPeersSound.view has
      obtain ⟨-, -, isKb, -⟩ := sound.toPeersSound.shows isView
      obtain ⟨has', -, isKb', -⟩ := sound'.shows ((others key isUid).trans isView)
      exact ⟨has', congrArg cr.fp (isKb'.trans isKb.symm), Nat.le_of_eq (congrArg Bundle.spkId (isKb'.trans isKb.symm)).symm⟩
  · rw [if_neg accepts] at taken isAccepted
    refine still_rule sound rfl isAccepted sound' (same_views fun key => ?_) fun _ member =>
      (nomatch member)
    by_cases isUid : key = uid
    · rw [isUid]
      exact taken
    · exact others key isUid

theorem kwait_pkr (kr : List Pkey) (uid : Text) :
    (pkrGet kr uid).kwait = true ∧ pkr kr uid = kr ∨ (pkrGet kr uid).kwait = false := by
  cases found : pkrFind kr uid with
  | none => exact .inr (by rw [pkrGet, found]; rfl)
  | some p =>
      rw [pkr, if_pos (.inl (by rw [found]; rfl))]
      cases (pkrGet kr uid).kwait <;> simp

theorem kwait_placed (waits : (pkrGet kr uid).kwait = false) :
    (pkrGet (pkr kr uid) uid).kwait = false := by
  cases found : pkrFind kr uid with
  | some p =>
      rw [pkr, if_pos (.inl (by rw [found]; rfl))]
      exact waits
  | none =>
      rw [pkrGet]
      cases isEntry : pkrFind (pkr kr uid) uid with
      | none => rfl
      | some p =>
          obtain ⟨member, isUid, short⟩ := mem_of_pkrFind isEntry
          rcases mem_pkr member with old | ⟨rfl, -⟩
          · exact absurd isUid (not_mem_of_pkrFind found short old)
          · rfl

theorem peerStep_rule (sound : WorldSound cr w) (permitted : peerCondition w call) :
    WorldSound cr (peerStep cr w call) ∧ PinRule cr w call := by
  have quiet := (SameKeys.refl sound.table).quiet
  have silent : ∀ output ∈ ([] : List Output), output.Fits cr w := fun _ member => nomatch member
  cases call with
  | key uid b64 now =>
      by_cases waits : (pkrGet w.peers.kr uid).kwait = true
      · exact answer_rule sound (by rw [peerCall, if_pos waits]) waits (by rw [answered, if_pos waits]) rfl
      · refine quiet_rule sound (by rw [answered, if_neg waits]) rfl ?_ silent
        rw [peerCall, if_neg waits]
        exact quiet
  | lanKey k b64 now =>
      rcases kwait_pkr w.peers.kr (ckey k) with ⟨waits, placed⟩ | idle
      · have isCall : peerCall cr w.peers (.lanKey k b64 now) = ([], e2eOnKey cr w.peers (ckey k) b64 now) := by
          rw [peerCall, placed]
          rw [if_pos waits]
        exact answer_rule sound isCall waits (by rw [answered, if_pos waits]) rfl
      · refine quiet_rule sound (by rw [answered, if_neg (by simp [idle])]) rfl ?_ silent
        rw [peerCall]
        rw [if_neg (by simp [kwait_placed idle])]
        exact (sound.table.pkr (ckey k)).quiet
  | timeout uid now =>
      by_cases due : (pkrGet w.peers.kr uid).kwait = true ∧ 8000 < since now (pkrGet w.peers.kr uid).kreqMs
      · exact answer_rule sound (by rw [peerCall, if_pos due]) due.1 rfl rfl
      · refine quiet_rule sound rfl rfl ?_ silent
        rw [peerCall, if_neg due]
        exact quiet
  | request uid now sent =>
    exact quiet_rule sound rfl rfl (sound.table.requestUid uid now sent).quiet silent
  | requestContact k now sent =>
    exact quiet_rule sound rfl rfl (sound.table.requestKey k now sent).quiet silent
  | lookAgain uid now sent =>
      have placed := sound.table.pkr uid
      exact quiet_rule sound rfl rfl (placed.trans (placed.sound.lookAgain uid now sent)).quiet silent
  | send k id kind plain now sent =>
      exact quiet_rule sound rfl rfl (e2eWire_quiet sound.toPeersSound) (e2eWire_fits sound permitted)
  | msgIn k text rid kind refeeding now sent =>
      obtain ⟨quiet, fits⟩ := @e2eIn_fits Own cr w k text rid kind now refeeding sent sound
      exact quiet_rule sound rfl rfl quiet fits
  | lanMsgIn k text rid kind now sent =>
      obtain ⟨quiet, fits⟩ := @lanIn_fits Own cr w k text rid kind now sent sound
      exact quiet_rule sound rfl rfl quiet fits
  | delIn k =>
      obtain ⟨quiet, fits⟩ := @plainDelRefused_fits Own cr w k sound
      refine quiet_rule sound rfl rfl quiet fun output member => ?_
      rw [peerCall] at member
      simp only at member
      split at member
      next => cases member
      next taken =>
        obtain rfl := List.mem_singleton.mp member
        exact fits (by simpa using taken)
  | trust uid fp8 => exact trust_rule sound
  | verify uid =>
      obtain ⟨sound', views⟩ := @e2eVerifyUid_keys Own cr w.peers uid sound.toPeersSound
      exact still_rule sound rfl rfl sound' (same_views views) silent
  | require on => exact quiet_rule sound rfl rfl ⟨SameKeys.refl sound.table, rfl, rfl⟩ silent
  | maintain own => exact quiet_rule sound rfl rfl ⟨SameKeys.refl sound.table, rfl, rfl⟩ silent
  | restart ready own =>
      obtain ⟨table, file, views⟩ := sound.table.reload permitted
      have isFile : w.peers.file = e2eSavePeers w.peers.kr := sound.file
      refine still_rule sound rfl rfl ⟨?_, ?_⟩ (fun key => ⟨fun _ => false, ?_⟩) silent
      · rw [← isFile] at table
        exact table
      · rw [← isFile] at file
        exact file.symm
      · rw [← isFile] at views
        exact views key

theorem WorldSound.quiet (sound : WorldSound cr w) (quiet : Quiet cr w.peers s') :
    WorldSound cr ⟨s', w.pins⟩ := by
  refine ⟨quiet.sound sound.toPeersSound, fun key => ?_⟩
  rw [sound.pins, quiet.keys.view]

theorem peerStep_sound (sound : WorldSound cr w)
    (permitted : ∀ ready own, call = .restart ready own → ∀ p ∈ w.peers.kr, p.ks ≠ 0 →
    plainId p.uid = true) : WorldSound cr (peerStep cr w call) := by
  cases call with
  | send k id kind plain now sent => exact sound.quiet (e2eWire_quiet sound.toPeersSound)
  | restart ready own =>
      have condition : peerCondition w (.restart ready own) := permitted ready own rfl
      exact (peerStep_rule sound condition).1
  | _ =>
      refine (peerStep_rule sound ?_).1
      exact trivial

theorem runs_keep_pins {calls : List (PeerCall Own)} (sound : WorldSound cr w)
    (permitted : StepsAllowed (peerStep cr) peerCondition w calls) :
    StepsAllowed (peerStep cr) (PinRule cr) w calls := by
  induction calls generalizing w with
  | nil => trivial
  | cons call calls ih =>
      obtain ⟨sound', rule⟩ := peerStep_rule sound permitted.1
      exact ⟨rule, ih sound' permitted.2⟩

theorem freshWorld_sound (noKeys : s.kr = []) (noFile : s.file = []) :
    WorldSound cr ⟨s, fun _ => none⟩ := by
  refine ⟨⟨⟨?_, ?_, ?_, ?_⟩, ?_⟩, fun key => ?_⟩
  · rw [noKeys]
    exact List.nodup_nil
  · rw [noKeys]
    exact fun _ member => nomatch member
  · rw [noKeys]
    exact Nat.zero_le _
  · rw [noKeys]
    exact fun _ member => nomatch member
  · rw [noKeys, noFile]
    rfl
  · have absent : pkrFind ([] : List Pkey) key = none := by
      rw [pkrFind]
      split <;> rfl
    rw [noKeys, keyView, absent]
    rfl

/-- In a run that starts without keys, and whose steps meet the condition, every step keeps to the
pinned identities. -/
theorem pinned_identities_kept (cr : Crypto Own) (s : Peers Own) (calls : List (PeerCall Own))
    (noKeys : s.kr = []) (noFile : s.file = [])
    (permitted : StepsAllowed (peerStep cr) peerCondition ⟨s, fun _ => none⟩ calls) :
    StepsAllowed (peerStep cr) (PinRule cr) ⟨s, fun _ => none⟩ calls :=
  runs_keep_pins (freshWorld_sound noKeys noFile) permitted

end

def openCrypto : Crypto Unit where
  bundleVerify b := b.ikSg.head? = some 4
  fingerprint dh _ := (dh ++ List.replicate 32 0).take 32
  fingerprint_length dh _ := by simp
  encrypt _ _ _ plain := some plain
  decrypt _ _ _ _ := .malformed

def bundleText (first : Char) : Text :=
  first :: (List.replicate 42 'A' ++ 'E' :: List.replicate 219 'A')

def newClient : Peers Unit := ⟨"me".toList, 0, (), true, true, [], []⟩

def bob : Contact := ⟨0, "bob".toList⟩

def blankBob : Contact := ⟨0, " bob".toList⟩

theorem pinned_identities_kept_restart :
    StepsAllowed (peerStep openCrypto) (PinRule openCrypto) ⟨newClient, fun _ => none⟩
    [.requestContact bob 1 true, .key bob.uid (bundleText 'A') 2, .restart true (),
      .requestContact bob 3 true, .key bob.uid (bundleText 'B') 4, .send bob 1 0 "hi".toList 5 true,
      .trust bob.uid none, .send bob 1 0 "hi".toList 6 true] :=
  pinned_identities_kept openCrypto newClient _ rfl rfl (by set_option maxRecDepth 100000 in decide)

/-- The file of the keys is read back with the blank gone: the server gives somebody else's identity
to a pinned friend. -/
theorem blank_name_takes_pin :
    ¬ StepsAllowed (peerStep openCrypto) (PinRule openCrypto) ⟨newClient, fun _ => none⟩
    [.requestContact bob 1 true, .key bob.uid (bundleText 'A') 2, .requestContact blankBob 3 true,
      .key blankBob.uid (bundleText 'B') 4, .restart true (), .requestContact bob 5 true,
      .key bob.uid (bundleText 'B') 6, .send bob 1 0 "hi".toList 7 true] := by
  intro allowed
  have rule := allowed.2.2.2.2.2.2.2.1
  have other := (rule.outputs (.cipher bob.uid ((readBundle (bundleText 'B')).getD .zero))
    (by set_option maxRecDepth 100000 in decide)).1
  exact absurd other (by set_option maxRecDepth 100000 in decide)

-- A client that cannot encrypt writes plain text to a friend whose key it knows.
example : (peerCall openCrypto (runSteps (peerStep openCrypto) ⟨newClient, fun _ => none⟩ [.requestContact bob 1 true,
    .key bob.uid (bundleText 'A') 2, .require false,
      .restart false ()]).peers (.send bob 1 0 "hi".toList 3 true)).1 = [.plain bob.uid] := by
  decide

end Cos.Messenger
