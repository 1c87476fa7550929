import Cos.Messenger.Peers

/-! # The table and its file

Only pinned entries matter: they are what the file holds, and looking somebody up never takes one
away.
-/

namespace Cos.Messenger

open Cos.Lib

variable {kr : List Pkey} {p : Pkey} {uid key : Text} {change : Pkey → Pkey}

def pinnedOf (kr : List Pkey) : List Pkey := kr.filter (·.ks ≠ 0)

theorem e2eSavePeers_eq (kr : List Pkey) :
    e2eSavePeers kr = ((pinnedOf kr).map peerText).flatMap (· ++ ['\n']) := rfl

theorem mem_of_pkrFind (found : pkrFind kr uid = some p) :
    p ∈ kr ∧ p.uid = uid ∧ uid.length < 12 := by
  rw [pkrFind] at found
  split at found
  next => cases found
  next short => exact ⟨List.mem_of_find?_eq_some found, by simpa using List.find?_some found, by omega⟩

theorem not_mem_of_pkrFind (absent : pkrFind kr uid = none) (short : uid.length < 12)
    (member : p ∈ kr) : p.uid ≠ uid := by
  rw [pkrFind, if_neg (by omega)] at absent
  simpa using List.find?_eq_none.mp absent p member

theorem pkrFind_of_mem (distinct : (kr.map Pkey.uid).Nodup) (member : p ∈ kr)
    (short : p.uid.length < 12) : pkrFind kr p.uid = some p := by
  rw [pkrFind, if_neg (by omega)]
  cases isFound : kr.find? (·.uid = p.uid) with
  | none =>
      have absent := List.find?_eq_none.mp isFound p member
      simp at absent
  | some other =>
      have same : other.uid = p.uid := by simpa using List.find?_some isFound
      rw [List.inj_on_of_nodup_map distinct (List.mem_of_find?_eq_some isFound) member same]

theorem pinned_mem (found : pkrFind kr uid = some p) (pinned : p.ks ≠ 0) : p ∈ pinnedOf kr :=
  List.mem_filter.mpr ⟨(mem_of_pkrFind found).1, by simpa using pinned⟩

theorem pkrReuse_length (uid : Text) (kr : List Pkey) : (pkrReuse uid kr).length = kr.length := by
  induction kr with
  | nil => rfl
  | cons first rest ih =>
      rw [pkrReuse]
      split
      · rfl
      · rw [List.length_cons, List.length_cons, ih]

theorem pinnedOf_reuse (uid : Text) (kr : List Pkey) :
    pinnedOf (pkrReuse uid kr) = pinnedOf kr := by
  induction kr with
  | nil => rfl
  | cons first rest ih =>
      rw [pkrReuse]
      split
      next free => simp [pinnedOf, Pkey.blank, free.1]
      next => simp only [pinnedOf, List.filter_cons] at ih ⊢
              rw [ih]

theorem pinnedOf_pkr (uid : Text) (kr : List Pkey) : pinnedOf (pkr kr uid) = pinnedOf kr := by
  rw [pkr]
  split
  · rfl
  · split
    · simp [pinnedOf, Pkey.blank]
    · exact pinnedOf_reuse uid kr

theorem mem_pkr (member : p ∈ pkr kr uid) : p ∈ kr ∨ p = .blank uid ∧ uid.length < 12 := by
  have reuse (kr : List Pkey) (member : p ∈ pkrReuse uid kr) : p ∈ kr ∨ p = .blank uid := by
    induction kr with
    | nil => cases member
    | cons first rest ih =>
        rw [pkrReuse] at member
        split at member
        · rcases List.mem_cons.mp member with isBlank | member
          · exact .inr isBlank
          · exact .inl (List.mem_cons_of_mem _ member)
        · rcases List.mem_cons.mp member with isFirst | member
          · exact .inl (isFirst ▸ List.mem_cons_self)
          · exact (ih member).imp_left (List.mem_cons_of_mem _)
  rw [pkr] at member
  split at member
  next => exact .inl member
  next new =>
    split at member
    · rcases List.mem_append.mp member with member | member
      · exact .inl member
      · exact .inr ⟨List.mem_singleton.mp member, by omega⟩
    · exact (reuse kr member).imp_right fun isBlank => ⟨isBlank, by omega⟩

theorem pkr_distinct (distinct : (kr.map Pkey.uid).Nodup) : ((pkr kr uid).map Pkey.uid).Nodup := by
  have reuse (kr : List Pkey) (distinct : (kr.map Pkey.uid).Nodup) (fresh : uid ∉ kr.map Pkey.uid) :
      ((pkrReuse uid kr).map Pkey.uid).Nodup ∧ ∀ other ∈ (pkrReuse uid kr).map Pkey.uid, other ∈ kr.map Pkey.uid ∨ other = uid := by
    induction kr with
    | nil => exact ⟨distinct, fun _ member => nomatch member⟩
    | cons first rest ih =>
        rw [List.map_cons, List.nodup_cons] at distinct
        rw [List.map_cons, List.mem_cons, not_or] at fresh
        obtain ⟨later, from'⟩ := ih distinct.2 fresh.2
        rw [pkrReuse]
        split
        · rw [List.map_cons, List.nodup_cons]
          refine ⟨⟨fresh.2, distinct.2⟩, fun other member => ?_⟩
          rcases List.mem_cons.mp member with rfl | member
          · exact .inr rfl
          · exact .inl (List.mem_cons_of_mem _ member)
        · rw [List.map_cons, List.nodup_cons]
          refine ⟨⟨fun inside => ?_, later⟩, fun other member => ?_⟩
          · exact (from' first.uid inside).elim distinct.1 fun isUid => fresh.1 isUid.symm
          · rcases List.mem_cons.mp member with rfl | member
            · exact .inl List.mem_cons_self
            · exact (from' other member).imp_left (List.mem_cons_of_mem _)
  rw [pkr]
  split
  next => exact distinct
  next new =>
    rw [not_or] at new
    have absent : pkrFind kr uid = none := by simpa using new.1
    have fresh : uid ∉ kr.map Pkey.uid := by
      intro inside
      obtain ⟨p, member, isUid⟩ := List.mem_map.mp inside
      exact not_mem_of_pkrFind absent (by omega) member isUid
    split
    · rw [List.map_append, List.nodup_append]
      refine ⟨distinct, by simp, fun other inside last isLast => ?_⟩
      obtain rfl : last = uid := by simpa [Pkey.blank] using isLast
      rintro rfl
      exact fresh inside
    · exact (reuse kr distinct fresh).1

theorem pkr_size (size : kr.length ≤ krMax) : (pkr kr uid).length ≤ krMax := by
  rw [pkr]
  split
  · exact size
  · split
    · rw [List.length_append, List.length_singleton]
      omega
    · rw [pkrReuse_length]
      exact size

section

variable (keeps : ∀ p, (change p).uid = p.uid)

include keeps

theorem pkrSet_uids : (pkrSet uid change kr).map Pkey.uid = kr.map Pkey.uid := by
  induction kr with
  | nil => rfl
  | cons first rest ih =>
      rw [pkrSet]
      split
      · rw [List.map_cons, List.map_cons, keeps]
      · rw [List.map_cons, List.map_cons, ih]

theorem pkrFind_set : pkrFind (pkrSet uid change kr) uid = (pkrFind kr uid).map change := by
  rw [pkrFind, pkrFind]
  split
  · rfl
  · induction kr with
    | nil => rfl
    | cons first rest ih =>
        rw [pkrSet]
        by_cases isUid : first.uid = uid
        · rw [if_pos isUid, List.find?_cons_of_pos (by simp [keeps, isUid]), List.find?_cons_of_pos (by simpa using isUid)]
          rfl
        · rw [if_neg isUid, List.find?_cons_of_neg (by simpa using isUid), List.find?_cons_of_neg (by simpa using isUid)]
          exact ih

theorem pkrFind_set_other (different : key ≠ uid) :
    pkrFind (pkrSet uid change kr) key = pkrFind kr key := by
  rw [pkrFind, pkrFind]
  split
  · rfl
  · induction kr with
    | nil => rfl
    | cons first rest ih =>
        rw [pkrSet]
        by_cases isUid : first.uid = uid
        · rw [if_pos isUid, List.find?_cons_of_neg (by simpa [keeps, isUid] using different.symm),
            List.find?_cons_of_neg (by simpa [isUid] using different.symm)]
        · rw [if_neg isUid, List.find?_cons, List.find?_cons]
          split
          · rfl
          · exact ih

end

theorem pkrSet_length : (pkrSet uid change kr).length = kr.length := by
  induction kr with
  | nil => rfl
  | cons first rest ih =>
      rw [pkrSet]
      split
      · rfl
      · rw [List.length_cons, List.length_cons, ih]

theorem mem_pkrSet {q : Pkey} (member : q ∈ pkrSet uid change kr) :
    q ∈ kr ∨ ∃ p ∈ kr, p.uid = uid ∧ q = change p := by
  induction kr with
  | nil => cases member
  | cons first rest ih =>
      rw [pkrSet] at member
      split at member
      next isUid =>
        rcases List.mem_cons.mp member with isFirst | member
        · exact .inr ⟨first, List.mem_cons_self, isUid, isFirst⟩
        · exact .inl (List.mem_cons_of_mem _ member)
      next =>
        rcases List.mem_cons.mp member with isFirst | member
        · exact .inl (isFirst ▸ List.mem_cons_self)
        · rcases ih member with member | ⟨p, member, isUid, isChange⟩
          · exact .inl (List.mem_cons_of_mem _ member)
          · exact .inr ⟨p, List.mem_cons_of_mem _ member, isUid, isChange⟩

theorem savePeers_set (same : ∀ p ∈ kr, p.uid = uid →
    (change p).ks = p.ks ∧
    peerText (change p) = peerText p) : e2eSavePeers (pkrSet uid change kr) = e2eSavePeers kr := by
  have lines : ((pkrSet uid change kr).filter (·.ks ≠ 0)).map peerText =
    (kr.filter (·.ks ≠ 0)).map peerText := by
    induction kr with
    | nil => rfl
    | cons first rest ih =>
        rw [pkrSet]
        split
        next isUid =>
          obtain ⟨sameKs, sameText⟩ := same first List.mem_cons_self isUid
          rw [List.filter_cons, List.filter_cons, sameKs]
          split
          · rw [List.map_cons, List.map_cons, sameText]
          · rfl
        next =>
          have ih := ih fun p member => same p (List.mem_cons_of_mem _ member)
          rw [List.filter_cons, List.filter_cons]
          split
          · rw [List.map_cons, List.map_cons, ih]
          · exact ih
  rw [e2eSavePeers, e2eSavePeers, lines]

theorem savePeers_pkr (uid : Text) (kr : List Pkey) :
    e2eSavePeers (pkr kr uid) = e2eSavePeers kr := by
  rw [e2eSavePeers_eq, e2eSavePeers_eq, pinnedOf_pkr]

theorem hexVal_digitChar :
    ∀ value < 16, hexVal (Nat.digitChar value) = some value ∧ Nat.digitChar value ≠ '+' ∧
    Nat.digitChar value ≠ '-' ∧ isspace (Nat.digitChar value) = false ∧
    Nat.digitChar value ≠ '\n' := by
  decide

theorem hexOf_cons (byte : UInt8) (bytes : List UInt8) :
    hexOf (byte :: bytes) =
    Nat.digitChar (byte.toNat / 16) :: Nat.digitChar (byte.toNat % 16) :: hexOf bytes := rfl

theorem hexOf_length (bytes : List UInt8) : (hexOf bytes).length = bytes.length * 2 := by
  induction bytes with
  | nil => rfl
  | cons byte rest ih =>
      rw [hexOf_cons, List.length_cons, List.length_cons, List.length_cons, ih]
      omega

theorem hexOf_unbroken (bytes : List UInt8) : ∀ c ∈ hexOf bytes, isspace c = false := by
  induction bytes with
  | nil => exact fun _ member => nomatch member
  | cons byte rest ih =>
      have small : byte.toNat < 256 := byte.toNat_lt
      intro c member
      rcases List.mem_cons.mp member with rfl | member
      · exact (hexVal_digitChar (byte.toNat / 16) (by omega)).2.2.2.1
      · rcases List.mem_cons.mp member with rfl | member
        · exact (hexVal_digitChar (byte.toNat % 16) (by omega)).2.2.2.1
        · exact ih c member

theorem hexTo_hexOf (bytes : List UInt8) : hexTo bytes.length (hexOf bytes) = bytes := by
  induction bytes with
  | nil => rfl
  | cons byte rest ih =>
      have small : byte.toNat < 256 := byte.toNat_lt
      obtain ⟨high, plus, minus, -⟩ := hexVal_digitChar (byte.toNat / 16) (by omega)
      obtain ⟨low, -⟩ := hexVal_digitChar (byte.toNat % 16) (by omega)
      have pair : hexPair (Nat.digitChar (byte.toNat / 16)) (Nat.digitChar (byte.toNat % 16)) = some byte.toNat := by
        rw [hexPair, if_neg plus, if_neg minus, high, low]
        exact congrArg some (Nat.div_add_mod byte.toNat 16)
      rw [hexOf_cons, List.length_cons, hexTo, pair, ih]
      exact congrArg (· :: rest) (UInt8.ofNat_toNat)

theorem scanWord_blank (width : Nat) (text : Text) :
    scanWord width (' ' :: text) = scanWord width text := by
  rw [scanWord, scanWord, List.dropWhile_cons_of_pos (by decide)]

theorem dropWhile_word {word rest : Text} (some : word ≠ [])
    (unbroken : ∀ c ∈ word, isspace c = false) :
    (word ++ rest).dropWhile isspace = word ++ rest := by
  cases word with
  | nil => exact absurd rfl some
  | cons c word =>
      exact List.dropWhile_cons_of_neg (by simp [unbroken c List.mem_cons_self])

theorem scanWord_append {width : Nat} {word rest : Text} (some : word ≠ [])
    (unbroken : ∀ c ∈ word, isspace c = false) (fits : word.length ≤ width) :
    scanWord width (word ++ ' ' :: rest) = .some (word, ' ' :: rest) := by
  rw [scanWord, dropWhile_word some unbroken]
  cases word with
  | nil => exact absurd rfl some
  | cons c word =>
      have scanned := @scanPart_append _ isspace (c :: word) rest ' ' unbroken (by decide)
      simp only [List.cons_append] at scanned ⊢
      rw [scanned]
      rw [List.take_of_length_le fits, ← List.cons_append, List.drop_left]

theorem scanWord_last {width : Nat} {word : Text} (some : word ≠ [])
    (unbroken : ∀ c ∈ word, isspace c = false) (fits : word.length ≤ width) :
    scanWord width word = .some (word, []) := by
  have whole := @dropWhile_word word [] some unbroken
  rw [List.append_nil] at whole
  rw [scanWord, whole]
  cases word with
  | nil => exact absurd rfl some
  | cons c word =>
      simp only
      rw [scanPart_all unbroken, List.take_of_length_le fits, List.drop_length]

def Pkey.reload (p : Pkey) : Pkey :=
  { Pkey.blank p.uid with ks := p.ks, kfp := p.kfp, kb := p.kb, hasKb := true }

def plainId (uid : Text) : Bool := uid ≠ [] && uid.all (! isspace ·)

structure PinnedEntry (p : Pkey) : Prop where
  ks : p.ks = 1 ∨ p.ks = 2
  hasKb : p.hasKb = true
  size : p.kfp.length = 32

theorem PinnedEntry.text (pinned : PinnedEntry p) :
    peerText p = p.uid ++
    ' ' :: Nat.digitChar p.ks :: ' ' :: (hexOf p.kfp ++ ' ' :: hexOf p.kb.bytes) := by
  rw [peerText, if_pos pinned.hasKb]
  rcases pinned.ks with is | is <;> rw [is] <;> rfl

theorem scanInt_digit {ks : Nat} (isKs : ks = 1 ∨ ks = 2) (rest : Text) :
    scanInt (' ' :: Nat.digitChar ks :: ' ' :: rest) = some (ks, ' ' :: rest) := by
  rcases isKs with rfl | rfl <;>
    simp [scanInt, strtoul, strtoulDigits, isspace, isdigit, digitVal, Nat.digitChar, Option.filter]

theorem PinnedEntry.scan (pinned : PinnedEntry p) (plain : plainId p.uid = true)
    (short : p.uid.length < 12) :
    scanPeer (peerText p) = some (p.uid, p.ks, hexOf p.kfp, hexOf p.kb.bytes) := by
  have isPlain : p.uid ≠ [] ∧ ∀ c ∈ p.uid, isspace c = false := by simpa [plainId] using plain
  have fpLength : (hexOf p.kfp).length = 64 := by rw [hexOf_length, pinned.size]
  have kbLength : (hexOf p.kb.bytes).length = 394 := by
    rw [hexOf_length, p.kb.length]
    rfl
  have nonempty {word : Text} {n : Nat} (length : word.length = n + 1) : word ≠ [] := by
    rintro rfl
    cases length
  rw [scanPeer, pinned.text, scanWord_append isPlain.1 isPlain.2 (by omega)]
  simp only [Option.bind_eq_bind, Option.bind_some, scanInt_digit pinned.ks]
  rw [scanWord_blank, scanWord_append (nonempty fpLength) (hexOf_unbroken _) (by omega)]
  simp only [Option.bind_some]
  rw [scanWord_blank, scanWord_last (nonempty kbLength) (hexOf_unbroken _) (by omega)]
  rfl

theorem PinnedEntry.load (pinned : PinnedEntry p) :
    loadPeer p.ks (hexOf p.kfp) (hexOf p.kb.bytes) (.blank p.uid) = p.reload := by
  have fpBack : hexTo 32 (hexOf p.kfp) = p.kfp := pinned.size ▸ hexTo_hexOf p.kfp
  have kbBack : hexTo bundleLen (hexOf p.kb.bytes) = p.kb.bytes :=
    p.kb.length ▸ hexTo_hexOf p.kb.bytes
  have isKs : (if p.ks = 2 then 2 else 1) = p.ks := by
    rcases pinned.ks with is | is <;> rw [is] <;> rfl
  rw [loadPeer, if_pos (by rw [hexOf_length, pinned.size]), fpBack, if_pos pinned.size, loadBundle,
    if_pos (by rw [hexOf_length, p.kb.length]), dif_pos (by rw [kbBack, p.kb.length]), isKs]
  simp only [kbBack]
  rw [Pkey.reload, show (Pkey.blank p.uid).kfp.drop p.kfp.length =
    [] by rw [pinned.size]; rfl, List.append_nil]

theorem loadLine_new (pinned : PinnedEntry p) (plain : plainId p.uid = true)
    (short : p.uid.length < 12) (fresh : ∀ q ∈ kr, q.uid ≠ p.uid) (room : kr.length < krMax) :
    loadLine kr (peerText p) = kr ++ [p.reload] := by
  have absent : pkrFind kr p.uid = none := by
    rw [pkrFind, if_neg (by omega)]
    exact List.find?_eq_none.mpr fun q member => by simpa using fresh q member
  have placed : pkr kr p.uid = kr ++ [.blank p.uid] := by
    rw [pkr, if_neg (by rw [absent]; simp; omega), if_pos room]
  rw [loadLine, pinned.scan plain short]
  simp only
  rw [if_pos short, placed]
  clear placed absent room
  induction kr with
  | nil =>
      rw [List.nil_append, pkrSet, if_pos (show (Pkey.blank p.uid).uid = p.uid from rfl), pinned.load]
      rfl
  | cons first rest ih =>
      rw [List.cons_append, pkrSet, if_neg (fresh first List.mem_cons_self),
        ih fun q member => fresh q (List.mem_cons_of_mem _ member)]
      rfl

theorem load_lines {ps : List Pkey}
    (pinned : ∀ p ∈ ps, PinnedEntry p ∧ plainId p.uid = true ∧ p.uid.length < 12)
    (distinct : ((kr ++ ps).map Pkey.uid).Nodup) (room : kr.length + ps.length ≤ krMax) :
    (ps.map peerText).foldl loadLine kr = kr ++ ps.map Pkey.reload := by
  induction ps generalizing kr with
  | nil => simp
  | cons p ps ih =>
      obtain ⟨entry, plain, short⟩ := pinned p List.mem_cons_self
      rw [List.length_cons] at room
      have parts := List.nodup_append.mp (List.map_append ▸ distinct)
      have fresh (q : Pkey) (member : q ∈ kr) : q.uid ≠ p.uid :=
        parts.2.2 q.uid (List.mem_map_of_mem member) p.uid (List.mem_map_of_mem List.mem_cons_self)
      rw [List.map_cons, List.foldl_cons, loadLine_new entry plain short fresh (by omega), ih]
      · rw [List.append_assoc, List.map_cons]
        rfl
      · exact fun q member => pinned q (List.mem_cons_of_mem _ member)
      · simpa [Pkey.reload, Pkey.blank] using distinct
      · rw [List.length_append, List.length_singleton]
        omega

theorem load_savePeers (pinned : ∀ p ∈ pinnedOf kr, PinnedEntry p ∧ plainId p.uid = true ∧
    p.uid.length < 12) (distinct : (kr.map Pkey.uid).Nodup) (room : kr.length ≤ krMax) :
    e2eLoadPeers (e2eSavePeers kr) = (pinnedOf kr).map Pkey.reload := by
  have whole (line : Text) (member : line ∈ (pinnedOf kr).map peerText) :
    ∀ c ∈ line, decide (c = '\n') = false := by
    obtain ⟨p, inside, rfl⟩ := List.mem_map.mp member
    obtain ⟨entry, plain, -⟩ := pinned p inside
    have isPlain : p.uid ≠ [] ∧ ∀ c ∈ p.uid, isspace c = false := by simpa [plainId] using plain
    have noSpace (c : Char) (notSpace : isspace c = false) : c ≠ '\n' := by
      rintro rfl
      exact absurd notSpace (by decide)
    have digit : Nat.digitChar p.ks ≠ '\n' :=
      (hexVal_digitChar p.ks (by rcases entry.ks with is | is <;> omega)).2.2.2.2
    intro c isChar
    rw [entry.text] at isChar
    simp only [List.mem_append, List.mem_cons] at isChar
    rw [decide_eq_false_iff_not]
    rcases isChar with inUid | rfl | rfl | rfl | inFp | rfl | inKb
    · exact noSpace c (isPlain.2 c inUid)
    · decide
    · exact digit
    · decide
    · exact noSpace c (hexOf_unbroken _ c inFp)
    · decide
    · exact noSpace c (hexOf_unbroken _ c inKb)
  have sublist : (pinnedOf kr).Sublist kr := List.filter_sublist
  rw [e2eLoadPeers, e2eSavePeers_eq, scanParts_flatMap whole (by decide), load_lines pinned]
  · rfl
  · exact distinct.sublist (sublist.map _)
  · have := sublist.length_le
    simpa using Nat.le_trans this room

variable {Own : Type} {cr : Crypto Own} {kr' : List Pkey}

structure EntrySound (cr : Crypto Own) (p : Pkey) : Prop where
  blank : p.ks = 0 → p.hasKb = false ∧ p.kchanged = false
  pinned : p.ks ≠ 0 → PinnedEntry p ∧ cr.fp p.kb = p.kfp

structure TableSound (cr : Crypto Own) (kr : List Pkey) : Prop where
  distinct : (kr.map Pkey.uid).Nodup
  short : ∀ p ∈ kr, p.uid.length < 12
  size : kr.length ≤ krMax
  entries : ∀ p ∈ kr, EntrySound cr p

structure KeyView where
  kfp : List UInt8
  kb : Bundle
  kchanged : Bool

def keyView (kr : List Pkey) (key : Text) : Option KeyView :=
  ((pkrFind kr key).filter (·.ks ≠ 0)).map fun p => ⟨p.kfp, p.kb, p.kchanged⟩

theorem blankSound (uid : Text) : EntrySound cr (.blank uid) :=
  ⟨fun _ => ⟨rfl, rfl⟩, fun pinned => absurd rfl pinned⟩

theorem keyView_eq (distinct : (kr.map Pkey.uid).Nodup) (short : ∀ p ∈ kr, p.uid.length < 12) :
    keyView kr key = ((pinnedOf kr).find? (·.uid = key)).map fun p =>
    ⟨p.kfp, p.kb, p.kchanged⟩ := by
  rw [keyView]
  congr 1
  cases isPinned : (pinnedOf kr).find? (·.uid = key) with
  | some p =>
      have isKey : p.uid = key := by simpa using List.find?_some isPinned
      obtain ⟨member, pinned⟩ := List.mem_filter.mp (List.mem_of_find?_eq_some isPinned)
      rw [← isKey, pkrFind_of_mem distinct member (short p member), Option.filter_some, if_pos pinned]
  | none =>
      rw [Option.filter_eq_none_iff]
      intro p found
      obtain ⟨-, isKey, -⟩ := mem_of_pkrFind found
      intro pinned
      have absent := List.find?_eq_none.mp isPinned p (pinned_mem found (by simpa using pinned))
      exact absent (by simpa using isKey)

theorem TableSound.get (sound : TableSound cr kr) (key : Text) :
    match keyView kr key with
    | some view => (pkrGet kr key).ks ≠ 0 ∧ (pkrGet kr key).hasKb = true ∧ (pkrGet kr key).kfp = view.kfp ∧
        (pkrGet kr key).kb = view.kb ∧ (pkrGet kr key).kchanged = view.kchanged ∧ cr.fp view.kb = view.kfp
    | none => (pkrGet kr key).ks = 0 ∧ (pkrGet kr key).hasKb = false ∧ (pkrGet kr key).kchanged = false := by
  rw [keyView, pkrGet]
  cases found : pkrFind kr key with
  | none => exact ⟨rfl, rfl, rfl⟩
  | some p =>
      have entry := sound.entries p (mem_of_pkrFind found).1
      rw [Option.filter_some]
      by_cases free : p.ks = 0
      · rw [if_neg (by simpa using free)]
        exact ⟨free, entry.blank free⟩
      · rw [if_pos (by simpa using free)]
        obtain ⟨pinned, isFp⟩ := entry.pinned free
        exact ⟨free, pinned.hasKb, rfl, rfl, rfl, isFp⟩

/-- The tables tell the same of everybody, and so do their files. -/
structure SameKeys (cr : Crypto Own) (kr kr' : List Pkey) : Prop where
  sound : TableSound cr kr'
  view : ∀ key, keyView kr' key = keyView kr key
  file : e2eSavePeers kr' = e2eSavePeers kr

theorem SameKeys.refl (sound : TableSound cr kr) : SameKeys cr kr kr := ⟨sound, fun _ => rfl, rfl⟩

theorem SameKeys.trans {kr'' : List Pkey} (first : SameKeys cr kr kr')
    (second : SameKeys cr kr' kr'') : SameKeys cr kr kr'' :=
  ⟨second.sound, fun key => (second.view key).trans (first.view key), second.file.trans first.file⟩

theorem TableSound.pkr (sound : TableSound cr kr) (uid : Text) : SameKeys cr kr (pkr kr uid) := by
  have short (p : Pkey) (member : p ∈ Messenger.pkr kr uid) : p.uid.length < 12 := by
    rcases mem_pkr member with member | ⟨rfl, short⟩
    · exact sound.short p member
    · exact short
  have distinct := @pkr_distinct kr uid sound.distinct
  refine ⟨⟨distinct, short, pkr_size sound.size, fun p member => ?_⟩, fun key => ?_,
    savePeers_pkr uid kr⟩
  · rcases mem_pkr member with member | ⟨rfl, -⟩
    · exact sound.entries p member
    · exact blankSound uid
  · rw [keyView_eq distinct short, pinnedOf_pkr, keyView_eq sound.distinct sound.short]

theorem TableSound.set (sound : TableSound cr kr) (keeps : ∀ p, (change p).uid = p.uid)
    (entry : ∀ p ∈ kr, p.uid = uid → EntrySound cr (change p)) :
    TableSound cr (pkrSet uid change kr) := by
  refine ⟨?_, fun p member => ?_, ?_, fun p member => ?_⟩
  · rw [pkrSet_uids keeps]
    exact sound.distinct
  · rcases mem_pkrSet member with member | ⟨q, inside, -, rfl⟩
    · exact sound.short p member
    · rw [keeps]
      exact sound.short q inside
  · rw [pkrSet_length]
    exact sound.size
  · rcases mem_pkrSet member with member | ⟨q, inside, isUid, rfl⟩
    · exact sound.entries p member
    · exact entry q inside isUid

theorem TableSound.put (sound : TableSound cr kr) (found : pkrFind kr uid = some p)
    (keeps : ∀ p, (change p).uid = p.uid) (entry : EntrySound cr (change p))
    (pinned : (change p).ks ≠ 0) : TableSound cr (pkrSet uid change kr) ∧
      pkrGet (pkrSet uid change kr) uid = change p ∧ ∀ key, keyView (pkrSet uid change kr) key =
        if key = uid then some ⟨(change p).kfp, (change p).kb, (change p).kchanged⟩ else keyView kr key := by
  obtain ⟨-, isUid, short⟩ := mem_of_pkrFind found
  refine ⟨sound.set keeps fun q member isQ => ?_, ?_, fun key => ?_⟩
  · have isSame := pkrFind_of_mem sound.distinct member (isQ ▸ short)
    rw [isQ, found] at isSame
    rwa [← Option.some.inj isSame]
  · rw [pkrGet, pkrFind_set keeps, found]
    rfl
  · rw [keyView]
    split
    next isKey =>
      subst isKey
      rw [pkrFind_set keeps, found, Option.map_some, Option.filter_some, if_pos (by simpa using pinned)]
      rfl
    next other => rw [pkrFind_set_other keeps other, keyView]

structure FlagsOnly (change : Pkey → Pkey) : Prop where
  uid : ∀ p, (change p).uid = p.uid
  ks : ∀ p, (change p).ks = p.ks
  kchanged : ∀ p, (change p).kchanged = p.kchanged
  hasKb : ∀ p, (change p).hasKb = p.hasKb
  kfp : ∀ p, (change p).kfp = p.kfp
  kb : ∀ p, (change p).kb = p.kb

theorem FlagsOnly.entry (flags : FlagsOnly change) (entry : EntrySound cr p) :
    EntrySound cr (change p) := by
  constructor
  · rw [flags.ks, flags.hasKb, flags.kchanged]
    exact entry.blank
  · rw [flags.ks, flags.kb, flags.kfp]
    intro pinned
    obtain ⟨⟨isKs, hasKb, size⟩, isFp⟩ := entry.pinned pinned
    exact ⟨⟨by rwa [flags.ks], by rwa [flags.hasKb], by rwa [flags.kfp]⟩, isFp⟩

theorem TableSound.flags (sound : TableSound cr kr) (flags : FlagsOnly change) :
    SameKeys cr kr (pkrSet uid change kr) := by
  refine ⟨sound.set flags.uid fun p member _ => flags.entry (sound.entries p member), fun key => ?_,
    ?_⟩
  · rw [keyView, keyView]
    by_cases isUid : key = uid
    · subst isUid
      rw [pkrFind_set flags.uid]
      cases pkrFind kr key with
      | none => rfl
      | some p =>
          rw [Option.map_some, Option.filter_some, Option.filter_some, flags.ks]
          split
          · rw [Option.map_some, Option.map_some, flags.kfp, flags.kb, flags.kchanged]
          · rfl
    · rw [pkrFind_set_other flags.uid isUid]
  · exact savePeers_set fun p _ _ => ⟨flags.ks p, by rw [peerText, peerText, flags.uid, flags.ks, flags.kfp, flags.hasKb, flags.kb]⟩

theorem TableSound.requestUid (sound : TableSound cr kr) (uid : Text) (now : Nat) (sent : Bool) :
    SameKeys cr kr (e2eRequestUid kr uid now sent) := by
  have placed := sound.pkr uid
  rw [e2eRequestUid]
  split
  · exact placed
  · exact placed.trans (placed.sound.flags ⟨fun _ => rfl, fun _ => rfl, fun _ => rfl, fun _ => rfl, fun _ => rfl, fun _ => rfl⟩)

theorem TableSound.reload (sound : TableSound cr kr)
    (plain : ∀ p ∈ kr, p.ks ≠ 0 → plainId p.uid = true) : TableSound cr (e2eLoadPeers (e2eSavePeers kr)) ∧
      e2eSavePeers (e2eLoadPeers (e2eSavePeers kr)) = e2eSavePeers kr ∧
      ∀ key, keyView (e2eLoadPeers (e2eSavePeers kr)) key = (keyView kr key).map fun view => { view with kchanged := false } := by
  have pinned (p : Pkey) (member : p ∈ pinnedOf kr) :
    PinnedEntry p ∧ plainId p.uid = true ∧ p.uid.length < 12 := by
    obtain ⟨inside, isPinned⟩ := List.mem_filter.mp member
    have isPinned : p.ks ≠ 0 := by simpa using isPinned
    exact ⟨((sound.entries p inside).pinned isPinned).1, plain p inside isPinned, sound.short p inside⟩
  have isUids : ((pinnedOf kr).map Pkey.reload).map Pkey.uid = (pinnedOf kr).map Pkey.uid := by
    rw [List.map_map]
    rfl
  have sublist : (pinnedOf kr).Sublist kr := List.filter_sublist
  have distinct : (((pinnedOf kr).map Pkey.reload).map Pkey.uid).Nodup :=
    isUids ▸ sound.distinct.sublist (sublist.map _)
  have short (p : Pkey) (member : p ∈ (pinnedOf kr).map Pkey.reload) : p.uid.length < 12 := by
    obtain ⟨q, inside, rfl⟩ := List.mem_map.mp member
    exact (pinned q inside).2.2
  have allPinned : pinnedOf ((pinnedOf kr).map Pkey.reload) = (pinnedOf kr).map Pkey.reload := by
    refine List.filter_eq_self.mpr fun p member => ?_
    obtain ⟨q, inside, rfl⟩ := List.mem_map.mp member
    exact (List.mem_filter.mp inside).2
  rw [load_savePeers pinned sound.distinct sound.size]
  refine ⟨⟨distinct, short, ?_, fun p member => ?_⟩, ?_, fun key => ?_⟩
  · rw [List.length_map]
    exact Nat.le_trans sublist.length_le sound.size
  · obtain ⟨q, inside, rfl⟩ := List.mem_map.mp member
    obtain ⟨inTable, isPinned⟩ := List.mem_filter.mp inside
    have isPinned : q.ks ≠ 0 := by simpa using isPinned
    obtain ⟨entry, isFp⟩ := (sound.entries q inTable).pinned isPinned
    exact ⟨fun free => absurd free isPinned, fun _ => ⟨⟨entry.ks, rfl, entry.size⟩, isFp⟩⟩
  · rw [e2eSavePeers_eq, e2eSavePeers_eq, allPinned, List.map_map]
    congr 1
    refine List.map_congr_left fun p member => ?_
    rw [Function.comp_apply, peerText, peerText, if_pos (pinned p member).1.hasKb]
    rfl
  · rw [keyView_eq distinct short, allPinned, keyView_eq sound.distinct sound.short, List.find?_map,
      Option.map_map, Option.map_map]
    rfl

end Cos.Messenger
