import Cos.Http.Cookies

/-! # Where cookies go -/

namespace Cos.Http

open Cos.Lib

def SameHost (host other : Text) : Prop :=
  lower host = lower other

instance {host other : Text} : Decidable (SameHost host other) :=
  inferInstanceAs (Decidable (lower host = lower other))

/-- A host lies in a domain when it is the domain, or below it at a dot. -/
def Within (host domain : Text) : Prop :=
  SameHost host domain ∨ ∃ sub, lower host = sub ++ '.' :: lower domain

def Covers (path reqPath : Text) : Prop :=
  path <+: reqPath ∧ (path = reqPath ∨ path.getLast? = some '/' ∨ reqPath[path.length]? = some '/')

def lastValue (key : Text) : List Text → Option Text
  | [] => none
  | attr :: rest => (lastValue key rest).or (valueOf key attr)

def Given.pair (g : Given) : Option (Text × Text) :=
  splitPair (pairPart g.line)

def Given.domain (g : Given) : Option Text :=
  (lastValue domainKey (attributes g.line)).map stripDots

def Given.domains (g : Given) : List Text :=
  ((attributes g.line).filterMap (valueOf domainKey)).map stripDots

def namedPath : Text → Text
  | [] => ['/']
  | path => path

def Given.path (g : Given) : Text :=
  ((lastValue pathKey (attributes g.line)).map namedPath).getD (directory g.origin.path)

def SaysSecure (text : Text) : Prop :=
  ∃ attr ∈ attributes text, ciStartsWith attr secureKey = true

structure Given.Confined (g : Given) (pair : Text × Text) (o : Origin) : Prop where
  pair : g.pair = some pair
  host : SameHost o.host g.origin.host ∨ ∃ domain ∈ g.domains, Within g.origin.host domain ∧
    Within o.host domain
  path : Covers g.path o.path
  secure : g.origin.scheme = .https ∨ SaysSecure g.line → o.scheme = .https

def pairText (pair : Text × Text) : Text :=
  pair.1 ++ '=' :: pair.2

def joined (pairs : List (Text × Text)) : Text :=
  "; ".toList.intercalate (pairs.map pairText)

/-- What was put into a request is pairs that may go there, and nothing that ends a line. -/
def Sent.Confined (s : Sent) (givens : List Given) : Prop :=
  (∃ pairs, s.text = joined pairs ∧ ∀ pair ∈ pairs, ∃ g ∈ givens, g.Confined pair s.origin) ∧
    '\r' ∉ s.text ∧ '\n' ∉ s.text

def World.Confined (w : World) : Prop :=
  ∀ s ∈ w.sent, s.Confined w.givens

/-- What is read of the text is what its line says, and nothing of it is cut. -/
structure Given.Faithful (g : Given) : Prop where
  pair : pairPart g.read = pairPart g.line
  plain : '\r' ∉ pairPart g.line ∧ '\n' ∉ pairPart g.line
  fits : ∀ name value, g.pair = some (name, value) →
    name.length < httpCookieNameMax ∧ value.length < httpCookieValueMax
  domain : lastValue domainKey (attributes g.read) = lastValue domainKey (attributes g.line)
  domainFits : ∀ raw, lastValue domainKey (attributes g.line) = some raw → raw.length < httpMaxHost
  path : lastValue pathKey (attributes g.read) = lastValue pathKey (attributes g.line)
  pathFits : ((lastValue pathKey (attributes g.line)).getD g.origin.path).length < httpCookiePathMax
  secure : SaysSecure g.line → SaysSecure g.read

structure Given.Proper (g : Given) (c : Cookie) (o : Origin) : Prop where
  faithful : g.Faithful
  /-- The entry was not stored under another spelling before. -/
  name : ∀ name value, g.pair = some (name, value) → c.name = name
  path : c.path = g.path
  /-- The Domain covers the host that names it. -/
  domain : ∀ domain, g.domain = some domain → Within g.origin.host domain
  /-- Without a Domain the cookie is for its host alone. -/
  hostOnly : g.domain = none → SameHost o.host g.origin.host

def Jar.pairs (jar : Jar) (o : Origin) : List (Text × Text) :=
  (jar.filter (·.goes o)).map fun c => (c.name, c.value)

/-- A request finds only proper cookies, and they fit into its buffer. -/
def World.Allows (w : World) : Step → Prop
  | .request o size => size = 0 ∨
      (∀ c ∈ w.jar, c.goes o = true → ∀ g, c.given = some g → g.Proper c o) ∧
        (joined (w.jar.pairs o)).length < size
  | _ => True

variable {w : World} {c : Cookie} {g : Given} {p : Parts} {o : Origin} {jar : Jar}
  {attr host domain path : Text}

theorem domain_path (starts : ciStartsWith attr domainKey = true) :
    ciStartsWith attr pathKey = false :=
  ciStartsWith_other (by decide) starts

theorem domain_secure (starts : ciStartsWith attr domainKey = true) :
    ciStartsWith attr secureKey = false :=
  ciStartsWith_other (by decide) starts

theorem path_secure (starts : ciStartsWith attr pathKey = true) :
    ciStartsWith attr secureKey = false :=
  ciStartsWith_other (by decide) starts

theorem Draft.attribute_cases (d : Draft) (attr : Text) :
    (ciStartsWith attr domainKey = true ∧
      d.attribute attr = { d with host := stripDots (httpCopyText httpMaxHost (attr.drop 7)) }) ∨
    (ciStartsWith attr pathKey = true ∧
      d.attribute attr = { d with path := namedPath (httpCopyText httpCookiePathMax (attr.drop 5)) }) ∨
    (ciStartsWith attr secureKey = true ∧ d.attribute attr = { d with secure := true }) ∨
    ((ciStartsWith attr domainKey = false ∧ ciStartsWith attr pathKey = false ∧ ciStartsWith attr secureKey = false) ∧
      ∃ remove, d.attribute attr = { d with remove := remove }) := by
  by_cases isDomain : ciStartsWith attr domainKey = true
  · refine .inl ⟨isDomain, ?_⟩
    rw [Draft.attribute, if_pos ⟨ciStartsWith_length isDomain, isDomain⟩]
  · have notDomain : ¬ (7 ≤ attr.length ∧ ciStartsWith attr domainKey = true) := fun both => isDomain both.2
    by_cases isPath : ciStartsWith attr pathKey = true
    · refine .inr (.inl ⟨isPath, ?_⟩)
      rw [Draft.attribute, if_neg notDomain, if_pos ⟨ciStartsWith_length isPath, isPath⟩]
      rfl
    · have notPath : ¬ (5 ≤ attr.length ∧ ciStartsWith attr pathKey = true) := fun both => isPath both.2
      by_cases isSecure : ciStartsWith attr secureKey = true
      · refine .inr (.inr (.inl ⟨isSecure, ?_⟩))
        rw [Draft.attribute, if_neg notDomain, if_neg notPath, if_pos ⟨ciStartsWith_length isSecure, isSecure⟩]
      · have notSecure : ¬ (6 ≤ attr.length ∧ ciStartsWith attr secureKey = true) := fun both => isSecure both.2
        simp only [Bool.not_eq_true] at isDomain isPath isSecure
        refine .inr (.inr (.inr ⟨⟨isDomain, isPath, isSecure⟩, ?_⟩))
        rw [Draft.attribute, if_neg notDomain, if_neg notPath, if_neg notSecure]
        split
        · split
          · exact ⟨true, rfl⟩
          · exact ⟨d.remove, rfl⟩
        · exact ⟨d.remove, rfl⟩

theorem Draft.attribute_host (d : Draft) (attr : Text) : (d.attribute attr).host =
    ((valueOf domainKey attr).map fun raw => stripDots (httpCopyText httpMaxHost raw)).getD
    d.host := by
  obtain ⟨starts, isDraft⟩ | ⟨starts, isDraft⟩ | ⟨starts, isDraft⟩ | ⟨⟨starts, -, -⟩, _, isDraft⟩ :=
    d.attribute_cases attr
  · rw [isDraft, valueOf, if_pos starts]
    rfl
  · have notDomain : ¬ ciStartsWith attr domainKey = true := fun isDomain => by simp [domain_path isDomain] at starts
    rw [isDraft, valueOf, if_neg notDomain]
    rfl
  · have notDomain : ¬ ciStartsWith attr domainKey = true := fun isDomain => by simp [domain_secure isDomain] at starts
    rw [isDraft, valueOf, if_neg notDomain]
    rfl
  · rw [isDraft, valueOf, if_neg (by simp [starts])]
    rfl

theorem Draft.attribute_secure (d : Draft) (attr : Text) :
    (d.attribute attr).secure = (d.secure || ciStartsWith attr secureKey) := by
  obtain ⟨starts, isDraft⟩ | ⟨starts, isDraft⟩ | ⟨starts, isDraft⟩ | ⟨⟨-, -, starts⟩, _, isDraft⟩ :=
    d.attribute_cases attr
  · rw [isDraft, domain_secure starts, Bool.or_false]
  · rw [isDraft, path_secure starts, Bool.or_false]
  · rw [isDraft, starts, Bool.or_true]
  · rw [isDraft, starts, Bool.or_false]

theorem foldl_attribute {α : Type} {part : Draft → α} {key : Text} {value : Text → α}
    (sets : ∀ d attr, part (d.attribute attr) = ((valueOf key attr).map value).getD (part d))
    (attrs : List Text) (d : Draft) :
    part (attrs.foldl Draft.attribute d) = ((lastValue key attrs).map value).getD (part d) := by
  induction attrs generalizing d with
  | nil => rfl
  | cons attr rest ih =>
      rw [List.foldl_cons, ih, sets, lastValue]
      cases lastValue key rest with
      | none => rfl
      | some raw => rfl

theorem foldl_secure (attrs : List Text) (d : Draft) :
    (attrs.foldl Draft.attribute d).secure = true ↔
    d.secure = true ∨ ∃ attr ∈ attrs, ciStartsWith attr secureKey = true := by
  induction attrs generalizing d with
  | nil => simp
  | cons attr rest ih =>
      rw [List.foldl_cons, ih, Draft.attribute_secure]
      simp [or_assoc]

theorem lastValue_mem {key raw : Text} {attrs : List Text}
    (isLast : lastValue key attrs = some raw) : raw ∈ attrs.filterMap (valueOf key) := by
  induction attrs with
  | nil => cases isLast
  | cons attr rest ih =>
      rw [lastValue] at isLast
      cases before : lastValue key rest with
      | some other =>
          rw [before] at isLast
          cases isLast
          exact List.mem_filterMap.mpr (by
            obtain ⟨a, inside, isValue⟩ := List.mem_filterMap.mp (ih before)
            exact ⟨a, List.mem_cons_of_mem _ inside, isValue⟩)
      | none =>
          rw [before] at isLast
          exact List.mem_filterMap.mpr ⟨attr, List.mem_cons_self, isLast⟩

theorem copy_fits {size : Nat} {text : Text} (fits : text.length < size) :
    httpCopyText size text = text := by
  rw [httpCopyText, List.take_of_length_le (by omega)]

theorem hostMatches_within (isMatch : httpHostMatchesCookie host domain = true) :
    Within host domain := by
  rw [httpHostMatchesCookie] at isMatch
  split at isMatch
  · cases isMatch
  · split at isMatch
    · next same => exact Or.inl (ciEqual_iff.mp same)
    · split at isMatch
      · cases isMatch
      · next longer =>
        split at isMatch
        · cases isMatch
        · next ends =>
          simp only [ne_eq, not_not, decide_eq_true_eq] at ends isMatch
          have dot := List.drop_eq_getElem_cons (l := host) (i := host.length - domain.length - 1) (by omega)
          rw [List.getElem?_eq_getElem (by omega), Option.some.injEq] at isMatch
          rw [isMatch, show host.length - domain.length - 1 + 1 = host.length - domain.length by omega, ends] at dot
          refine Or.inr ⟨lower (host.take (host.length - domain.length - 1)), ?_⟩
          have split := List.take_append_drop (host.length - domain.length - 1) host
          rw [dot] at split
          rw [lower, lower, lower, ← congrArg (List.map Char.toLower) split, List.map_append,
            List.map_cons, show Char.toLower '.' = '.' from rfl]

theorem Within.same {other : Text} (within : Within host domain) (same : SameHost domain other) :
    Within host other := by
  rwa [Within, SameHost, ← same]

theorem pathMatches_covers {reqPath : Text} (isMatch : httpPathMatchesCookie reqPath path = true) :
    Covers path reqPath := by
  rw [httpPathMatchesCookie] at isMatch
  split at isMatch
  · cases isMatch
  · next slash =>
    simp only [ne_eq, not_not] at slash
    split at isMatch
    · next one =>
      obtain ⟨c, rfl⟩ := List.length_eq_one_iff.mp one
      cases slash
      simp only [decide_eq_true_eq] at isMatch
      obtain ⟨-, starts⟩ := isMatch
      cases reqPath with
      | nil => cases starts
      | cons c rest =>
          cases starts
          exact ⟨⟨rest, rfl⟩, .inr (.inl rfl)⟩
    · split at isMatch
      · cases isMatch
      · split at isMatch
        · cases isMatch
        · next taken =>
          simp only [ne_eq, not_not] at taken
          have isPrefix : path <+: reqPath := taken ▸ List.take_prefix _ _
          split at isMatch
          · next long =>
            exact ⟨isPrefix, .inl (isPrefix.eq_of_length long.symm)⟩
          · split at isMatch
            · next last => exact ⟨isPrefix, .inr (.inl last)⟩
            · exact ⟨isPrefix, .inr (.inr (of_decide_eq_true isMatch))⟩

/-- An entry holds what its last text says, as it was read, under the host, path and name it was
first stored with. -/
def Cookie.Backed (givens : List Given) (c : Cookie) : Prop :=
  c.active = true → ∃ g ∈ givens, c.given = some g ∧ ∃ p, g.parts = some p ∧
    ciEqual c.host p.draft.host = true ∧ c.value = p.value ∧ c.secure = p.draft.secure

def Jar.Backed (givens : List Given) (jar : Jar) : Prop :=
  ∀ c ∈ jar, c.Backed givens

theorem Cookie.Backed.more {givens more : List Given} (backed : c.Backed givens)
    (grows : ∀ g ∈ givens, g ∈ more) : c.Backed more := fun isActive =>
  have ⟨g, inside, rest⟩ := backed isActive
  ⟨g, grows g inside, rest⟩

theorem Cookie.clear_backed (givens : List Given) : Cookie.clear.Backed givens :=
  nofun

theorem Jar.Backed.set {givens : List Given} {i : Nat} (backed : jar.Backed givens)
    (new : c.Backed givens) : Jar.Backed givens (jar.set i c) := by
  intro other member
  rcases List.mem_or_eq_of_mem_set member with before | rfl
  · exact backed other before
  · exact new

theorem Jar.Backed.update {givens : List Given} {i : Nat} (backed : jar.Backed givens)
    (isIn : g ∈ givens) (isParts : g.parts = some p) (found : jar.findIdx? (·.isFor p) = some i) :
    Jar.Backed givens (jar.update i g p) := by
  intro other member
  obtain ⟨k, isHere⟩ := List.mem_iff_getElem?.mp member
  rw [Jar.update, List.getElem?_modify] at isHere
  obtain ⟨old, isOld, isOther⟩ := Option.map_eq_some_iff.mp isHere
  split at isOther
  · next isI =>
    subst isI isOther
    obtain ⟨bound, isFor, -⟩ := List.findIdx?_eq_some_iff_getElem.mp found
    rw [List.getElem?_eq_getElem bound, Option.some.injEq] at isOld
    rw [isOld] at isFor
    simp only [Cookie.isFor, Bool.and_eq_true] at isFor
    exact fun _ => ⟨g, isIn, rfl, p, isParts, isFor.1.1.2, rfl, rfl⟩
  · subst isOther
    exact backed old (List.mem_of_getElem? isOld)

theorem Jar.Backed.store {givens : List Given} (backed : jar.Backed givens) (isIn : g ∈ givens) :
    Jar.Backed givens (jar.store g) := by
  unfold Jar.store
  cases isParts : g.parts with
  | none => exact backed
  | some p =>
      simp only
      cases found : jar.findIdx? (·.isFor p) with
      | some i =>
          simp only
          split
          · exact backed.set (Cookie.clear_backed givens)
          · exact backed.update isIn isParts found
      | none =>
          simp only
          split
          · exact backed
          · cases jar.findIdx? (!·.active) with
            | none => exact backed
            | some i => exact backed.set fun _ => ⟨g, isIn, rfl, p, isParts, ciEqual_refl, rfl, rfl⟩

/-- Pairs one after the other, with a separator before each that is not the first. -/
def separated (first : Bool) : List (Text × Text) → Text
  | [] => []
  | pair :: rest => (if first then [] else "; ".toList) ++ pairText pair ++ separated false rest

theorem joined_cons (pair : Text × Text) (rest : List (Text × Text)) :
    joined (pair :: rest) = pairText pair ++ separated false rest := by
  induction rest generalizing pair with
  | nil => simp [joined, separated, List.intercalate]
  | cons next rest ih =>
      have tail := ih next
      simp only [joined, List.intercalate, List.map_cons, List.intersperse_cons_cons, List.flatten_cons] at tail ⊢
      rw [tail]
      simp [separated]

theorem separated_eq (pairs : List (Text × Text)) : separated true pairs = joined pairs := by
  cases pairs with
  | nil => rfl
  | cons pair rest =>
      rw [joined_cons]
      rfl

theorem mem_separated {x : Char} {first : Bool} {pairs : List (Text × Text)}
    (inside : x ∈ separated first pairs) : x ∈ "; ".toList ∨ ∃ pair ∈ pairs, x ∈ pairText pair := by
  induction pairs generalizing first with
  | nil => cases inside
  | cons pair rest ih =>
      rcases List.mem_append.mp inside with front | back
      · rcases List.mem_append.mp front with separator | inPair
        · cases first with
          | true => cases separator
          | false => exact .inl separator
        · exact .inr ⟨pair, List.mem_cons_self, inPair⟩
      · rcases ih back with separator | ⟨other, member, inPair⟩
        · exact .inl separator
        · exact .inr ⟨other, List.mem_cons_of_mem _ member, inPair⟩

theorem appendCookies_eq {size : Nat} {out : Text} {first : Bool}
    (fits : (out ++ separated first (jar.pairs o)).length < size) :
    appendCookies o size jar out first = out ++ separated first (jar.pairs o) := by
  induction jar generalizing out first with
  | nil => simp [appendCookies, Jar.pairs, separated]
  | cons c rest ih =>
      rw [appendCookies]
      split
      · next goes =>
        have isPairs : Jar.pairs (c :: rest) o = (c.name, c.value) :: Jar.pairs rest o := by
          rw [Jar.pairs, List.filter_cons, if_pos goes]
          rfl
        rw [isPairs, separated, ← List.append_assoc] at fits ⊢
        have room := fits
        -- there is room for the whole pair
        rw [List.take_of_length_le (by simp only [List.length_append, Cookie.shown, pairText] at room ⊢; omega)]
        rw [if_neg (by simp only [List.length_append, Cookie.shown, pairText] at room ⊢; omega)]
        exact ih fits
      · next stays =>
        have isPairs : Jar.pairs (c :: rest) o = Jar.pairs rest o := by
          rw [Jar.pairs, List.filter_cons, if_neg stays]
          rfl
        rw [isPairs] at fits ⊢
        exact ih fits

theorem splitPair_some {text name value : Text} (isPair : splitPair text = some (name, value)) :
    text = name ++ '=' :: value := by
  have whole := List.takeWhile_append_dropWhile (p := fun x => decide (x ≠ '=')) (l := text)
  rw [splitPair] at isPair
  split at isPair
  · cases isPair
  · next x rest isRest =>
    split at isPair
    · cases isPair
    · cases isPair
      have isSign : x = '=' := by
        have stops := List.head?_dropWhile_not (fun x => decide (x ≠ '=')) text
        rw [isRest] at stops
        simpa using stops
      rw [isSign] at isRest
      rw [← isRest]
      exact whole.symm

theorem Given.parts_some (isParts : g.parts = some p) :
    ∃ name value, splitPair (pairPart g.read) = some (name, value) ∧
    p.value = httpCopyText httpCookieValueMax value ∧
    p.draft.host = ((lastValue domainKey (attributes g.read)).map fun raw =>
      stripDots (httpCopyText httpMaxHost raw)).getD (httpCopyText httpMaxHost g.origin.host) ∧
    (p.draft.secure = true ↔ g.origin.scheme = .https ∨ SaysSecure g.read) := by
  rw [Given.parts] at isParts
  split at isParts
  · cases isParts
  · next name value isPair =>
    cases isParts
    refine ⟨name, value, isPair, rfl, foldl_attribute Draft.attribute_host _ _, ?_⟩
    simp only [foldl_secure, decide_eq_true_eq, SaysSecure]

theorem Given.Proper.confined {givens : List Given} (proper : ∀ g, c.given = some g → g.Proper c o)
    (backed : c.Backed givens) (goes : c.goes o = true) : (∃ g ∈ givens, g.Confined (c.name,
      c.value) o) ∧ '\r' ∉ pairText (c.name, c.value) ∧ '\n' ∉ pairText (c.name, c.value) := by
  simp only [Cookie.goes, Bool.and_eq_true] at goes
  obtain ⟨⟨⟨isActive, host⟩, scheme⟩, path⟩ := goes
  obtain ⟨g, isIn, isGiven, p, isParts, sameHost, isValue, isSecure⟩ := backed isActive
  obtain ⟨faithful, isName, isPath, covers, hostOnly⟩ := proper g isGiven
  obtain ⟨name, value, isPair, readValue, readHost, readSecure⟩ := Given.parts_some isParts
  rw [faithful.pair] at isPair
  obtain ⟨nameFits, valueFits⟩ := faithful.fits name value isPair
  have pair : (c.name, c.value) = (name, value) := by
    rw [isName name value isPair, isValue, readValue, copy_fits valueFits]
  rw [pair]
  have plain := faithful.plain
  rw [splitPair_some isPair] at plain
  refine ⟨⟨g, isIn, isPair, ?_, isPath ▸ pathMatches_covers path, fun marked => ?_⟩, plain⟩
  · rw [faithful.domain] at readHost
    have within := (hostMatches_within host).same (ciEqual_iff.mp sameHost)
    cases isLast : lastValue domainKey (attributes g.line) with
    | none => exact .inl (hostOnly (by rw [Given.domain, isLast]; rfl))
    | some raw =>
        rw [isLast, Option.map_some, Option.getD_some, copy_fits (faithful.domainFits raw isLast)] at readHost
        rw [readHost] at within
        refine .inr ⟨stripDots raw, List.mem_map_of_mem (lastValue_mem isLast), covers _ ?_, within⟩
        rw [Given.domain, isLast]
        rfl
  · have secure : c.secure = true := isSecure.trans (readSecure.mpr (marked.imp_right faithful.secure))
    cases isScheme : o.scheme with
    | https => rfl
    | http => simp [isScheme, secure] at scheme

structure Sound (w : World) : Prop where
  jar : w.jar.Backed w.givens
  sent : w.Confined

theorem Sent.Confined.more {s : Sent} {givens more : List Given} (confined : s.Confined givens)
    (grows : ∀ g ∈ givens, g ∈ more) : s.Confined more := by
  obtain ⟨⟨pairs, isText, each⟩, plain⟩ := confined
  refine ⟨⟨pairs, isText, fun pair member => ?_⟩, plain⟩
  obtain ⟨g, inside, ok⟩ := each pair member
  exact ⟨g, grows g inside, ok⟩

theorem Sound.start : Sound World.start where
  jar c member := by
    rw [List.eq_of_mem_replicate member]
    exact Cookie.clear_backed _
  sent := nofun

theorem Sound.take (sound : Sound w) (g : Given) : Sound (w.take g) where
  jar := Jar.Backed.store
    (fun c member => (sound.jar c member).more fun _ => List.mem_cons_of_mem _) List.mem_cons_self
  sent s member := (sound.sent s member).more fun _ => List.mem_cons_of_mem _

theorem Sound.foldl (sound : Sound w) (givens : List Given) :
    Sound (givens.foldl World.take w) := by
  induction givens generalizing w with
  | nil => exact sound
  | cons g rest ih => exact ih (sound.take g)

theorem Sound.request {size : Nat} (sound : Sound w)
    (proper : ∀ c ∈ w.jar, c.goes o = true → ∀ g, c.given = some g → g.Proper c o)
    (fits : (joined (w.jar.pairs o)).length < size) :
    Sound { w with sent := ⟨o, appendCookies o size w.jar [] true⟩ :: w.sent } where
  jar := sound.jar
  sent := by
    have isText : appendCookies o size w.jar [] true = joined (w.jar.pairs o) := by
      rw [← separated_eq] at fits ⊢
      exact appendCookies_eq fits
    have each : ∀ pair ∈ w.jar.pairs o, (∃ g ∈ w.givens, g.Confined pair o) ∧
        '\r' ∉ pairText pair ∧ '\n' ∉ pairText pair := by
      intro pair member
      obtain ⟨c, isHere, rfl⟩ := List.mem_map.mp member
      obtain ⟨isIn, goes⟩ := List.mem_filter.mp isHere
      exact Given.Proper.confined (proper c isIn goes) (sound.jar c isIn) goes
    have plain {x : Char} (notSeparator : x ∉ "; ".toList)
        (notPair : ∀ pair ∈ w.jar.pairs o, x ∉ pairText pair) : x ∉ joined (w.jar.pairs o) := by
      intro inside
      rw [← separated_eq] at inside
      rcases mem_separated inside with separator | ⟨pair, member, inPair⟩
      · exact notSeparator separator
      · exact notPair pair member inPair
    intro s member
    rcases List.mem_cons.mp member with rfl | before
    · refine ⟨⟨w.jar.pairs o, isText, fun pair member => (each pair member).1⟩, ?_⟩
      rw [isText]
      exact ⟨plain (by decide) fun pair member => (each pair member).2.1,
        plain (by decide) fun pair member => (each pair member).2.2⟩
    · exact sound.sent s before

theorem Sound.step {step : Step} (sound : Sound w) (allowed : w.Allows step) :
    Sound (w.step step) := by
  cases step with
  | response origin bytes => exact sound.foldl _
  | fetched origin bytes => exact sound.foldl _
  | write origin text => exact sound.take _
  | request origin size =>
      rw [World.step]
      split
      · exact sound
      · next some =>
        obtain none | ⟨proper, fits⟩ := allowed
        · exact absurd none some
        · exact sound.request proper fits

/-- Every request of such a run carries pairs that a line gave for it, and no line end. -/
theorem cookies_confined (reached : Reaches World.step World.Allows World.start w) : w.Confined :=
  (reached.invariant Sound.start fun _ _ sound allowed => sound.step allowed).sent

def shopResponse : Step :=
  .response ⟨.https, "a.shop".toList, "/x/start".toList, by decide, by decide⟩
    "HTTP/1.1 200 OK\r\nSet-Cookie: id=1; Domain=.shop; Path=/x; Secure\r\n\r\n".toList

def shopOrigin : Origin := ⟨.https, "b.shop".toList, "/x/cart".toList, by decide, by decide⟩

def shopGiven : Given :=
  ⟨⟨.https, "a.shop".toList, "/x/start".toList, by decide, by decide⟩,
    "id=1; Domain=.shop; Path=/x; Secure".toList, "id=1; Domain=.shop; Path=/x; Secure".toList⟩

theorem shopGiven_faithful : shopGiven.Faithful where
  pair := by decide
  plain := by decide
  fits name value isPair := by
    cases (show shopGiven.pair = some ("id".toList, "1".toList) by decide).symm.trans isPair
    decide
  domain := by decide
  domainFits raw isLast := by
    cases (show lastValue domainKey (attributes shopGiven.line) = some ".shop".toList by decide).symm.trans isLast
    decide
  path := by decide
  pathFits := by decide
  secure := id

theorem cookies_confined_shop :
    ((World.start.step shopResponse).step (.request shopOrigin 1024)).Confined ∧
      ((World.start.step shopResponse).step (.request shopOrigin 1024)).sent.map Sent.text = ["id=1".toList] := by
  refine ⟨cookies_confined (.next (.next .refl trivial) (Or.inr ⟨fun c member goes g isGiven => ?_, by decide⟩)),
    by decide⟩
  have isJar : ∀ c ∈ (World.start.step shopResponse).jar, c.goes shopOrigin = true →
      c = ⟨true, true, "shop".toList, "/x".toList, "id".toList, "1".toList, some shopGiven⟩ := by decide
  cases isJar c member goes
  cases isGiven
  refine ⟨shopGiven_faithful,
    fun name value isPair => ?_, by decide, fun domain isDomain => ?_, fun none => ?_⟩
  · cases (show shopGiven.pair = some ("id".toList, "1".toList) by decide).symm.trans isPair
    rfl
  · cases (show shopGiven.domain = some "shop".toList by decide).symm.trans isDomain
    exact Or.inr ⟨"a".toList, by decide⟩
  · exact absurd none (by decide)

def evilResponse : Step :=
  .response ⟨.http, "evil.com".toList, "/".toList, by decide, by decide⟩
    "HTTP/1.1 200 OK\r\nSet-Cookie: a=1; Domain=bank.com\r\n\r\n".toList

def bankOrigin : Origin := ⟨.http, "bank.com".toList, "/".toList, by decide, by decide⟩

theorem cookies_foreign_sent :
    ¬ ∀ w, Reaches World.step (fun _ _ => True) World.start w → w.Confined := by
  intro claimed
  have confined := claimed _ (.next (.next .refl trivial) trivial :
    Reaches World.step (fun _ _ => True) World.start
    ((World.start.step evilResponse).step (.request bankOrigin 1024)))
  have isSent : (⟨bankOrigin, "a=1".toList⟩ : Sent) ∈
      ((World.start.step evilResponse).step (.request bankOrigin 1024)).sent := by decide
  obtain ⟨⟨pairs, isText, each⟩, -⟩ := confined _ isSent
  cases pairs with
  | nil => cases isText
  | cons pair rest =>
      obtain ⟨g, isIn, -, host, -, -⟩ := each pair List.mem_cons_self
      have lines : ∀ g ∈ ((World.start.step evilResponse).step (.request bankOrigin 1024)).givens,
          g.origin.host = "evil.com".toList ∧ g.domains = ["bank.com".toList] := by decide
      obtain ⟨isHost, isDomains⟩ := lines g isIn
      rw [isHost, isDomains] at host
      rcases host with same | ⟨domain, isDomain, same | ⟨sub, below⟩, -⟩
      · exact absurd same (by decide)
      · cases List.mem_singleton.mp isDomain
        exact absurd same (by decide)
      · cases List.mem_singleton.mp isDomain
        have long := congrArg List.length below
        simp [lower] at long

end Cos.Http
