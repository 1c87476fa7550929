import Mathlib.Data.List.Infix
import Mathlib.Data.List.TakeWhile

/-! # Paths of a Linux program

`path_normalize` with its bounded buffer, the normal form it is after, and the links of the
manifest.  A text is the characters of a C string up to its end.
-/

namespace Cos.Paths

abbrev Text := List Char

/-- The components of a path, each with what follows it; `inside` one of them already. -/
def walk (inside : Bool) : Text → List (Text × Text)
  | [] => []
  | c :: s =>
      if c = '/' then walk false s
      else if inside then walk true s
      else ((c :: s).takeWhile (· ≠ '/'), s.dropWhile (· ≠ '/')) :: walk true s

def names (s : Text) : List Text := (walk false s).map Prod.fst

def popName (out : Text) : Text := ((out.reverse.dropWhile (· ≠ '/')).drop 1).reverse

/-- One round of the loop of `path_normalize`: a name that does not fit is left out. -/
def appendName (cap : Nat) (out name : Text) : Text :=
  if name = ['.'] then out
  else if name = ['.', '.'] then popName out
  else if out.length + name.length + 2 < cap then out ++ '/' :: name
  else out

def pathNormalize (cap : Nat) (path : Text) : Text :=
  let out := (names path).foldl (appendName cap) []
  if out = [] then ['/'] else out

/-- `snprintf(out, cap, "%s", s)`. -/
def snprintf (cap : Nat) (s : Text) : Text := s.take (cap - 1)

inductive ManifestEntry where
  | link (target : Text)
  | executable
deriving DecidableEq, Repr

inductive WalkEnd where
  | tooLong
  | expand (path : Text)
  | arrived (cur : Text) (lastLink : Option Text)
deriving DecidableEq, Repr

def expandLink (before target rest : Text) : Text :=
  let tail := (if rest = [] then [] else ['/']) ++ rest
  snprintf 640 (if target.head? = some '/' then target ++ tail else before ++ '/' :: target ++ tail)

/-- The inner loop of `lx_follow`. -/
def lxWalk (find : Text → Option ManifestEntry) (followLast : Bool) :
    Text → Option Text → List (Text × Text) → WalkEnd
  | cur, lastLink, [] => .arrived cur lastLink
  | cur, lastLink, (name, rest) :: more =>
      if cur.length + name.length + 2 ≥ 320 then .tooLong
      else
        let next := cur ++ '/' :: name
        let isLast : Bool := decide (rest = [] ∨ rest = ['/'])
        match find next with
        | some (.link target) =>
            if !isLast || followLast then .expand (expandLink cur target rest)
            else lxWalk find followLast next (some target) more
        | _ => lxWalk find followLast next lastLink more

def lxFollowFrom (find : Text → Option ManifestEntry) (followLast : Bool) (cap : Nat)
    (path : Text) : Nat → Text → Text × Option Text
  | 0, _ => (snprintf cap path, none)
  | depth + 1, work =>
      match lxWalk find followLast [] none (walk false work) with
      | .tooLong => (snprintf cap path, none)
      | .arrived cur lastLink => (snprintf cap (if cur = [] then ['/'] else cur), lastLink)
      | .expand next => lxFollowFrom find followLast cap path depth (pathNormalize 640 next)

def lxFollow (manifest : Option (Text → Option ManifestEntry)) (followLast : Bool) (cap : Nat)
    (path : Text) : Text × Option Text :=
  match manifest with
  | none => (snprintf cap path, none)
  | some find => lxFollowFrom find followLast cap path 40 (snprintf 640 path)

def climb (dir : List Text) (name : Text) : List Text :=
  if name = ['.'] then dir else if name = ['.', '.'] then dir.dropLast else dir ++ [name]

def render (dir : List Text) : Text := dir.flatMap fun name => '/' :: name

def absolute (dir : List Text) : Text := if dir = [] then ['/'] else render dir

def lexical (path : Text) : Text := absolute ((names path).foldl climb [])

def fits (cap : Nat) (dir : List Text) (name : Text) : Prop :=
  name = ['.'] ∨ name = ['.', '.'] ∨ (render dir).length + name.length + 2 < cap

def allFit (cap : Nat) : List Text → List Text → Prop
  | _, [] => True
  | dir, name :: more => fits cap dir name ∧ allFit cap (climb dir name) more

def LinkFree (find : Text → Option ManifestEntry) (followLast : Bool) (path : Text) : Prop :=
  ∀ a b, names path = a ++ b → a ≠ [] → b ≠ [] ∨ followLast = true →
    ∀ target, find (render a) ≠ some (.link target)

def Plain (name : Text) : Prop := name ≠ [] ∧ '/' ∉ name

variable {cap : Nat} {path s rest name out cur : Text} {dir todo more : List Text}
  {inside followLast : Bool}

theorem walk_inside (plain : '/' ∉ name) (ends : rest = [] ∨ rest.head? = some '/') :
    walk true (name ++ rest) = walk false rest := by
  induction name with
  | nil =>
      cases rest with
      | nil => rfl
      | cons c rest => simp_all [walk]
  | cons c name ih =>
      obtain ⟨first, later⟩ : c ≠ '/' ∧ '/' ∉ name := by simpa [eq_comm] using plain
      simpa [walk, first] using ih later

theorem walk_name (plain : Plain name) (ends : rest = [] ∨ rest.head? = some '/') :
    walk false (name ++ rest) = (name, rest) :: walk false rest := by
  obtain ⟨some_, noSlash⟩ := plain
  obtain ⟨c, tail, rfl⟩ := List.exists_cons_of_ne_nil some_
  obtain ⟨first, later⟩ : c ≠ '/' ∧ '/' ∉ tail := by simpa [eq_comm] using noSlash
  have isName : (tail ++ rest).takeWhile (· ≠ '/') = tail ∧
    (tail ++ rest).dropWhile (· ≠ '/') = rest := by
    rw [List.takeWhile_append_of_pos (by grind), List.dropWhile_append_of_pos (by grind)]
    cases rest <;> simp_all
  rw [List.cons_append, walk, if_neg first, if_neg Bool.false_ne_true,
    List.takeWhile_cons_of_pos (by simpa using first), isName.1, isName.2, walk_inside later ends]

theorem upToSlash (s : Text) :
    '/' ∉ s.takeWhile (· ≠ '/') ∧
    (s.dropWhile (· ≠ '/') = [] ∨ (s.dropWhile (· ≠ '/')).head? = some '/') := by
  induction s with
  | nil => simp
  | cons c s ih =>
      by_cases slash : c = '/'
      · simp [slash]
      · simpa [slash, Ne.symm slash] using ih

theorem walk_cons {more : List (Text × Text)} (found : walk inside s = (name, rest) :: more) :
    Plain name ∧ more = walk false rest := by
  induction s generalizing inside with
  | nil => cases found
  | cons c s ih =>
      rw [walk] at found
      split at found
      · exact ih found
      · next notSlash =>
        split at found
        · exact ih found
        · obtain ⟨⟨rfl, rfl⟩, isMore⟩ : (_ = name ∧ _ = rest) ∧ _ = more := by simpa using found
          obtain ⟨plain, ends⟩ := upToSlash s
          refine ⟨⟨by simp [notSlash], by simpa [notSlash, Ne.symm notSlash] using plain⟩, ?_⟩
          have same := walk_inside plain ends
          rw [List.takeWhile_append_dropWhile] at same
          simpa [same] using isMore.symm

theorem walk_plain : ∀ piece ∈ walk inside s, Plain piece.1 := by
  induction s generalizing inside with
  | nil => nofun
  | cons c s ih =>
      cases found : walk inside (c :: s) with
      | nil => nofun
      | cons piece more =>
          intro other member
          rcases List.mem_cons.mp member with rfl | later
          · exact (walk_cons found).1
          · rw [walk] at found
            split at found
            · exact ih other (found ▸ List.mem_cons_of_mem _ later)
            · split at found
              · exact ih other (found ▸ List.mem_cons_of_mem _ later)
              · obtain ⟨-, rfl⟩ := List.cons.inj found
                exact ih other later

theorem names_plain : ∀ name ∈ names s, Plain name := by
  intro name member
  obtain ⟨piece, found, rfl⟩ := List.mem_map.mp member
  exact walk_plain piece found

theorem render_ends (dir : List Text) : render dir = [] ∨ (render dir).head? = some '/' := by
  cases dir <;> simp [render]

theorem names_render (plain : ∀ name ∈ dir, Plain name) : names (render dir) = dir := by
  induction dir with
  | nil => rfl
  | cons name dir ih =>
      obtain ⟨here, later⟩ := List.forall_mem_cons.mp plain
      have first := walk_name here (render_ends dir)
      have split_ : names (render (name :: dir)) = (walk false (name ++ render dir)).map Prod.fst := rfl
      rw [split_, first, List.map_cons]
      exact congrArg _ (ih later)

theorem names_absolute (plain : ∀ name ∈ dir, Plain name) : names (absolute dir) = dir := by
  unfold absolute
  split
  · next empty => rw [empty]; rfl
  · exact names_render plain

theorem absolute_inj {other : List Text} (plain : ∀ name ∈ dir, Plain name)
    (plainOther : ∀ name ∈ other, Plain name) : absolute dir = absolute other ↔ dir = other :=
  ⟨fun same => by rw [← names_absolute plain, same, names_absolute plainOther], congrArg absolute⟩

@[simp] theorem render_nil : render [] = [] := rfl

@[simp] theorem render_append (dir : List Text) (name : Text) :
    render (dir ++ [name]) = render dir ++ '/' :: name := by
  simp [render]

@[simp] theorem render_eq_nil : render dir = [] ↔ dir = [] := by
  cases dir <;> simp [render]

theorem popName_render (plain : ∀ name ∈ dir, Plain name) :
    popName (render dir) = render dir.dropLast := by
  rcases List.eq_nil_or_concat dir with rfl | ⟨before, name, rfl⟩
  · rfl
  · have noSlash : '/' ∉ name := (plain name (by simp)).2
    rw [popName, List.concat_eq_append, render_append, List.reverse_append, List.reverse_cons,
      List.append_assoc, List.dropWhile_append_of_pos (by grind)]
    simp

def placeName (cap : Nat) (dir : List Text) (name : Text) : List Text :=
  if name = ['.'] then dir
  else if name = ['.', '.'] then dir.dropLast
  else if (render dir).length + name.length + 2 < cap then dir ++ [name]
  else dir

theorem appendName_render (plain : ∀ name ∈ dir, Plain name) :
    appendName cap (render dir) name = render (placeName cap dir name) := by
  unfold appendName placeName
  split_ifs
  · rfl
  · exact popName_render plain
  · simp
  · rfl

theorem placeName_fits (fit : fits cap dir name) : placeName cap dir name = climb dir name := by
  unfold placeName climb
  split_ifs with dot up room
  · rfl
  · rfl
  · rfl
  · exact absurd ((fit.resolve_left dot).resolve_left up) room

/-- The names of a directory, none of them special, each where it fits. -/
structure Settled (cap : Nat) (dir : List Text) : Prop where
  plain : ∀ name ∈ dir, Plain name
  kept : ∀ name ∈ dir, name ≠ ['.'] ∧ name ≠ ['.', '.']
  room : ∀ a name b, dir = a ++ name :: b → (render a).length + name.length + 2 < cap

theorem Settled.prefix_ {other : List Text} (settled : Settled cap dir) (less : other <+: dir) :
    Settled cap other := by
  obtain ⟨more, rfl⟩ := less
  refine ⟨fun name member => settled.plain name (by simp [member]),
    fun name member => settled.kept name (by simp [member]), fun a name b isOther =>
    settled.room a name (b ++ more) (by simp [isOther])⟩

theorem Settled.place (settled : Settled cap dir) (plain : Plain name) :
    Settled cap (placeName cap dir name) := by
  unfold placeName
  split_ifs with dot up room
  · exact settled
  · exact settled.prefix_ (List.dropLast_prefix dir)
  · refine ⟨?_, ?_, fun a other b isDir => ?_⟩
    · simpa [or_imp, forall_and] using ⟨settled.plain, plain⟩
    · intro other member
      rcases List.mem_append.mp member with before | last
      · exact settled.kept other before
      · exact List.mem_singleton.mp last ▸ ⟨dot, up⟩
    · rcases List.eq_nil_or_concat b with rfl | ⟨b, last, rfl⟩
      · obtain ⟨rfl, rfl⟩ : dir = a ∧ name = other := by simpa using isDir
        exact room
      · rw [List.concat_eq_append, ← List.cons_append, ← List.append_assoc] at isDir
        exact settled.room a other b (List.append_inj_left' isDir rfl)
  · exact settled

theorem Settled.foldl (settled : Settled cap dir) (plain : ∀ name ∈ todo, Plain name) :
    Settled cap (todo.foldl (placeName cap) dir) ∧
      todo.foldl (appendName cap) (render dir) = render (todo.foldl (placeName cap) dir) := by
  induction todo generalizing dir with
  | nil => exact ⟨settled, rfl⟩
  | cons name todo ih =>
      obtain ⟨here, later⟩ := List.forall_mem_cons.mp plain
      rw [List.foldl_cons, List.foldl_cons, appendName_render settled.plain]
      exact ih (settled.place here) later

theorem settled_nil : Settled cap [] := ⟨nofun, nofun, fun _ _ _ isNil => by simp at isNil⟩

theorem Settled.again (settled : Settled cap dir) : dir.foldl (placeName cap) [] = dir := by
  induction dir using List.reverseRecOn with
  | nil => rfl
  | append_singleton dir name ih =>
      obtain ⟨dot, up⟩ := settled.kept name (by simp)
      have room := settled.room dir name [] rfl
      rw [List.foldl_append, ih (settled.prefix_ (List.prefix_append dir [name]))]
      simp [placeName, dot, up, room]

theorem pathNormalize_eq (cap : Nat) (path : Text) :
    pathNormalize cap path = absolute ((names path).foldl (placeName cap) []) := by
  have same := (@Settled.foldl cap [] (names path) settled_nil names_plain).2
  rw [render_nil] at same
  simp [pathNormalize, absolute, same]

theorem pathNormalize_settled (cap : Nat) (path : Text) :
    Settled cap (names (pathNormalize cap path)) := by
  have settled := (@Settled.foldl cap [] (names path) settled_nil names_plain).1
  rwa [pathNormalize_eq, names_absolute settled.plain]

theorem pathNormalize_idempotent (cap : Nat) (path : Text) :
    pathNormalize cap (pathNormalize cap path) = pathNormalize cap path := by
  have settled := pathNormalize_settled cap path
  rw [pathNormalize_eq cap (pathNormalize cap path), settled.again, pathNormalize_eq,
    names_absolute (Settled.foldl settled_nil names_plain).1.plain]

theorem foldl_fit (fit : allFit cap dir todo) :
    todo.foldl (placeName cap) dir = todo.foldl climb dir := by
  induction todo generalizing dir with
  | nil => rfl
  | cons name todo ih =>
      rw [List.foldl_cons, List.foldl_cons, placeName_fits fit.1]
      exact ih fit.2

theorem walk_noSlash (plain : '/' ∉ s) : walk true s = [] := by
  simpa [walk] using @walk_inside [] s plain (.inl rfl)

theorem takeWhile_begins {p : Text} (begins : p <+: s) (slash : '/' ∈ p) :
    s.takeWhile (· ≠ '/') = p.takeWhile (· ≠ '/') := by
  obtain ⟨more, rfl⟩ := begins
  induction p with
  | nil => cases slash
  | cons c p ih =>
      by_cases here : c = '/'
      · simp [here]
      · simpa [here] using ih (by simpa [Ne.symm here] using slash)

theorem fits_begins {p : Text} (fit : fits cap dir name) (begins : p <+: name) (some_ : p ≠ []) :
    fits cap dir p := by
  obtain ⟨c, p, rfl⟩ := List.exists_cons_of_ne_nil some_
  rcases fit with rfl | rfl | room
  · obtain ⟨rfl, rfl⟩ : c = '.' ∧ p = [] := by simpa using begins
    exact Or.inl rfl
  · obtain ⟨rfl, begins⟩ : c = '.' ∧ p <+: ['.'] := by simpa using begins
    cases p with
    | nil => exact Or.inl rfl
    | cons d p =>
        obtain ⟨rfl, rfl⟩ : d = '.' ∧ p = [] := by simpa using begins
        exact Or.inr (.inl rfl)
  · exact Or.inr (.inr (by have short := begins.length_le; omega))

abbrev namesFrom (inside : Bool) (s : Text) : List Text := (walk inside s).map Prod.fst

theorem allFit_begins {p : Text} (begins : p <+: s) (fit : allFit cap dir (namesFrom inside s)) :
    allFit cap dir (namesFrom inside p) := by
  induction s generalizing p dir inside with
  | nil => simpa [List.prefix_nil.mp begins] using fit
  | cons c s ih =>
      cases p with
      | nil => trivial
      | cons d p =>
          obtain ⟨rfl, later⟩ := List.cons_prefix_cons.mp begins
          simp only [namesFrom, walk] at fit ⊢
          split at fit
          · next slash => simpa [slash] using ih later fit
          · next notSlash =>
            cases inside with
            | true => simpa [notSlash] using ih later fit
            | false =>
                simp only [Bool.false_eq_true, if_false, List.map_cons, notSlash] at fit ⊢
                by_cases slash : '/' ∈ p
                · have same := takeWhile_begins begins (by simp [slash])
                  rw [same] at fit
                  exact ⟨fit.1, ih later fit.2⟩
                · -- the component is cut and is the last one
                  rw [walk_noSlash slash]
                  refine ⟨fits_begins fit.1 ?_ (by simp [notSlash]), trivial⟩
                  obtain ⟨more, rfl⟩ := later
                  have whole : (d :: p).takeWhile (· ≠ '/') = d :: p := List.takeWhile_eq_self_iff.mpr (by grind)
                  rw [whole, ← List.cons_append, List.takeWhile_append_of_pos (by grind)]
                  exact List.prefix_append _ _

theorem unfit_prefix (misfit : ¬ allFit cap dir (namesFrom inside s)) :
    ∃ p, p <+: s ∧ (namesFrom inside p).foldl (placeName cap) dir ≠
    (namesFrom inside p).foldl climb dir := by
  induction s generalizing dir inside with
  | nil => exact absurd trivial misfit
  | cons c s ih =>
      simp only [namesFrom, walk] at misfit
      split at misfit
      · next slash =>
        obtain ⟨p, begins, differ⟩ := ih misfit
        exact ⟨c :: p, List.cons_prefix_cons.mpr ⟨rfl, begins⟩, by simpa [namesFrom, walk, slash] using differ⟩
      · next notSlash =>
        cases inside with
        | true =>
            obtain ⟨p, begins, differ⟩ := ih misfit
            exact ⟨c :: p, List.cons_prefix_cons.mpr ⟨rfl, begins⟩, by simpa [namesFrom, walk, notSlash] using differ⟩
        | false =>
            simp only [Bool.false_eq_true, if_false, List.map_cons, allFit] at misfit
            obtain ⟨name, isName⟩ : ∃ name, (c :: s).takeWhile (· ≠ '/') = name := ⟨_, rfl⟩
            rw [isName] at misfit
            by_cases fit : fits cap dir name
            · obtain ⟨p, begins, differ⟩ := ih fun others => misfit ⟨fit, others⟩
              have slash : '/' ∈ p := by
                by_contra none_
                exact differ (by simp [namesFrom, walk_noSlash none_])
              have whole : c :: p <+: c :: s := List.cons_prefix_cons.mpr ⟨rfl, begins⟩
              refine ⟨c :: p, whole, ?_⟩
              rw [takeWhile_begins whole (by simp [slash])] at isName
              simp only [namesFrom, walk, notSlash, if_false, Bool.false_eq_true, List.map_cons,
                List.foldl_cons, isName, placeName_fits fit]
              exact differ
            · refine ⟨name, isName ▸ List.takeWhile_prefix _, ?_⟩
              have plain : Plain name := by
                refine ⟨by simp [← isName, notSlash], isName ▸ (upToSlash (c :: s)).1⟩
              have single := walk_name plain (.inl rfl)
              rw [List.append_nil] at single
              have special : ¬ (name = ['.'] ∨ name = ['.', '.']) := fun either => fit (either.elim Or.inl fun up => Or.inr (.inl up))
              have room : ¬ (render dir).length + name.length + 2 < cap := fun room => fit (Or.inr (.inr room))
              obtain ⟨dot, up⟩ := not_or.mp special
              simp [namesFrom, single, walk, placeName, climb, dot, up, room]

theorem climb_plain (plain : ∀ name ∈ dir, Plain name) (more : ∀ name ∈ todo, Plain name) :
    ∀ name ∈ todo.foldl climb dir, Plain name := by
  induction todo generalizing dir with
  | nil => exact plain
  | cons name todo ih =>
      obtain ⟨here, later⟩ := List.forall_mem_cons.mp more
      refine ih ?_ later
      unfold climb
      split_ifs
      · exact plain
      · exact fun other member => plain other (List.mem_of_mem_dropLast member)
      · simpa [or_imp, forall_and] using ⟨plain, here⟩

theorem pathNormalize_lexical_iff :
    pathNormalize cap path = lexical path ↔
    (names path).foldl (placeName cap) [] = (names path).foldl climb [] := by
  rw [pathNormalize_eq, lexical,
    absolute_inj (Settled.foldl settled_nil names_plain).1.plain
    (climb_plain (by simp) names_plain)]

theorem normalize_iff_fit : (∀ p, p <+: path → pathNormalize cap p = lexical p) ↔
    allFit cap [] (names path) := by
  refine ⟨fun right => ?_,
    fun fit p begins => pathNormalize_lexical_iff.mpr (foldl_fit (allFit_begins begins fit))⟩
  by_contra misfit
  obtain ⟨p, begins, differ⟩ := unfit_prefix misfit
  exact differ (pathNormalize_lexical_iff.mp (right p begins))

variable {find : Text → Option ManifestEntry} {lastLink last : Option Text}

theorem lxWalk_arrived {found : List Text} (plain : ∀ name ∈ found, Plain name)
    (free : ∀ a b, found = a ++ b → a ≠ [] → ∀ target, find (render a) ≠ some (.link target))
    (short : (render found).length < 320)
    (arrives : lxWalk find followLast (render found) lastLink (walk false s) = .arrived out last) :
    LinkFree find followLast out ∧ out.length < 320 := by
  obtain ⟨todo, isTodo⟩ : ∃ todo, walk false s = todo := ⟨_, rfl⟩
  rw [isTodo] at arrives
  induction todo generalizing found s lastLink with
  | nil =>
      obtain ⟨rfl, -⟩ : render found = out ∧ lastLink = last := by simpa [lxWalk] using arrives
      refine ⟨fun a b isNames some_ _ => free a b ?_ some_, short⟩
      rwa [names_render plain] at isNames
  | cons piece more ih =>
      obtain ⟨name, rest⟩ := piece
      obtain ⟨here, isMore⟩ := walk_cons isTodo
      have next : render found ++ '/' :: name = render (found ++ [name]) := (render_append found name).symm
      have plainNext : ∀ other ∈ found ++ [name], Plain other := by
        simpa [or_imp, forall_and] using ⟨plain, here⟩
      simp only [lxWalk, next] at arrives
      split at arrives
      · cases arrives
      · next room =>
        have shortNext : (render (found ++ [name])).length < 320 := by
          simp only [render_append, List.length_append, List.length_cons]
          omega
        -- what is found before the name is free of links already
        have freeNext : ∀ a b, found ++ [name] = a ++ b → a ≠ [] → b ≠ [] →
            ∀ target, find (render a) ≠ some (.link target) := by
          intro a b same some_ others
          obtain ⟨b, lastName, rfl⟩ := (List.eq_nil_or_concat b).resolve_left others
          rw [List.concat_eq_append, ← List.append_assoc] at same
          exact free a b (List.append_inj_left' same rfl) some_
        split at arrives
        · next target isLink =>
          split at arrives
          · cases arrives
          · next passes =>
            obtain ⟨ends, stays⟩ : (rest = [] ∨ rest = ['/']) ∧ followLast = false := by
              simpa [or_iff_not_imp_left] using passes
            have empty : more = [] := by rw [isMore]; rcases ends with rfl | rfl <;> rfl
            obtain ⟨rfl, -⟩ : render (found ++ [name]) = out ∧ some target = last := by simpa [empty, lxWalk] using arrives
            refine ⟨fun a b isNames some_ either => freeNext a b ?_ some_ ?_, shortNext⟩
            · rwa [names_render plainNext] at isNames
            · exact either.resolve_right (by simp [stays])
        · next noLink =>
          refine ih plainNext (fun a b same some_ => ?_) shortNext arrives isMore.symm
          by_cases whole : b = []
          · rw [whole, List.append_nil] at same
            rw [← same]
            exact noLink
          · exact freeNext a b same some_ whole

theorem snprintf_short {cap : Nat} (short : s.length < cap) : snprintf cap s = s :=
  List.take_of_length_le (by omega)

theorem lxFollow_ends {manifest : Option (Text → Option ManifestEntry)}
    (short : path.length < 320) : (lxFollow manifest followLast 320 path).1 = path ∨
      ∃ find, manifest = some find ∧ LinkFree find followLast (lxFollow manifest followLast 320 path).1 := by
  cases manifest with
  | none => exact .inl (snprintf_short short)
  | some find =>
      obtain ⟨depth, work, run⟩ : ∃ depth work,
          lxFollow (some find) followLast 320 path = lxFollowFrom find followLast 320 path depth work := ⟨_, _, rfl⟩
      rw [run]
      clear run
      induction depth generalizing work with
      | zero => exact .inl (snprintf_short short)
      | succ depth ih =>
          rw [lxFollowFrom]
          cases ends : lxWalk find followLast [] none (walk false work) with
          | tooLong => exact .inl (snprintf_short short)
          | expand next => exact ih (pathNormalize 640 next)
          | arrived cur last =>
              obtain ⟨free, room⟩ := lxWalk_arrived (nofun : ∀ name ∈ ([] : List Text), Plain name) (fun a b same some_ => by simp_all) (by simp) ends
              refine .inr ⟨find, rfl, ?_⟩
              by_cases empty : cur = []
              · intro a b isNames some_
                simp [empty, names, snprintf, walk, some_] at isNames
              · simpa [empty, snprintf_short room] using free

theorem pathNormalize_length (cap : Nat) (path : Text) (some_ : 2 ≤ cap) :
    (pathNormalize cap path).length < cap := by
  have settled := (@Settled.foldl cap [] (names path) settled_nil names_plain).1
  rw [pathNormalize_eq, absolute]
  split
  · exact some_
  · next others =>
    obtain ⟨before, name, isDir⟩ := (List.eq_nil_or_concat _).resolve_left others
    rw [List.concat_eq_append] at isDir
    have room := settled.room before name [] (by simpa using isDir)
    rw [isDir, render_append, List.length_append, List.length_cons]
    omega

/-- Normalization is lexical on a path and its beginnings exactly when no component is left out; it
is idempotent in any case, and following links ends without them or with the path as it was. -/
theorem paths_named_iff (cap : Nat) (path : Text) :
    ((∀ p, p <+: path → pathNormalize cap p = lexical p) ↔ allFit cap [] (names path)) ∧
    pathNormalize cap (pathNormalize cap path) = pathNormalize cap path ∧
    ∀ manifest followLast, let normal := pathNormalize 320 path
      (lxFollow manifest followLast 320 normal).1 = normal ∨
        ∃ find, manifest = some find ∧ LinkFree find followLast (lxFollow manifest followLast 320 normal).1 :=
  ⟨normalize_iff_fit, pathNormalize_idempotent cap path,
    fun _ _ => lxFollow_ends (pathNormalize_length 320 path (by decide))⟩

/-- The file `/aa…/bb…` of 319 characters becomes its directory. -/
theorem path_loses_name :
    let path := render [List.replicate 200 'a', List.replicate 117 'b']
    path.length = 319 ∧ pathNormalize 320 path = render [List.replicate 200 'a'] ∧
      lexical path = path ∧ pathNormalize 320 path ≠ lexical path := by
  set_option maxRecDepth 100000 in decide

end Cos.Paths
