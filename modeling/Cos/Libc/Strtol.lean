import Mathlib

/-! # Integers from strings

`strtoull` and `strtoll`.  A string is the list of its bytes up to the NUL, which reads as 0.
-/

namespace Cos.Libc

abbrev Bytes := List UInt8

def isspace (c : UInt8) : Bool := c = 32 || (9 ≤ c && c ≤ 13)

def isxdigit (c : UInt8) : Bool :=
  (48 ≤ c && c ≤ 57) || (97 ≤ c && c ≤ 102) || (65 ≤ c && c ≤ 70)

def digitVal (c : UInt8) : Nat :=
  if 48 ≤ c ∧ c ≤ 57 then c.toNat - 48
  else if 97 ≤ c ∧ c ≤ 122 then c.toNat - 97 + 10
  else if 65 ≤ c ∧ c ≤ 90 then c.toNat - 65 + 10
  else 99

/-- What is stored through `end`, the result, and whether `errno` becomes `ERANGE`. -/
structure Converted where
  rest : Bytes
  value : BitVec 64
  erange : Bool
deriving DecidableEq, Repr

def takeSign : Bytes → Bool × Bytes
  | [] => (false, [])
  | c :: s => if c = 43 ∨ c = 45 then (c = 45, s) else (false, c :: s)

def hexPrefixed (s : Bytes) : Bool :=
  s.getD 0 0 = 48 && (s.getD 1 0 = 120 || s.getD 1 0 = 88) && isxdigit (s.getD 2 0)

/-- The base of the digits, and where they begin. -/
def pickBase (base : Nat) (s : Bytes) : Nat × Bytes :=
  if (base = 0 ∨ base = 16) ∧ hexPrefixed s then (16, s.drop 2)
  else if base = 0 ∧ s.getD 0 0 = 48 then (8, s)
  else if base = 0 then (10, s)
  else (base, s)

/-- The loop over the digits: the value, `any`, `overflow` and where it stops. -/
def accumulate (base : Nat) (v : BitVec 64) (any overflow : Bool) :
    Bytes → BitVec 64 × Bool × Bool × Bytes
  | [] => (v, any, overflow, [])
  | c :: s =>
      let d := digitVal c
      if d ≥ base then (v, any, overflow, c :: s)
      else accumulate base (v * BitVec.ofNat 64 base + BitVec.ofNat 64 d) true
        (overflow || v > (BitVec.allOnes 64 - BitVec.ofNat 64 d) / BitVec.ofNat 64 base) s

def strtoull (base : Nat) (s : Bytes) : Converted :=
  let (neg, p) := takeSign (s.dropWhile isspace)
  let (base, p) := pickBase base p
  let (v, any, overflow, p) := accumulate base 0 false false p
  let rest := if any then p else s
  if overflow then ⟨rest, BitVec.allOnes 64, true⟩
  else ⟨rest, if neg then -v else v, false⟩

def strtoll (base : Nat) (s : Bytes) : Converted :=
  let neg := (s.dropWhile isspace).getD 0 0 = 45
  let r := strtoull base s
  if neg then
    if -r.value > (1 : BitVec 64) <<< 63 then ⟨r.rest, 1#64 <<< 63, true⟩ else r
  else if r.value > 0x7FFFFFFFFFFFFFFF#64 then ⟨r.rest, 0x7FFFFFFFFFFFFFFF#64, true⟩
  else r

def valueOf (radix : Nat) (digits : Bytes) : Nat :=
  digits.foldl (fun v c => v * radix + digitVal c) 0

/-- The sign of a subject sequence. -/
def IsSign (sign : Bytes) (neg : Bool) : Prop :=
  sign = [] ∧ neg = false ∨ sign = [43] ∧ neg = false ∨ sign = [45] ∧ neg = true

/-- A number without its sign: digits of the given base, after `0x` where that is allowed; an
integer constant of the language when the base is 0. -/
def IsNumber (base : Nat) (start digits : Bytes) (radix : Nat) : Prop :=
  digits ≠ [] ∧ (∀ c ∈ digits, digitVal c < radix) ∧
    (2 ≤ base ∧ radix = base ∧ start = [] ∨
      (base = 0 ∨ base = 16) ∧ radix = 16 ∧ (start = [48, 120] ∨ start = [48, 88]) ∨
      base = 0 ∧ radix = 10 ∧ start = [] ∧ digits.head? ≠ some 48 ∨
      base = 0 ∧ radix = 8 ∧ start = [] ∧ digits.head? = some 48)

/-- The expected form of the subject sequence, and the number it denotes. -/
def Subject (base : Nat) (text : Bytes) (neg : Bool) (value : Nat) : Prop :=
  ∃ sign start digits radix, text = sign ++ (start ++ digits) ∧ IsSign sign neg ∧
    IsNumber base start digits radix ∧ value = valueOf radix digits

/-- The subject sequence: the longest initial part, after white space, of the expected form. -/
structure LongestSubject (base : Nat) (s text rest : Bytes) (neg : Bool) (value : Nat) : Prop where
  split : s.dropWhile isspace = text ++ rest
  subject : Subject base text neg value
  longest : ∀ other neg' value', other <+: s.dropWhile isspace → Subject base other neg' value' →
    other.length ≤ text.length

def NoSubject (base : Nat) (s : Bytes) : Prop :=
  ∀ text neg value, text <+: s.dropWhile isspace → ¬Subject base text neg value

def StandardUnsigned (base : Nat) (s : Bytes) (r : Converted) : Prop :=
  (∀ text rest neg value, LongestSubject base s text rest neg value → r.rest = rest ∧
    if value < 2 ^ 64 then
      r.erange = false ∧ r.value = if neg then -BitVec.ofNat 64 value else BitVec.ofNat 64 value
    else r.erange = true ∧ r.value = BitVec.allOnes 64) ∧
  (NoSubject base s → r = ⟨s, 0, false⟩)

def signed (neg : Bool) (value : Nat) : Int := if neg then -value else value

def StandardSigned (base : Nat) (s : Bytes) (r : Converted) : Prop :=
  (∀ text rest neg value, LongestSubject base s text rest neg value → r.rest = rest ∧
    if signed neg value < -2 ^ 63 then r.erange = true ∧ r.value.toInt = -2 ^ 63
    else if 2 ^ 63 ≤ signed neg value then r.erange = true ∧ r.value.toInt = 2 ^ 63 - 1
    else r.erange = false ∧ r.value.toInt = signed neg value) ∧
  (NoSubject base s → r = ⟨s, 0, false⟩)

/-- The subject is a negative number whose magnitude `strtoull` cannot hold. -/
def NegativeBeyond (base : Nat) (s : Bytes) : Prop :=
  ∃ text rest value, LongestSubject base s text rest true value ∧ 2 ^ 64 ≤ value

variable {base radix radix' value : Nat} {s p t text rest start digits start' digits' sign : Bytes}
  {neg : Bool}
variable {c : UInt8} {v : BitVec 64} {any overflow : Bool}

def BaseAllowed (base : Nat) : Prop := base = 0 ∨ 2 ≤ base ∧ base ≤ 36

theorem isxdigit_iff (c : UInt8) : isxdigit c = true ↔ digitVal c < 16 := by
  simp only [isxdigit, digitVal, Bool.or_eq_true, Bool.and_eq_true, decide_eq_true_eq,
    UInt8.le_iff_toNat_le]
  simp only [UInt8.toNat_ofNat, Nat.reducePow, Nat.reduceMod]
  split_ifs <;> omega

theorem valueOf_append :
    valueOf radix (digits ++ [c]) = valueOf radix digits * radix + digitVal c := by
  simp [valueOf]

/-- What the loop has found after `before`. -/
structure Accumulated (base : Nat) (before : Bytes) (v : BitVec 64) (any overflow : Bool) :
    Prop where
  value : v.toNat = valueOf base before % 2 ^ 64
  any : any = true ↔ before ≠ []
  overflow : overflow = true ↔ 2 ^ 64 ≤ valueOf base before

theorem Accumulated.next (found : Accumulated base digits v any overflow)
    (inside : digitVal c < base) (few : base ≤ 36) :
    Accumulated base (digits ++ [c]) (v * BitVec.ofNat 64 base + BitVec.ofNat 64 (digitVal c)) true
      (overflow || v > (BitVec.allOnes 64 - BitVec.ofNat 64 (digitVal c)) / BitVec.ofNat 64 base) := by
  have baseNat : (BitVec.ofNat 64 base).toNat = base := by
    rw [BitVec.toNat_ofNat]; omega
  have digitNat : (BitVec.ofNat 64 (digitVal c)).toNat = digitVal c := by
    rw [BitVec.toNat_ofNat]; omega
  have limit : ((BitVec.allOnes 64 - BitVec.ofNat 64 (digitVal c)) / BitVec.ofNat 64 base).toNat =
      (2 ^ 64 - 1 - digitVal c) / base := by
    rw [BitVec.toNat_udiv, BitVec.toNat_sub_of_le, BitVec.toNat_allOnes, digitNat, baseNat]
    rw [BitVec.le_def, BitVec.toNat_allOnes, digitNat]
    omega
  refine ⟨?_, by simp, ?_⟩
  · rw [BitVec.toNat_add, BitVec.toNat_mul, baseNat, digitNat, found.value, valueOf_append]
    simp only [Nat.add_mod, Nat.mul_mod, Nat.mod_mod]
  · rw [Bool.or_eq_true, decide_eq_true_eq, gt_iff_lt, BitVec.lt_def, limit, found.overflow,
      valueOf_append]
    have positive : 0 < base := by omega
    by_cases small : valueOf base digits < 2 ^ 64
    · rw [found.value, Nat.mod_eq_of_lt small, Nat.div_lt_iff_lt_mul positive]
      generalize valueOf base digits * base = product
      omega
    · have grows := Nat.le_mul_of_pos_right (valueOf base digits) positive
      omega

theorem accumulate_spec (few : base ≤ 36) (found : Accumulated base digits v any overflow)
    (t : Bytes) : ∃ v' any' overflow', accumulate base v any overflow t =
        (v', any', overflow', t.dropWhile fun c => digitVal c < base) ∧
      Accumulated base (digits ++ t.takeWhile fun c => digitVal c < base) v' any' overflow' := by
  induction t generalizing digits v any overflow with
  | nil => exact ⟨v, any, overflow, rfl, by simpa using found⟩
  | cons c t ih =>
      by_cases inside : digitVal c < base
      · obtain ⟨v', any', overflow', ran, after⟩ := ih (found.next inside few)
        refine ⟨v', any', overflow', ?_, ?_⟩
        · rw [accumulate, if_neg (Nat.not_le.mpr inside), ran, List.dropWhile_cons_of_pos (by simpa using inside)]
        · rwa [List.takeWhile_cons_of_pos (by simpa using inside), List.append_cons]
      · refine ⟨v, any, overflow, ?_, ?_⟩
        · rw [accumulate, if_pos (Nat.not_lt.mp inside), List.dropWhile_cons_of_neg (by simpa using inside)]
        · rwa [List.takeWhile_cons_of_neg (by simpa using inside), List.append_nil]

theorem prefix_takeWhile {digits t : Bytes} (start : digits <+: t)
    (inside : ∀ c ∈ digits, digitVal c < radix) :
    digits <+: t.takeWhile fun c => digitVal c < radix := by
  obtain ⟨more, rfl⟩ := start
  rw [List.takeWhile_append_of_pos fun c member => decide_eq_true (inside c member)]
  exact List.prefix_append _ _

theorem length_le_one {x : UInt8} (short : digits <+: c :: x :: t) (stops : ¬digitVal x < radix)
    (inside : ∀ c ∈ digits, digitVal c < radix) : digits.length ≤ 1 := by
  match digits, short with
  | [], _ => exact Nat.zero_le 1
  | [_], _ => exact Nat.le_refl 1
  | a :: b :: _, short =>
      obtain ⟨more, same⟩ := short
      have isX : b = x := (List.cons.inj (List.cons.inj same).2).1
      exact absurd (inside b (by simp)) (isX ▸ stops)

/-- `p` begins with the digits of a number behind `start`, or with none; no number at the start
of `p` is longer, and none as long is another one. -/
structure Numbered (base : Nat) (p start : Bytes) (radix : Nat) (digits rest : Bytes) : Prop where
  split : p = start ++ (digits ++ rest)
  number : digits ≠ [] → IsNumber base start digits radix
  longest : ∀ start' digits' radix', start' ++ digits' <+: p → IsNumber base start' digits' radix' →
    digits ≠ [] ∧ ((start' ++ digits').length < (start ++ digits).length ∨
      (start' ++ digits').length = (start ++ digits).length ∧ digits' = digits ∧ radix' = radix)

/-- Where a number can only be plain digits of one base, it ends with the last of them. -/
theorem Numbered.plain (number : ∀ digits : Bytes, digits ≠ [] → digits <+: p →
      (∀ c ∈ digits, digitVal c < radix) → IsNumber base [] digits radix)
    (only : ∀ start' digits' radix', start' ++ digits' <+: p → IsNumber base start' digits' radix' →
      start' = [] ∧ radix' = radix) :
    Numbered base p [] radix (p.takeWhile fun c => digitVal c < radix)
      (p.dropWhile fun c => digitVal c < radix) := by
  refine ⟨by simp, fun found => number _ found ( List.takeWhile_prefix _) fun c member => ?_, ?_⟩
  · simpa using List.mem_takeWhile_imp member
  · intro start' digits' radix' begins isNumber
    obtain ⟨rfl, rfl⟩ := only _ _ _ begins isNumber
    have within := prefix_takeWhile begins isNumber.2.1
    refine ⟨fun none => isNumber.1 (List.prefix_nil.mp (none ▸ within)), ?_⟩
    rcases Nat.lt_or_ge digits'.length (p.takeWhile fun c => digitVal c < radix').length with
      shorter | longer
    · exact .inl shorter
    · have same := within.eq_of_length_le longer
      exact .inr ⟨congrArg List.length same, same, rfl⟩

theorem hexPrefixed_iff : hexPrefixed p = true ↔
    ∃ x h t, p = 48 :: x :: h :: t ∧ (x = 120 ∨ x = 88) ∧ digitVal h < 16 := by
  have none : isxdigit 0 = false := by decide
  match p with
  | [] => simp [hexPrefixed]
  | [a] => simp [hexPrefixed]
  | [a, b] => simp [hexPrefixed, none]
  | a :: b :: c :: t =>
      simp only [hexPrefixed, List.getD_cons_zero, List.getD_cons_succ, Bool.and_eq_true,
        Bool.or_eq_true, decide_eq_true_eq, isxdigit_iff]
      constructor
      · rintro ⟨⟨rfl, isX⟩, isDigit⟩
        exact ⟨b, c, t, rfl, isX, isDigit⟩
      · rintro ⟨x, h, t, same, isX, isDigit⟩
        cases same
        exact ⟨⟨rfl, isX⟩, isDigit⟩

theorem not_digit_x {x : UInt8} (isX : x = 120 ∨ x = 88) : ¬digitVal x < 16 := by
  rcases isX with rfl | rfl <;> decide

theorem numbered_hex {x h : UInt8} (base16 : base = 0 ∨ base = 16) (isX : x = 120 ∨ x = 88)
    (isDigit : digitVal h < 16) :
      Numbered base (48 :: x :: h :: t) [48, x] 16 ((h :: t).takeWhile fun c => digitVal c < 16)
      ((h :: t).dropWhile fun c => digitVal c < 16) := by
  have found : ((h :: t).takeWhile fun c => digitVal c < 16) ≠ [] := by
    rw [List.takeWhile_cons_of_pos (by simpa using isDigit)]
    exact List.cons_ne_nil _ _
  refine ⟨by simp, fun _ => ⟨found, fun c member => by simpa using List.mem_takeWhile_imp member, .inr (.inl ?_)⟩, ?_⟩
  · exact ⟨base16, rfl, isX.imp (by rintro rfl; rfl) (by rintro rfl; rfl)⟩
  · intro start' digits' radix' begins isNumber
    refine ⟨found, ?_⟩
    have short : ∀ r, r ≤ 16 → start' = [] → (∀ c ∈ digits', digitVal c < r) →
        (start' ++ digits').length < ([48, x] ++ (h :: t).takeWhile fun c => digitVal c < 16).length := by
      rintro r few rfl inside
      have one := length_le_one begins (fun inside => not_digit_x isX (by omega)) inside
      have more := List.length_pos_iff.mpr found
      simp only [List.nil_append, List.length_append, List.length_cons, List.length_nil] at one more ⊢
      omega
    obtain ⟨nonempty, inside, ⟨two, rfl, plain⟩ | ⟨-, rfl, hex⟩ | ⟨-, -, rfl, head⟩ |
      ⟨-, rfl, plain, -⟩⟩ := isNumber
    · exact .inl (short _ (by omega) plain inside)
    · obtain ⟨y, rfl⟩ : ∃ y, start' = [48, y] := hex.elim (⟨_, ·⟩) (⟨_, ·⟩)
      obtain ⟨more, same⟩ := begins
      obtain ⟨-, rfl, rest⟩ : 48 = (48 : UInt8) ∧ y = x ∧ digits' ++ more = h :: t := by simpa using same
      have within : digits' <+: (h :: t).takeWhile fun c => digitVal c < 16 := prefix_takeWhile ⟨more, rest⟩ inside
      rcases Nat.lt_or_ge digits'.length ((h :: t).takeWhile fun c => digitVal c < 16).length with shorter | longer
      · exact .inl (by simpa using shorter)
      · have isAll := within.eq_of_length_le longer
        exact .inr ⟨by rw [isAll], isAll, rfl⟩
    · obtain ⟨d, more, rfl⟩ := List.exists_cons_of_ne_nil nonempty
      obtain ⟨rest, same⟩ := begins
      exact absurd (congrArg some (List.cons.inj same).1) head
    · exact .inl (short _ (by omega) plain inside)

theorem number_start (begins : start' ++ digits' <+: p)
    (isNumber : IsNumber base start' digits' radix')
    (notHex : ¬((base = 0 ∨ base = 16) ∧ hexPrefixed p)) : start' = [] := by
  obtain ⟨nonempty, inside, ⟨-, -, plain⟩ | ⟨base16, rfl, hex⟩ | ⟨-, -, plain, -⟩ |
    ⟨-, -, plain, -⟩⟩ := isNumber
  · exact plain
  · obtain ⟨h, digits, rfl⟩ := List.exists_cons_of_ne_nil nonempty
    obtain ⟨rest, rfl⟩ := begins
    refine absurd ⟨base16, hexPrefixed_iff.mpr ?_⟩ notHex
    rcases hex with rfl | rfl
    · exact ⟨120, h, _, rfl, .inl rfl, inside h List.mem_cons_self⟩
    · exact ⟨88, h, _, rfl, .inr rfl, inside h List.mem_cons_self⟩
  · exact plain
  · exact plain

theorem number_head (begins : digits' <+: p) (nonempty : digits' ≠ []) :
    digits'.head? = p.head? := by
  obtain ⟨rest, rfl⟩ := begins
  obtain ⟨c, digits, rfl⟩ := List.exists_cons_of_ne_nil nonempty
  rfl

theorem getD_eq_iff : p.getD 0 0 = 48 ↔ p.head? = some 48 := by
  cases p <;> simp

theorem pickBase_numbered (allowed : BaseAllowed base) (p : Bytes) :
    ∃ radix t start, pickBase base p = (radix, t) ∧ radix ≤ 36 ∧
      Numbered base p start radix (t.takeWhile fun c => digitVal c < radix)
      (t.dropWhile fun c => digitVal c < radix) := by
  unfold pickBase
  by_cases hex : (base = 0 ∨ base = 16) ∧ hexPrefixed p
  · obtain ⟨x, h, t, rfl, isX, isDigit⟩ := hexPrefixed_iff.mp hex.2
    exact ⟨16, h :: t, [48, x], by rw [if_pos hex]; rfl, by decide, numbered_hex hex.1 isX isDigit⟩
  rw [if_neg hex]
  have plain := fun start' digits' radix' begins isNumber =>
    @number_start base radix' p start' digits' begins isNumber hex
  by_cases isZero : base = 0
  · have noBase : ¬2 ≤ base := by omega
    by_cases octal : p.getD 0 0 = 48
    · rw [if_pos ⟨isZero, octal⟩]
      rw [getD_eq_iff] at octal
      refine ⟨8, p, [], rfl, by decide, .plain (fun digits found begins inside => ⟨found, inside, ?_⟩) ?_⟩
      · exact .inr (.inr (.inr ⟨isZero, rfl, rfl, (number_head begins found).trans octal⟩))
      · intro start' digits' radix' begins isNumber
        have noStart := plain _ _ _ begins isNumber
        subst noStart
        obtain ⟨found, -, ⟨two, -⟩ | ⟨-, -, hex⟩ | ⟨-, -, -, head⟩ | ⟨-, isRadix, -⟩⟩ := isNumber
        · exact absurd two noBase
        · simp at hex
        · exact absurd ((number_head begins found).trans octal) head
        · exact ⟨rfl, isRadix⟩
    · rw [if_neg fun both => octal both.2, if_pos isZero]
      rw [getD_eq_iff] at octal
      refine ⟨10, p, [], rfl, by decide, .plain (fun digits found begins inside => ⟨found, inside, ?_⟩) ?_⟩
      · exact .inr (.inr (.inl ⟨isZero, rfl, rfl, fun head => octal ((number_head begins found).symm.trans head)⟩))
      · intro start' digits' radix' begins isNumber
        have noStart := plain _ _ _ begins isNumber
        subst noStart
        obtain ⟨found, -, ⟨two, -⟩ | ⟨-, -, hex⟩ | ⟨-, isRadix, -⟩ | ⟨-, -, -, head⟩⟩ := isNumber
        · exact absurd two noBase
        · simp at hex
        · exact ⟨rfl, isRadix⟩
        · exact absurd ((number_head begins found).symm.trans head) octal
  · rw [if_neg fun both => isZero both.1, if_neg isZero]
    obtain ⟨two, few⟩ := allowed.resolve_left isZero
    refine ⟨base, p, [], rfl, few,
      .plain (fun digits found begins inside => ⟨found, inside, .inl ⟨two, rfl, rfl⟩⟩) ?_⟩
    intro start' digits' radix' begins isNumber
    have noStart := plain _ _ _ begins isNumber
    subst noStart
    obtain ⟨-, -, ⟨-, isRadix, -⟩ | ⟨-, -, hex⟩ | ⟨zero, -⟩ | ⟨zero, -⟩⟩ := isNumber
    · exact ⟨rfl, isRadix⟩
    · simp at hex
    · exact absurd zero isZero
    · exact absurd zero isZero

theorem number_first (allowed : BaseAllowed base) (isNumber : IsNumber base start digits radix) :
    ∃ c more, start ++ digits = c :: more ∧ c ≠ 43 ∧ c ≠ 45 := by
  obtain ⟨nonempty, inside, forms⟩ := isNumber
  obtain ⟨c, digits, rfl⟩ := List.exists_cons_of_ne_nil nonempty
  have small : radix ≤ 36 := by
    have := allowed
    unfold BaseAllowed at this
    omega
  have isDigit := inside c List.mem_cons_self
  have plain : c ≠ 43 ∧ c ≠ 45 := by
    constructor <;> rintro rfl <;> exact absurd (Nat.lt_of_lt_of_le isDigit small) (by decide)
  obtain ⟨-, -, rfl⟩ | ⟨-, -, rfl | rfl⟩ | ⟨-, -, rfl, -⟩ | ⟨-, -, rfl, -⟩ := forms
  · exact ⟨c, digits, rfl, plain⟩
  · exact ⟨48, _, rfl, by decide, by decide⟩
  · exact ⟨48, _, rfl, by decide, by decide⟩
  · exact ⟨c, digits, rfl, plain⟩
  · exact ⟨c, digits, rfl, plain⟩

theorem takeSign_spec (p : Bytes) :
    ∃ sign, p = sign ++ (takeSign p).2 ∧ IsSign sign (takeSign p).1 ∧
    (sign = [] → ∀ c, p.head? = some c → c ≠ 43 ∧ c ≠ 45) := by
  match p with
  | [] => exact ⟨[], rfl, Or.inl ⟨rfl, rfl⟩, fun _ c isHead => absurd isHead (by simp)⟩
  | c :: s =>
      by_cases isPlus : c = 43
      · exact ⟨[43], by simp [takeSign, isPlus], Or.inr (.inl ⟨rfl, by simp [takeSign, isPlus]⟩), nofun⟩
      by_cases isMinus : c = 45
      · exact ⟨[45], by simp [takeSign, isMinus], Or.inr (.inr ⟨rfl, by simp [takeSign, isMinus]⟩), nofun⟩
      · refine ⟨[], by simp [takeSign, isPlus, isMinus], Or.inl ⟨rfl, by simp [takeSign, isPlus, isMinus]⟩, ?_⟩
        rintro - d isHead
        cases isHead
        exact ⟨isPlus, isMinus⟩

/-- A subject sequence at the start of `p` has the sign of `p`. -/
theorem subject_sign (allowed : BaseAllowed base) (begins : text <+: p)
    (subject : Subject base text neg value) {sign p' : Bytes} {neg' : Bool} (split : p = sign ++ p')
    (isSign : IsSign sign neg') (unsigned : sign = [] → ∀ c, p.head? = some c → c ≠ 43 ∧ c ≠ 45) :
    neg = neg' ∧ ∃ start digits radix, text = sign ++ (start ++ digits) ∧ start ++ digits <+: p' ∧
      IsNumber base start digits radix ∧ value = valueOf radix digits := by
  obtain ⟨sign', start, digits, radix, rfl, isSign', isNumber, isValue⟩ := subject
  obtain ⟨c, more, first, notPlus, notMinus⟩ := number_first allowed isNumber
  obtain ⟨rest, same⟩ := begins
  subst split
  have both : sign' = sign ∧ neg = neg' := by
    rw [first] at same
    rcases isSign with ⟨rfl, rfl⟩ | ⟨rfl, rfl⟩ | ⟨rfl, rfl⟩
    · rcases isSign' with ⟨rfl, rfl⟩ | ⟨rfl, rfl⟩ | ⟨rfl, rfl⟩
      · exact ⟨rfl, rfl⟩
      · exact absurd rfl (unsigned rfl 43 (by rw [← same]; rfl)).1
      · exact absurd rfl (unsigned rfl 45 (by rw [← same]; rfl)).2
    · rcases isSign' with ⟨rfl, rfl⟩ | ⟨rfl, rfl⟩ | ⟨rfl, rfl⟩
      · exact absurd (List.cons.inj same).1 notPlus
      · exact ⟨rfl, rfl⟩
      · exact absurd (List.cons.inj same).1 (by decide)
    · rcases isSign' with ⟨rfl, rfl⟩ | ⟨rfl, rfl⟩ | ⟨rfl, rfl⟩
      · exact absurd (List.cons.inj same).1 notMinus
      · exact absurd (List.cons.inj same).1 (by decide)
      · exact ⟨rfl, rfl⟩
  obtain ⟨rfl, rfl⟩ := both
  refine ⟨rfl, start, digits, radix, rfl, ⟨rest, ?_⟩, isNumber, isValue⟩
  rwa [List.append_assoc, List.append_cancel_left_eq] at same

/-- What the conversion has found: a subject that is the only longest one, or none. -/
structure Scanned (base : Nat) (s : Bytes) (neg : Bool) (value : Nat) (any : Bool) (rest : Bytes) :
    Prop where
  some : any = true → ∃ text, LongestSubject base s text rest neg value ∧
    ∀ other neg' value', other <+: s.dropWhile isspace → Subject base other neg' value' →
      other.length = text.length → neg' = neg ∧ value' = value
  none : any = false → value = 0 ∧ NoSubject base s

theorem scanned (allowed : BaseAllowed base) (s : Bytes) :
    ∃ radix t v any overflow rest value, pickBase base (takeSign (s.dropWhile isspace)).2 =
      (radix, t) ∧ accumulate radix 0 false false t = (v, any, overflow, rest) ∧
        v.toNat = value % 2 ^ 64 ∧ (overflow = true ↔ 2 ^ 64 ≤ value) ∧
          Scanned base s (takeSign (s.dropWhile isspace)).1 value any rest := by
  obtain ⟨sign, split, isSign, unsigned⟩ := takeSign_spec (s.dropWhile isspace)
  obtain ⟨radix, t, start, picked, few, numbered⟩ :=
    pickBase_numbered allowed (takeSign (s.dropWhile isspace)).2
  obtain ⟨v, any, overflow, ran, found⟩ := accumulate_spec few
    (⟨rfl, by simp, by simp [valueOf]⟩ : Accumulated radix [] 0 false false) t
  rw [List.nil_append] at found
  refine ⟨radix, t, v, any, overflow, _, _, picked, ran, found.value, found.overflow, ?_, ?_⟩
  · intro isAny
    have nonempty := found.any.mp isAny
    have whole : s.dropWhile isspace = (sign ++ (start ++ t.takeWhile fun c => digitVal c < radix)) ++
        t.dropWhile fun c => digitVal c < radix := by
      rw [List.append_assoc, List.append_assoc, ← numbered.split]
      exact split
    refine ⟨_, ⟨whole, ⟨sign, start, _, radix, rfl, isSign, numbered.number nonempty, rfl⟩, ?_⟩, ?_⟩
    · intro other neg' value' begins subject
      obtain ⟨-, start', digits', radix', rfl, begins', isNumber, -⟩ :=
        subject_sign allowed begins subject split isSign unsigned
      have bound := (numbered.longest _ _ _ begins' isNumber).2
      simp only [List.length_append] at bound ⊢
      omega
    · intro other neg' value' begins subject same
      obtain ⟨rfl, start', digits', radix', rfl, begins', isNumber, rfl⟩ :=
        subject_sign allowed begins subject split isSign unsigned
      rcases (numbered.longest _ _ _ begins' isNumber).2 with shorter | ⟨-, rfl, rfl⟩
      · simp only [List.length_append] at same shorter
        omega
      · exact ⟨rfl, rfl⟩
  · intro notAny
    have empty : (t.takeWhile fun c => digitVal c < radix) = [] := by
      by_contra nonempty
      rw [found.any.mpr nonempty] at notAny
      cases notAny
    refine ⟨by rw [empty]; rfl, fun text neg value begins subject => ?_⟩
    obtain ⟨-, start', digits', radix', -, begins', isNumber, -⟩ :=
      subject_sign allowed begins subject split isSign unsigned
    exact (numbered.longest _ _ _ begins' isNumber).1 empty

theorem Scanned.unique {rest' : Bytes} {neg' : Bool} {value' : Nat}
    (scan : Scanned base s neg value any rest)
    (subject : LongestSubject base s text rest' neg' value') :
    any = true ∧ rest' = rest ∧ neg' = neg ∧ value' = value := by
  have within : text <+: s.dropWhile isspace := ⟨rest', subject.split.symm⟩
  cases isAny : any with
  | false => exact absurd subject.subject ((scan.none isAny).2 _ _ _ within)
  | true =>
      obtain ⟨found, longest, only⟩ := scan.some isAny
      have begins : found <+: s.dropWhile isspace := ⟨rest, longest.split.symm⟩
      have same : text.length = found.length :=
        Nat.le_antisymm (longest.longest _ _ _ within subject.subject)
          (subject.longest _ _ _ begins longest.subject)
      have splits := subject.split.symm.trans longest.split
      exact ⟨rfl, (List.append_inj splits same).2, only _ _ _ within subject.subject same⟩

theorem Scanned.no_subject (scan : Scanned base s neg value any rest) :
    NoSubject base s ↔ any = false := by
  cases isAny : any with
  | false => exact iff_of_true (scan.none isAny).2 rfl
  | true =>
      obtain ⟨found, longest, -⟩ := scan.some isAny
      exact iff_of_false (fun none => none _ _ _ ⟨rest, longest.split.symm⟩ longest.subject) nofun

theorem Scanned.negative_beyond (scan : Scanned base s neg value any rest) :
    NegativeBeyond base s ↔ any = true ∧ neg = true ∧ 2 ^ 64 ≤ value := by
  constructor
  · rintro ⟨text, rest', value', longest, beyond⟩
    obtain ⟨isAny, -, isNeg, rfl⟩ := scan.unique longest
    exact ⟨isAny, isNeg.symm, beyond⟩
  · rintro ⟨isAny, rfl, beyond⟩
    obtain ⟨found, longest, -⟩ := scan.some isAny
    exact ⟨found, rest, value, longest, beyond⟩

theorem takeSign_minus (p : Bytes) : (takeSign p).1 = true ↔ p.getD 0 0 = 45 := by
  cases p with
  | nil => simp [takeSign]
  | cons c s => by_cases isSign : c = 43 ∨ c = 45 <;> simp_all [takeSign]

/-- `strtoull`, with what it has found. -/
theorem strtoull_eq (allowed : BaseAllowed base) (s : Bytes) :
    ∃ value any rest, Scanned base s (takeSign (s.dropWhile isspace)).1 value any rest ∧
      strtoull base s = if 2 ^ 64 ≤ value then ⟨if any then rest else s, BitVec.allOnes 64, true⟩
      else
        ⟨if any then rest else s, if (takeSign (s.dropWhile isspace)).1 then -BitVec.ofNat 64 value
          else BitVec.ofNat 64 value, false⟩ := by
  obtain ⟨radix, t, v, any, overflow, rest, value, picked, ran, isValue, overflows, scan⟩ :=
    scanned allowed s
  have isV : v = BitVec.ofNat 64 value :=
    BitVec.eq_of_toNat_eq (isValue.trans (BitVec.toNat_ofNat _ _).symm)
  refine ⟨value, any, rest, scan, ?_⟩
  unfold strtoull
  simp only [picked, ran]
  cases overflow with
  | true => simp only [if_true, if_pos (overflows.mp rfl)]
  | false =>
      have small : ¬2 ^ 64 ≤ value := fun beyond => nomatch overflows.mpr beyond
      simp only [if_neg small, Bool.false_eq_true, if_false, isV]

theorem strtoull_standard (allowed : BaseAllowed base) (s : Bytes) :
    StandardUnsigned base s (strtoull base s) := by
  obtain ⟨value, any, rest, scan, result⟩ := strtoull_eq allowed s
  rw [result]
  constructor
  · intro text rest' neg' value' longest
    obtain ⟨rfl, rfl, rfl, rfl⟩ := scan.unique longest
    by_cases small : value' < 2 ^ 64
    · rw [if_neg (Nat.not_le.mpr small), if_pos small]
      exact ⟨rfl, rfl, rfl⟩
    · rw [if_pos (Nat.not_lt.mp small), if_neg small]
      exact ⟨rfl, rfl, rfl⟩
  · intro none
    have notAny := scan.no_subject.mp none
    obtain ⟨rfl, -⟩ := scan.none notAny
    subst notAny
    cases (takeSign (s.dropWhile isspace)).1 <;> rfl

/-- What the signed result must be when the subject is known. -/
theorem Scanned.standard_signed {r : Converted} (scan : Scanned base s neg value true rest) :
    StandardSigned base s r ↔ r.rest = rest ∧
      if signed neg value < -2 ^ 63 then r.erange = true ∧ r.value.toInt = -2 ^ 63
      else if 2 ^ 63 ≤ signed neg value then r.erange = true ∧ r.value.toInt = 2 ^ 63 - 1
      else r.erange = false ∧ r.value.toInt = signed neg value := by
  constructor
  · intro standard
    obtain ⟨found, longest, -⟩ := scan.some rfl
    exact standard.1 _ _ _ _ longest
  · intro result
    refine ⟨fun text rest' neg' value' longest => ?_, fun none => nomatch scan.no_subject.mp none⟩
    obtain ⟨-, rfl, rfl, rfl⟩ := scan.unique longest
    exact result

theorem strtoll_negative {erange : Bool} (isNeg : (takeSign (s.dropWhile isspace)).1 = true)
    (result : strtoull base s = ⟨rest, v, erange⟩) :
    strtoll base s = if 2 ^ 63 < (-v).toNat then ⟨rest, 1#64 <<< 63, true⟩
    else ⟨rest, v, erange⟩ := by
  have limit : ((1 : BitVec 64) <<< 63).toNat = 2 ^ 63 := by decide
  simp only [strtoll, (takeSign_minus _).mp isNeg, result, if_true, gt_iff_lt, BitVec.lt_def, limit]

theorem strtoll_positive {erange : Bool} (notNeg : (takeSign (s.dropWhile isspace)).1 = false)
    (result : strtoull base s = ⟨rest, v, erange⟩) :
    strtoll base s = if 2 ^ 63 ≤ v.toNat then ⟨rest, 0x7FFFFFFFFFFFFFFF#64, true⟩
    else ⟨rest, v, erange⟩ := by
  have plus : (s.dropWhile isspace).getD 0 0 ≠ 45 := fun minus =>
    nomatch notNeg.symm.trans ((takeSign_minus _).mpr minus)
  have limit : (0x7FFFFFFFFFFFFFFF#64).toNat < v.toNat ↔ 2 ^ 63 ≤ v.toNat := Nat.lt_iff_add_one_le
  simp only [strtoll, plus, result, if_false, gt_iff_lt, BitVec.lt_def, limit]

theorem toInt_of_small (small : value < 2 ^ 63) : (BitVec.ofNat 64 value).toInt = value := by
  rw [BitVec.toInt_eq_toNat_of_lt, BitVec.toNat_ofNat, Nat.mod_eq_of_lt (by omega)]
  rw [BitVec.toNat_ofNat]
  omega

theorem toInt_neg_of_small (small : value ≤ 2 ^ 63) : (-BitVec.ofNat 64 value).toInt = -value := by
  have plain : (BitVec.ofNat 64 value).toNat = value := by
    rw [BitVec.toNat_ofNat]
    omega
  rw [BitVec.toInt_eq_toNat_cond, BitVec.toNat_neg, plain]
  split <;> omega

/-- Both conversions do what the standard says, `strtoll` exactly when it is not given a
negative number too large for `strtoull`. -/
theorem conversions_standard_iff (allowed : BaseAllowed base) (s : Bytes) :
    StandardUnsigned base s (strtoull base s) ∧
      (StandardSigned base s (strtoll base s) ↔ ¬NegativeBeyond base s) := by
  refine ⟨strtoull_standard allowed s, ?_⟩
  obtain ⟨value, any, rest, scan, result⟩ := strtoull_eq allowed s
  rw [scan.negative_beyond]
  cases any with
  | false =>
      obtain ⟨rfl, -⟩ := scan.none rfl
      have unconverted : strtoull base s = ⟨s, 0, false⟩ := (strtoull_standard allowed s).2 (scan.no_subject.mpr rfl)
      refine iff_of_true ⟨fun text rest' neg' value' longest =>
        absurd (scan.unique longest).1 nofun, fun _ => ?_⟩ fun beyond => nomatch beyond.1
      cases isNeg : (takeSign (s.dropWhile isspace)).1 with
      | true => exact (strtoll_negative isNeg unconverted).trans (if_neg (by decide))
      | false => exact (strtoll_positive isNeg unconverted).trans (if_neg (by decide))
  | true =>
      rw [scan.standard_signed]
      by_cases beyond : 2 ^ 64 ≤ value
      · have clamped : strtoull base s = ⟨rest, BitVec.allOnes 64, true⟩ := result.trans (if_pos beyond)
        cases isNeg : (takeSign (s.dropWhile isspace)).1 with
        | true =>
            rw [strtoll_negative isNeg clamped, if_neg (by decide)]
            refine iff_of_false (fun standard => ?_) fun allowed => allowed ⟨rfl, rfl, beyond⟩
            have below : signed true value < -2 ^ 63 := by
              simp only [signed, if_true]
              omega
            have minusOne : (BitVec.allOnes 64).toInt ≠ -2 ^ 63 := by decide
            rw [if_pos below] at standard
            exact minusOne standard.2.2
        | false =>
            rw [strtoll_positive isNeg clamped, if_pos (by decide)]
            refine iff_of_true ⟨rfl, ?_⟩ fun both => nomatch both.2.1
            have above : ¬(value : Int) < -2 ^ 63 ∧ 2 ^ 63 ≤ (value : Int) := by omega
            simp only [signed, Bool.false_eq_true, if_false, if_neg above.1, if_pos above.2]
            exact ⟨trivial, by decide⟩
      · have plain : (BitVec.ofNat 64 value).toNat = value := by
          rw [BitVec.toNat_ofNat, Nat.mod_eq_of_lt (Nat.not_le.mp beyond)]
        refine iff_of_true ?_ fun both => beyond both.2.2
        cases isNeg : (takeSign (s.dropWhile isspace)).1 with
        | true =>
            have converted : strtoull base s = ⟨rest, -BitVec.ofNat 64 value, false⟩ := by
              rw [result, if_neg beyond, isNeg]
              rfl
            rw [strtoll_negative isNeg converted, BitVec.neg_neg, plain]
            simp only [signed, if_true]
            by_cases large : 2 ^ 63 < value
            · rw [if_pos large, if_pos (by omega)]
              exact ⟨rfl, rfl, rfl⟩
            · rw [if_neg large, if_neg (by omega), if_neg (by omega)]
              exact ⟨rfl, rfl, toInt_neg_of_small (Nat.not_lt.mp large)⟩
        | false =>
            have converted : strtoull base s = ⟨rest, BitVec.ofNat 64 value, false⟩ := by
              rw [result, if_neg beyond, isNeg]
              rfl
            rw [strtoll_positive isNeg converted, plain]
            have above : ¬(value : Int) < -2 ^ 63 := by omega
            simp only [signed, Bool.false_eq_true, if_false, if_neg above]
            by_cases large : 2 ^ 63 ≤ value
            · have largeInt : 2 ^ 63 ≤ (value : Int) := by omega
              simp only [if_pos large, if_pos largeInt]
              exact ⟨trivial, trivial, by decide⟩
            · have smallInt : ¬2 ^ 63 ≤ (value : Int) := by omega
              simp only [if_neg large, if_neg smallInt]
              exact ⟨trivial, trivial, toInt_of_small (Nat.not_le.mp large)⟩

theorem conversions_standard_hex :
    StandardUnsigned 16 [48, 120, 49, 70] (strtoull 16 [48, 120, 49, 70]) ∧
    (StandardSigned 16 [48, 120, 49, 70] (strtoll 16 [48, 120, 49, 70]) ↔
    ¬NegativeBeyond 16 [48, 120, 49, 70]) :=
  conversions_standard_iff (Or.inr (by decide)) _

/-- `"18446744073709551616"`, one more than `strtoull` can return. -/
def beyondDigits : Bytes :=
  [49, 56, 52, 52, 54, 55, 52, 52, 48, 55, 51, 55, 48, 57, 53, 53, 49, 54, 49, 54]

/-- With a minus sign in front of it `strtoll` returns -1. -/
theorem strtoll_wraps_negative : ¬∀ base s, BaseAllowed base →
    StandardUnsigned base s (strtoull base s) ∧ StandardSigned base s (strtoll base s) := by
  intro claim
  have decimal : beyondDigits.all (digitVal · < 10) = true := by decide
  have standard := (claim 10 (45 :: beyondDigits) (Or.inr (by decide))).2.1 (45 :: beyondDigits) []
    true 18446744073709551616
    ⟨rfl, ⟨[45], [], beyondDigits, 10, rfl, Or.inr (.inr ⟨rfl, rfl⟩),
      ⟨by decide, by simpa using decimal, .inl ⟨by decide, rfl, rfl⟩⟩,
      rfl⟩, fun _ _ _ begins _ => begins.length_le⟩
  have below : signed true 18446744073709551616 < -2 ^ 63 := by decide
  have minusOne : (strtoll 10 (45 :: beyondDigits)).value.toInt ≠ -2 ^ 63 := by decide
  rw [if_pos below] at standard
  exact minusOne standard.2.2

end Cos.Libc
