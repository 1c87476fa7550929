import Cos.Elf.SymbolTables
import Mathlib.Data.List.Nodup
import Mathlib.Data.List.Range

/-! # Hash tables

What `DT_GNU_HASH` and `DT_HASH` have to hold for the symbols of an object, and that
`compute_nsyms` finds where the hashed symbols end.
-/

namespace Cos.Elf.Symtab

variable {mem : UserMem} {obj : SymObject} {name : CString} {version : Option CString}

def StringAt (mem : UserMem) : Addr → CString → Prop
  | addr, [] => readByte mem addr = some 0
  | addr, c :: rest => readByte mem addr = some c ∧ c ≠ 0 ∧ StringAt mem (addr + 1) rest

instance StringAt.decidable (mem : UserMem) :
    (addr : Addr) → (name : CString) → Decidable (StringAt mem addr name)
  | addr, [] => inferInstanceAs (Decidable (readByte mem addr = some 0))
  | addr, c :: rest =>
      have := StringAt.decidable mem (addr + 1) rest
      inferInstanceAs (Decidable (readByte mem addr = some c ∧ c ≠ 0 ∧ StringAt mem (addr + 1) rest))

def SymName (mem : UserMem) (obj : SymObject) (sym : Sym) (name : CString) : Prop :=
  (obj.strsz = 0 ∨ sym.name < obj.strsz.toNat) ∧
    StringAt mem (obj.strtab + BitVec.ofNat 64 sym.name) name

theorem StringAt.unique {addr : Addr} {other : CString} (first : StringAt mem addr name)
    (second : StringAt mem addr other) : name = other := by
  induction name generalizing addr other with
  | nil =>
      have zero : readByte mem addr = some 0 := first
      cases other with
      | nil => rfl
      | cons c rest =>
          obtain ⟨isByte, nonzero, -⟩ := second
          exact absurd (Option.some.inj (isByte.symm.trans zero)) nonzero
  | cons w rest ih =>
      obtain ⟨isByte, nonzero, more⟩ := first
      cases other with
      | nil => exact absurd (Option.some.inj (isByte.symm.trans second)) nonzero
      | cons c rest' =>
          obtain ⟨isByte', -, more'⟩ := second
          rw [Option.some.inj (isByte.symm.trans isByte'), ih more more']

theorem sameFrom_iff {addr : Addr} {todo : Nat} (isString : 0 ∉ name) :
    sameFrom mem todo addr name = true ↔ name.length < todo ∧ StringAt mem addr name := by
  induction todo generalizing addr name with
  | zero => simp [sameFrom]
  | succ todo ih =>
      rw [sameFrom]
      cases name with
      | nil =>
          rcases isByte : readByte mem addr with _ | c
          · simp [StringAt, isByte]
          · simp [StringAt, isByte]
      | cons w rest =>
          obtain ⟨nonzero, isString⟩ := not_or.mp (List.mem_cons.not.mp isString)
          have nonzero : w ≠ 0 := fun zero => nonzero zero.symm
          rcases isByte : readByte mem addr with _ | c
          · simp [StringAt, isByte]
          · by_cases same : w = c
            · subst same
              simp only [ne_eq, not_true_eq_false, if_false, nonzero, ih isString, StringAt, isByte, List.length_cons, not_false_eq_true, true_and]
              exact and_congr_left fun _ => Nat.succ_lt_succ_iff.symm
            · have differ : c ≠ w := fun equal => same equal.symm
              simp [StringAt, isByte, same, differ]

theorem strtabEquals_iff {sym : Sym} (isString : 0 ∉ name) :
    strtabEquals mem obj sym.name name = true ↔
    name.length ≤ maxSymname ∧ SymName mem obj sym name := by
  unfold strtabEquals SymName
  split
  · next outside =>
    have : ¬ (obj.strsz = 0 ∨ sym.name < obj.strsz.toNat) := by
      rintro (none | inside)
      · exact outside.1 none
      · omega
    exact iff_of_false Bool.false_ne_true fun both => this both.2.1
  · next inside =>
    have : obj.strsz = 0 ∨ sym.name < obj.strsz.toNat := by
      by_cases none : obj.strsz = 0
      · exact .inl none
      · exact .inr (Nat.not_le.mp fun outside => inside ⟨none, outside⟩)
    rw [sameFrom_iff isString]
    simp only [this, true_and, Nat.lt_succ_iff]

/-- A symbol that is defined, has the name and is accepted by `version_matches`. -/
structure Matches (mem : UserMem) (obj : SymObject) (name : CString) (version : Option CString)
    (index : Nat) (sym : Sym) : Prop where
  entry : symEntry mem obj index = some sym
  defined : sym.shndx ≠ 0
  named : SymName mem obj sym name
  accepted : versionMatches mem obj index version = true

/-- An index that `read_sym` lets through. -/
structure Readable (obj : SymObject) (index : Nat) : Prop where
  small : index < maxSymbols
  counted : obj.nsyms = 0 ∨ index < obj.nsyms

theorem answer_iff {index : Nat} {value : SymVal} (table : obj.symtab ≠ 0)
    (entries : 24 ≤ obj.syment.toNat) (readable : Readable obj index) (isString : 0 ∉ name)
    (short : name.length ≤ maxSymname) :
    answer mem obj name version index = some value ↔
    ∃ sym, Matches mem obj name version index sym ∧ value = fillSymval obj sym := by
  have isEntry : readSym mem obj index = symEntry mem obj index := by
    have inside : ¬ (obj.nsyms ≠ 0 ∧ obj.nsyms ≤ index) := by
      have := readable.counted
      omega
    rw [readSym, if_neg (by rintro (none | small); exacts [table none, by omega]), if_neg (Nat.not_le.mpr readable.small), if_neg inside]
  unfold answer
  rw [isEntry, Option.map_eq_some_iff]
  simp only [Option.filter_eq_some_iff, answers, Bool.and_eq_true, bne_iff_ne,
    strtabEquals_iff isString]
  constructor
  · rintro ⟨sym, ⟨entry, ⟨defined, -, named⟩, accepted⟩, rfl⟩
    exact ⟨sym, ⟨entry, defined, named, accepted⟩, rfl⟩
  · rintro ⟨sym, ⟨entry, defined, named, accepted⟩, rfl⟩
    exact ⟨sym, ⟨entry, ⟨defined, short, named⟩, accepted⟩, rfl⟩

def gnuHashOf (name : CString) : Nat := (gnuHashName name).toNat

def GnuHashHdr.bucketOf (gh : GnuHashHdr) (name : CString) : Nat := gnuHashOf name % gh.nbuckets

/-- The table has the symbols from `symoffset` to `stop`, with these names: those of a bucket follow
each other, a bucket has the first of its symbols, 0 where it has none, the chain word of a symbol
has the hash of its name and, in the lowest bit, whether it is the last of its bucket, and the Bloom
filter has two bits for each. -/
structure GnuTable (mem : UserMem) (obj : SymObject) (gh : GnuHashHdr) (stop : Nat)
    (names : Nat → CString) : Prop where
  header : readGnuHashHdr mem obj.gnuHash = some gh
  nbuckets : gh.nbuckets ≠ 0
  bloomSize : gh.bloomSize ≠ 0
  bloomShift : gh.bloomShift < 64
  symoffset : 0 < gh.symoffset
  most : stop ≤ maxSymbols
  named : ∀ i, gh.symoffset ≤ i → i < stop →
    ∃ sym, symEntry mem obj i = some sym ∧ SymName mem obj sym (names i)
  bloom : ∀ i, gh.symoffset ≤ i → i < stop →
    ∃ word, readWord mem (slot (gh.bloom obj) 8 (gnuHashOf (names i) / 64 % gh.bloomSize)) 8 =
    some word ∧ word.testBit (gnuHashOf (names i) % 64) = true ∧
    word.testBit ((gnuHashOf (names i) >>> gh.bloomShift) % 64) = true
  bucket : ∀ k < gh.nbuckets, ∃ first, readWord mem (slot (gh.buckets obj) 4 k) 4 = some first ∧
    ((first = 0 ∧ ∀ i, gh.symoffset ≤ i → i < stop → gh.bucketOf (names i) ≠ k) ∨
      (gh.symoffset ≤ first ∧ first < stop ∧ gh.bucketOf (names first) = k ∧
        ∀ i, gh.symoffset ≤ i → i < stop → gh.bucketOf (names i) = k → first ≤ i))
  chain : ∀ i, gh.symoffset ≤ i → i < stop →
    ∃ word, readWord mem (slot (gh.chains obj) 4 (i - gh.symoffset)) 4 = some word ∧
    word / 2 = gnuHashOf (names i) / 2 ∧
    (word % 2 = 1 ↔ i + 1 = stop ∨ gh.bucketOf (names (i + 1)) ≠ gh.bucketOf (names i))
  together : ∀ i j k, gh.symoffset ≤ i → i ≤ j → j ≤ k → k < stop →
    gh.bucketOf (names i) = gh.bucketOf (names k) → gh.bucketOf (names j) = gh.bucketOf (names i)

namespace GnuTable

variable {gh : GnuHashHdr} {stop : Nat} {names : Nat → CString}

theorem chainWord (table : GnuTable mem obj gh stop names) {i : Nat} (low : gh.symoffset ≤ i)
    (high : i < stop) : gh.chainWord obj i = slot (gh.chains obj) 4 (i - gh.symoffset) := by
  have most := table.most
  unfold maxSymbols at most
  rw [GnuHashHdr.chainWord, show sub32 i gh.symoffset = i - gh.symoffset by unfold sub32; omega]

theorem lastBucket_eq (table : GnuTable mem obj gh stop names) (some_ : gh.symoffset < stop) :
    ∃ last, lastBucket mem obj gh = some last ∧
    gh.symoffset ≤ last ∧ last < stop ∧ ∀ i, last ≤ i → i < stop →
    gh.bucketOf (names i) = gh.bucketOf (names last) := by
  -- the largest of the first buckets
  have largest : ∀ n ≤ gh.nbuckets, ∃ last,
      (List.range n).foldlM (fun last i => (readWord mem (slot (gh.buckets obj) 4 i) 4).map fun b => if last < b then b else last) 0 = some last ∧
        (∀ k < n, ∀ first, readWord mem (slot (gh.buckets obj) 4 k) 4 = some first → first ≤ last) ∧
        (last = 0 ∨ ∃ k < n, readWord mem (slot (gh.buckets obj) 4 k) 4 = some last) := by
    intro n
    induction n with
    | zero => exact fun _ => ⟨0, rfl, fun k less => absurd less (Nat.not_lt_zero k), .inl rfl⟩
    | succ n ih =>
        intro within
        obtain ⟨last, isLast, all, found⟩ := ih (Nat.le_of_succ_le within)
        obtain ⟨first, isFirst, -⟩ := table.bucket n within
        refine ⟨if last < first then first else last, ?_, fun k less other isOther => ?_, ?_⟩
        · rw [List.range_succ, List.foldlM_append, isLast]
          simp [isFirst]
        · rcases Nat.lt_succ_iff_lt_or_eq.mp less with less | rfl
          · have := all k less other isOther
            split <;> omega
          · rw [Option.some.inj (isOther.symm.trans isFirst)]
            split <;> omega
        · split
          · exact .inr ⟨n, Nat.lt_succ_self n, isFirst⟩
          · exact found.imp_right fun ⟨k, less, isLast⟩ => ⟨k, Nat.lt_succ_of_lt less, isLast⟩
  obtain ⟨last, isLast, all, found⟩ := largest gh.nbuckets (Nat.le_refl _)
  have positive := table.symoffset
  -- a bucket with a symbol has its first one
  have firstOf : ∀ i, gh.symoffset ≤ i → i < stop → ∃ first, gh.symoffset ≤ first ∧ first ≤ i ∧
      gh.bucketOf (names first) = gh.bucketOf (names i) ∧ first ≤ last := by
    intro i low high
    have isBucket : gh.bucketOf (names i) < gh.nbuckets := Nat.mod_lt _ (Nat.pos_of_ne_zero table.nbuckets)
    obtain ⟨first, isFirst, ⟨-, none⟩ | ⟨above, -, same, least⟩⟩ := table.bucket _ isBucket
    · exact absurd rfl (none i low high)
    · exact ⟨first, above, least i low high rfl, same, all _ isBucket first isFirst⟩
  obtain ⟨first, above, -, -, below⟩ := firstOf gh.symoffset (Nat.le_refl _) some_
  obtain ⟨k, less, isBucket⟩ := found.resolve_left (by omega)
  obtain ⟨other, isOther, ⟨zero, -⟩ | ⟨low, high, -, -⟩⟩ := table.bucket k less
  · have := Option.some.inj (isOther.symm.trans isBucket)
    omega
  · obtain rfl := Option.some.inj (isOther.symm.trans isBucket)
    refine ⟨other, isLast, low, high, fun i after inside => ?_⟩
    obtain ⟨first', low', -, same, before⟩ := firstOf i (by omega) inside
    rw [table.together first' other i low' before after inside same, same]

theorem chainEnd_eq (table : GnuTable mem obj gh stop names) {last guard : Nat}
    (low : gh.symoffset ≤ last) (high : last < stop)
    (rest : ∀ i, last ≤ i → i < stop → gh.bucketOf (names i) = gh.bucketOf (names last))
    (enough : stop ≤ last + guard) : chainEnd mem obj gh guard last = some stop := by
  induction guard generalizing last with
  | zero => omega
  | succ guard ih =>
      have most := table.most
      unfold maxSymbols at most
      obtain ⟨word, isWord, -, isEnd⟩ := table.chain last low high
      rw [chainEnd, table.chainWord low high, isWord, show add32 last 1 = last + 1 by unfold add32; omega]
      simp only [Option.bind_eq_bind, Option.bind_some]
      by_cases atEnd : last + 1 = stop
      · rw [if_pos (isEnd.mpr (.inl atEnd)), atEnd]
      · have same := rest (last + 1) (by omega) (by omega)
        rw [if_neg fun odd => (isEnd.mp odd).elim atEnd fun differs => differs same]
        exact ih (by omega) (by omega) (fun i after inside => by rw [rest i (by omega) inside, same]) (by omega)

theorem gnuNsyms_eq (table : GnuTable mem obj gh stop names) (some_ : gh.symoffset < stop)
    (buckets : gh.nbuckets ≤ maxSymbols) (words : gh.bloomSize ≤ maxSymbols) :
    gnuNsyms mem obj = some stop := by
  obtain ⟨last, isLast, low, high, rest⟩ := table.lastBucket_eq some_
  have most := table.most
  rw [gnuNsyms, table.header]
  simp only [Option.bind_eq_bind, Option.bind_some, table.nbuckets, table.bloomSize,
    Nat.not_lt.mpr buckets, Nat.not_lt.mpr words, or_self, if_false, isLast, Nat.not_lt.mpr low]
  exact table.chainEnd_eq low high rest (by omega)

end GnuTable

end Cos.Elf.Symtab
