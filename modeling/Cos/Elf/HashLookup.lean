import Cos.Elf.HashTables
import Cos.Elf.UserMemory
import Mathlib

/-! # Hash lookups and the symbol table

A lookup through well-formed hash tables finds a symbol exactly when a defined one that they
hash has the name and the version, as far as the loader's limits go: names of 255 bytes, and
2^18 buckets and Bloom words.
-/

namespace Cos.Elf.Symtab

variable {mem : UserMem} {obj : SymObject} {name : CString} {version : Option CString}
  {value : SymVal}

namespace GnuTable

variable {gh : GnuHashHdr} {stop : Nat} {names : Nat → CString}

theorem next (table : GnuTable mem obj gh stop names) {n : Nat} (high : n < stop) :
    add32 n 1 = n + 1 := by
  have most := table.most
  unfold maxSymbols at most
  unfold add32
  omega

theorem walk_sound (table : GnuTable mem obj gh stop names) {h1 guard n : Nat}
    (low : gh.symoffset ≤ n) (high : n < stop)
    (found : gnuChainWalk mem obj name version gh h1 guard n = some value) :
    ∃ i, gh.symoffset ≤ i ∧ i < stop ∧ answer mem obj name version i = some value := by
  induction guard generalizing n with
  | zero => cases found
  | succ guard ih =>
      obtain ⟨word, isWord, -, isEnd⟩ := table.chain n low high
      rw [gnuChainWalk, table.chainWord low high, isWord, table.next high] at found
      simp only at found
      split at found
      · next isHere =>
        cases found
        unfold gnuAnswer at isHere
        split at isHere
        · exact ⟨n, low, high, isHere⟩
        · cases isHere
      · split at found
        · cases found
        · next notEnd =>
          exact ih (by omega) (by omega) found

theorem walk_complete (table : GnuTable mem obj gh stop names) {guard n i : Nat}
    (low : gh.symoffset ≤ n) (upTo : n ≤ i) (high : i < stop)
    (isName : names i = name) (same : gh.bucketOf (names n) = gh.bucketOf (names i))
    (answers : (answer mem obj name version i).isSome) (enough : i < n + guard) :
    (gnuChainWalk mem obj name version gh (gnuHashOf name) guard n).isSome := by
  induction guard generalizing n with
  | zero => omega
  | succ guard ih =>
      obtain ⟨word, isWord, isHash, isEnd⟩ := table.chain n low (by omega)
      rw [gnuChainWalk, table.chainWord low (by omega), isWord, table.next (by omega)]
      simp only
      split
      · rfl
      · next notHere =>
        by_cases here : n = i
        · subst here
          -- the hash of the chain word is that of the name
          have equal : (gnuHashOf name ^^^ word) >>> 1 = 0 := by
            rw [Nat.shiftRight_xor_distrib, Nat.shiftRight_eq_div_pow, Nat.shiftRight_eq_div_pow, Nat.pow_one, isHash, isName, Nat.xor_self]
          rw [gnuAnswer, if_pos equal] at notHere
          rw [notHere] at answers
          cases answers
        · have alike : gh.bucketOf (names (n + 1)) = gh.bucketOf (names n) :=
            table.together n (n + 1) i low (Nat.le_succ n) (by omega) high same
          have notEnd : ¬ word % 2 = 1 := fun odd => (isEnd.mp odd).elim (by omega) fun differs => differs alike
          rw [if_neg notEnd]
          exact ih (by omega) (by omega) (alike.trans same) (by omega)

end GnuTable

theorem mask_set {word a b : Nat} (first : word.testBit a = true) (second : word.testBit b = true) :
    word &&& (1 <<< a ||| 1 <<< b) = 1 <<< a ||| 1 <<< b := by
  refine Nat.eq_of_testBit_eq fun i => ?_
  rw [Nat.testBit_and, Nat.testBit_or, Nat.one_shiftLeft, Nat.one_shiftLeft, Nat.testBit_two_pow,
    Nat.testBit_two_pow]
  by_cases isFirst : a = i
  · subst isFirst
    simp [first]
  · by_cases isSecond : b = i
    · subst isSecond
      simp [second]
    · simp [isFirst, isSecond]

def sysvHashOf (name : CString) : Nat := (elfHash name).toNat

def SysvChain (mem : UserMem) (chain : Addr) (nchain : Nat) : Nat → List Nat → Prop
  | index, [] => index = 0
  | index, first :: rest => index = first ∧ 0 < first ∧ first < nchain ∧
      ∃ next, readWord mem (slot chain 4 first) 4 = some next ∧ SysvChain mem chain nchain next rest

def sysvChainAddr (obj : SymObject) (nbucket : Nat) : Addr := slot (obj.hash + 8) 4 nbucket

/-- The table has `nchain` chain words, one for each symbol, and the chain of each bucket has
symbols with names of that bucket. -/
structure SysvTable (mem : UserMem) (obj : SymObject) (nbucket nchain : Nat)
    (chains : Nat → List Nat) : Prop where
  header : readSysvHdr mem obj.hash = some (nbucket, nchain)
  someBucket : nbucket ≠ 0
  someWord : nchain ≠ 0
  most : nchain ≤ maxSymbols
  bucket : ∀ k < nbucket, ∃ first, readWord mem (slot (obj.hash + 8) 4 k) 4 = some first ∧
    SysvChain mem (sysvChainAddr obj nbucket) nchain first (chains k)
  placed : ∀ k < nbucket, ∀ i ∈ chains k, ∀ sym name, symEntry mem obj i = some sym →
    SymName mem obj sym name → sysvHashOf name % nbucket = k

section Chain

variable {chain : Addr} {nchain index : Nat} {list : List Nat}

theorem SysvChain.unique {other : List Nat} (first : SysvChain mem chain nchain index list)
    (second : SysvChain mem chain nchain index other) : list = other := by
  induction list generalizing index other with
  | nil =>
      have zero : index = 0 := first
      cases other with
      | nil => rfl
      | cons j rest =>
          obtain ⟨same, positive, -⟩ := second
          omega
  | cons i rest ih =>
      obtain ⟨rfl, positive, -, next, isNext, more⟩ := first
      cases other with
      | nil =>
          have zero : index = 0 := second
          omega
      | cons j rest' =>
          obtain ⟨rfl, -, -, next', isNext', more'⟩ := second
          obtain rfl := Option.some.inj (isNext.symm.trans isNext')
          rw [ih more more']

theorem SysvChain.suffix {before : List Nat} {i : Nat}
    (whole : SysvChain mem chain nchain index (before ++ i :: list)) :
    SysvChain mem chain nchain i (i :: list) := by
  induction before generalizing index with
  | nil =>
      obtain ⟨rfl, rest⟩ := whole
      exact ⟨rfl, rest⟩
  | cons j before ih =>
      obtain ⟨-, -, -, next, -, more⟩ := whole
      exact ih more

theorem SysvChain.inside (whole : SysvChain mem chain nchain index list) {i : Nat}
    (member : i ∈ list) : 0 < i ∧ i < nchain := by
  obtain ⟨before, after, rfl⟩ := List.append_of_mem member
  obtain ⟨-, positive, below, -⟩ := whole.suffix
  exact ⟨positive, below⟩

theorem SysvChain.nodup (whole : SysvChain mem chain nchain index list) : list.Nodup := by
  induction list generalizing index with
  | nil => exact List.nodup_nil
  | cons i rest ih =>
      have start : SysvChain mem chain nchain i (i :: rest) := @SysvChain.suffix mem chain nchain index rest [] i whole
      obtain ⟨-, -, -, next, -, more⟩ := whole
      refine List.nodup_cons.mpr ⟨fun again => ?_, ih more⟩
      obtain ⟨before, after, isRest⟩ := List.append_of_mem again
      rw [isRest] at more
      have shorter := congrArg List.length (start.unique more.suffix)
      rw [isRest] at shorter
      simp only [List.length_cons, List.length_append] at shorter
      omega

theorem SysvChain.length_le (whole : SysvChain mem chain nchain index list) :
    list.length ≤ nchain := by
  have within : list ⊆ List.range nchain :=
    fun i member => List.mem_range.mpr (whole.inside member).2
  have shorter := (whole.nodup.subperm within).length_le
  rwa [List.length_range] at shorter

theorem sysvWalk_sound {guard : Nat} (whole : SysvChain mem chain nchain index list)
    (found : sysvChainWalk mem obj name version chain nchain guard index = some value) :
    ∃ i ∈ list, answer mem obj name version i = some value := by
  induction guard generalizing index list with
  | zero => cases found
  | succ guard ih =>
      rw [sysvChainWalk] at found
      split at found
      · cases found
      next notEnd =>
      cases list with
      | nil => exact absurd whole notEnd
      | cons i rest =>
          obtain ⟨rfl, -, -, next, isNext, more⟩ := whole
          split at found
          · next isHere =>
            cases found
            exact ⟨index, List.mem_cons_self, isHere⟩
          · rw [isNext] at found
            simp only at found
            split at found
            · cases found
            · obtain ⟨j, member, answers⟩ := ih more found
              exact ⟨j, List.mem_cons_of_mem _ member, answers⟩

theorem sysvWalk_complete {guard i : Nat} (whole : SysvChain mem chain nchain index list)
    (member : i ∈ list) (answers : (answer mem obj name version i).isSome)
    (enough : list.length ≤ guard) :
    (sysvChainWalk mem obj name version chain nchain guard index).isSome := by
  induction guard generalizing index list with
  | zero =>
      rw [List.eq_nil_of_length_eq_zero (Nat.le_zero.mp enough)] at member
      cases member
  | succ guard ih =>
      cases list with
      | nil => cases member
      | cons first rest =>
          obtain ⟨rfl, above, -, next, isNext, more⟩ := whole
          rw [sysvChainWalk, if_neg (by omega)]
          split
          · rfl
          · next notHere =>
            rcases List.mem_cons.mp member with rfl | later
            · rw [notHere] at answers
              cases answers
            · -- the chain goes on, so that the next index is that of a symbol
              have below : ¬ nchain ≤ next := by
                cases rest with
                | nil => cases later
                | cons second rest =>
                    obtain ⟨rfl, -, below, -⟩ := more
                    omega
              rw [isNext]
              simp only [below, if_false]
              exact ih more later (Nat.le_of_succ_le_succ enough)

end Chain

structure HashTables where
  gh : GnuHashHdr
  stop : Nat
  names : Nat → CString
  nbucket : Nat
  nchain : Nat
  chains : Nat → List Nat

variable {t : HashTables} {i : Nat} {sym : Sym}

/-- `DT_GNU_HASH` has the symbol. -/
def GnuHashed (obj : SymObject) (t : HashTables) (i : Nat) : Prop :=
  obj.gnuHash ≠ 0 ∧ t.gh.symoffset ≤ i ∧ i < t.stop

/-- `DT_HASH` has the symbol. -/
def SysvHashed (obj : SymObject) (t : HashTables) (i : Nat) : Prop :=
  obj.hash ≠ 0 ∧ ∃ k < t.nbucket, i ∈ t.chains k

def Hashed (obj : SymObject) (t : HashTables) (i : Nat) : Prop :=
  GnuHashed obj t i ∨ SysvHashed obj t i

/-- An object with a symbol table and one or both of the hash tables.  Where there are both they are
of one symbol table, and have the same defined symbols. -/
structure WellFormed (mem : UserMem) (obj : SymObject) (t : HashTables) : Prop where
  symtab : obj.symtab ≠ 0
  strtab : obj.strtab ≠ 0
  syment : 24 ≤ obj.syment.toNat
  hashed : obj.gnuHash ≠ 0 ∨ obj.hash ≠ 0
  gnu : obj.gnuHash ≠ 0 → GnuTable mem obj t.gh t.stop t.names
  sysv : obj.hash ≠ 0 → SysvTable mem obj t.nbucket t.nchain t.chains
  within : obj.gnuHash ≠ 0 → obj.hash ≠ 0 → t.stop ≤ t.nchain
  alike : obj.gnuHash ≠ 0 → obj.hash ≠ 0 → ∀ i sym, symEntry mem obj i = some sym → sym.shndx ≠ 0 →
    (GnuHashed obj t i ↔ SysvHashed obj t i)

/-- The loader takes the tables: they have at most `COS_ELF_MAX_SYMBOLS` buckets and Bloom words. -/
structure WithinLimits (obj : SymObject) (t : HashTables) : Prop where
  nbuckets : obj.gnuHash ≠ 0 → t.gh.nbuckets ≤ maxSymbols
  bloomSize : obj.gnuHash ≠ 0 → t.gh.bloomSize ≤ maxSymbols
  nbucket : obj.hash ≠ 0 → t.nbucket ≤ maxSymbols

/-- The number of symbols is not known yet, or what `compute_nsyms` has found. -/
def Counted (mem : UserMem) (obj : SymObject) : Prop :=
  obj.nsyms = 0 ∨ obj.nsyms = computeNsyms mem obj

namespace WellFormed

theorem computeNsyms_sysv (wf : WellFormed mem obj t) (hash : obj.hash ≠ 0) :
    computeNsyms mem obj = t.nchain := by
  have table := wf.sysv hash
  rw [computeNsyms]
  simp only [if_neg hash, table.header]
  simp [Option.filter, table.someWord, table.most]

theorem computeNsyms_gnu (wf : WellFormed mem obj t) (limits : WithinLimits obj t)
    (noHash : obj.hash = 0) (gnu : obj.gnuHash ≠ 0) (some_ : t.gh.symoffset < t.stop) :
    computeNsyms mem obj = t.stop := by
  rw [computeNsyms]
  simp only [if_pos noHash, if_neg gnu,
    (wf.gnu gnu).gnuNsyms_eq some_ (limits.nbuckets gnu) (limits.bloomSize gnu), Option.getD_some]

theorem readable (wf : WellFormed mem obj t) (limits : WithinLimits obj t)
    (counted : Counted mem obj) (hashed : Hashed obj t i) : Readable obj i := by
  rcases hashed with ⟨gnu, low, high⟩ | ⟨hash, k, less, member⟩
  · have most := (wf.gnu gnu).most
    refine ⟨by omega, counted.imp_right fun isCount => ?_⟩
    rw [isCount]
    by_cases noHash : obj.hash = 0
    · rw [wf.computeNsyms_gnu limits noHash gnu (by omega)]
      exact high
    · rw [wf.computeNsyms_sysv noHash]
      exact Nat.lt_of_lt_of_le high (wf.within gnu noHash)
  · have table := wf.sysv hash
    obtain ⟨first, -, isChain⟩ := table.bucket k less
    have below := (isChain.inside member).2
    refine ⟨Nat.lt_of_lt_of_le below table.most, counted.imp_right fun isCount => ?_⟩
    rw [isCount, wf.computeNsyms_sysv hash]
    exact below

theorem answer_iff (wf : WellFormed mem obj t) (limits : WithinLimits obj t)
    (counted : Counted mem obj) (hashed : Hashed obj t i) (isString : 0 ∉ name)
    (short : name.length ≤ maxSymname) : answer mem obj name version i = some value ↔
    ∃ sym, Matches mem obj name version i sym ∧ value = fillSymval obj sym :=
  Symtab.answer_iff wf.symtab wf.syment (wf.readable limits counted hashed) isString short

theorem lookupGnuHash (wf : WellFormed mem obj t) (limits : WithinLimits obj t)
    (counted : Counted mem obj) (isString : 0 ∉ name) (short : name.length ≤ maxSymname)
    (gnu : obj.gnuHash ≠ 0) :
    (∀ value, lookupGnuHash mem obj name version = some value → ∃ i sym, GnuHashed obj t i ∧
        Matches mem obj name version i sym ∧ value = fillSymval obj sym) ∧
      ∀ i sym, GnuHashed obj t i → Matches mem obj name version i sym →
      (lookupGnuHash mem obj name version).isSome := by
  have table := wf.gnu gnu
  have allowed : ¬ (t.gh.nbuckets = 0 ∨ t.gh.bloomSize = 0 ∨ maxSymbols < t.gh.nbuckets ∨
    maxSymbols < t.gh.bloomSize ∨ 64 ≤ t.gh.bloomShift) := by
    have := table.nbuckets
    have := table.bloomSize
    have := table.bloomShift
    have := limits.nbuckets gnu
    have := limits.bloomSize gnu
    omega
  have isBucket : gnuHashOf name % t.gh.nbuckets < t.gh.nbuckets :=
    Nat.mod_lt _ (Nat.pos_of_ne_zero table.nbuckets)
  obtain ⟨first, isFirst, place⟩ := table.bucket _ isBucket
  unfold Symtab.lookupGnuHash
  rw [table.header]
  simp only [Option.bind_eq_bind, Option.bind_some, allowed, if_false]
  constructor
  · intro value found
    obtain ⟨word, -, found⟩ := Option.bind_eq_some_iff.mp found
    split at found
    · cases found
    rw [show (gnuHashName name).toNat = gnuHashOf name from rfl, isFirst, Option.bind_some] at found
    split at found
    · cases found
    next above =>
    rcases place with ⟨zero, -⟩ | ⟨low, high, -, -⟩
    · have := table.symoffset
      omega
    · obtain ⟨i, low, high, answers⟩ := table.walk_sound low high found
      obtain ⟨sym, isMatch, isValue⟩ := (wf.answer_iff limits counted (Or.inl ⟨gnu, low, high⟩) isString short).mp answers
      exact ⟨i, sym, ⟨gnu, low, high⟩, isMatch, isValue⟩
  · rintro i sym hashed isMatch
    obtain ⟨-, low, high⟩ := hashed
    obtain ⟨sym', isEntry, isNamed⟩ := table.named i low high
    obtain rfl := Option.some.inj (isEntry.symm.trans isMatch.entry)
    have isName : t.names i = name := isNamed.2.unique isMatch.named.2
    obtain ⟨word, isWord, one, two⟩ := table.bloom i low high
    rw [isName] at isWord one two
    rw [show (gnuHashName name).toNat = gnuHashOf name from rfl, isWord, Option.bind_some,
      mask_set one two, if_neg (not_not.mpr rfl), isFirst, Option.bind_some]
    rcases place with ⟨-, none⟩ | ⟨low', high', isHere, least⟩
    · exact absurd (congrArg t.gh.bucketOf isName) (none i low high)
    · have upTo := least i low high (congrArg t.gh.bucketOf isName)
      rw [if_neg (Nat.not_lt.mpr low')]
      have most := table.most
      exact table.walk_complete low' upTo high isName (by rw [isHere, isName]; rfl)
        (Option.isSome_iff_exists.mpr ⟨_, (wf.answer_iff limits counted (Or.inl ⟨gnu, low, high⟩) isString short).mpr ⟨_, isMatch, rfl⟩⟩) (by omega)

theorem lookupSysvHash (wf : WellFormed mem obj t) (limits : WithinLimits obj t)
    (counted : Counted mem obj) (isString : 0 ∉ name) (short : name.length ≤ maxSymname)
    (hash : obj.hash ≠ 0) :
    (∀ value, lookupSysvHash mem obj name version = some value → ∃ i sym, SysvHashed obj t i ∧
        Matches mem obj name version i sym ∧ value = fillSymval obj sym) ∧
      ∀ i sym, SysvHashed obj t i → Matches mem obj name version i sym →
      (lookupSysvHash mem obj name version).isSome := by
  have table := wf.sysv hash
  have isBucket : sysvHashOf name % t.nbucket < t.nbucket :=
    Nat.mod_lt _ (Nat.pos_of_ne_zero table.someBucket)
  obtain ⟨first, isFirst, isChain⟩ := table.bucket _ isBucket
  have isLookup : Symtab.lookupSysvHash mem obj name version =
      sysvChainWalk mem obj name version (sysvChainAddr obj t.nbucket) t.nchain t.nchain first := by
    unfold Symtab.lookupSysvHash
    rw [table.header]
    simp only [Option.bind_eq_bind, Option.bind_some, table.someBucket, table.someWord,
      Nat.not_lt.mpr table.most, Nat.not_lt.mpr (limits.nbucket hash), or_self, if_false]
    rw [show (elfHash name).toNat = sysvHashOf name from rfl, isFirst]
    rfl
  rw [isLookup]
  constructor
  · intro value found
    obtain ⟨i, member, answers⟩ := sysvWalk_sound isChain found
    have hashed : SysvHashed obj t i := ⟨hash, _, isBucket, member⟩
    obtain ⟨sym, isMatch, isValue⟩ :=
      (wf.answer_iff limits counted (Or.inr hashed) isString short).mp answers
    exact ⟨i, sym, hashed, isMatch, isValue⟩
  · rintro i sym hashed isMatch
    obtain ⟨-, k, less, member⟩ := hashed
    obtain rfl := table.placed k less i member sym name isMatch.entry isMatch.named
    exact sysvWalk_complete isChain member
      (Option.isSome_iff_exists.mpr ⟨_,
      (wf.answer_iff limits counted (Or.inr ⟨hash, _, less, member⟩) isString short).mpr
      ⟨_, isMatch, rfl⟩⟩) isChain.length_le

end WellFormed

/-- `cos_elf_lookup` finds a symbol exactly when a defined one that the tables hash has the name and
is accepted by `version_matches`, and returns the value of such a one.  Both tables give the same
answer where there is one such symbol. -/
theorem lookup_hashed_iff (wf : WellFormed mem obj t) (limits : WithinLimits obj t)
    (counted : Counted mem obj) (isString : 0 ∉ name) (short : name.length ≤ maxSymname) :
    ((cosElfLookup mem obj name version).isSome ↔
      ∃ i sym, Hashed obj t i ∧ Matches mem obj name version i sym) ∧
      (∀ value, cosElfLookup mem obj name version = some value →
        ∃ i sym, Hashed obj t i ∧ Matches mem obj name version i sym ∧ value = fillSymval obj sym) ∧
      (obj.gnuHash ≠ 0 → obj.hash ≠ 0 → ∀ i sym, Hashed obj t i → Matches mem obj name version i sym →
        (∀ j sym', Hashed obj t j → Matches mem obj name version j sym' → j = i) →
          lookupGnuHash mem obj name version = lookupSysvHash mem obj name version) := by
  have syment : obj.syment ≠ 0 := by
    intro none
    have entries := wf.syment
    rw [none] at entries
    exact absurd entries (by decide)
  have isLookup : cosElfLookup mem obj name version =
      (if obj.gnuHash ≠ 0 then lookupGnuHash mem obj name version else none).or
      (if obj.hash ≠ 0 then lookupSysvHash mem obj name version else none) := by
    have noLinear : ¬ (obj.gnuHash = 0 ∧ obj.hash = 0) :=
      fun ⟨noGnu, noHash⟩ => wf.hashed.elim (fun gnu => gnu noGnu) fun hash => hash noHash
    rw [cosElfLookup, if_neg (not_or.mpr ⟨wf.symtab, not_or.mpr ⟨wf.strtab, syment⟩⟩)]
    simp only [noLinear, if_false, Option.or_none]
  have sound : ∀ value, cosElfLookup mem obj name version = some value →
      ∃ i sym, Hashed obj t i ∧ Matches mem obj name version i sym ∧
      value = fillSymval obj sym := by
    intro value found
    rw [isLookup, Option.or_eq_some_iff] at found
    rcases found with found | ⟨-, found⟩
    · split at found
      · next gnu =>
        obtain ⟨i, sym, hashed, rest⟩ := (wf.lookupGnuHash limits counted isString short gnu).1 value found
        exact ⟨i, sym, Or.inl hashed, rest⟩
      · cases found
    · split at found
      · next hash =>
        obtain ⟨i, sym, hashed, rest⟩ := (wf.lookupSysvHash limits counted isString short hash).1 value found
        exact ⟨i, sym, Or.inr hashed, rest⟩
      · cases found
  refine ⟨⟨fun isFound => ?_, fun ⟨i, sym, hashed, isMatch⟩ => ?_⟩, sound,
    fun gnu hash i sym hashed isMatch unique => ?_⟩
  · obtain ⟨value, found⟩ := Option.isSome_iff_exists.mp isFound
    obtain ⟨i, sym, hashed, isMatch, -⟩ := sound value found
    exact ⟨i, sym, hashed, isMatch⟩
  · rw [isLookup, Option.isSome_or, Bool.or_eq_true]
    rcases hashed with gnu | sysv
    · left
      rw [if_pos gnu.1]
      exact (wf.lookupGnuHash limits counted isString short gnu.1).2 i sym gnu isMatch
    · right
      rw [if_pos sysv.1]
      exact (wf.lookupSysvHash limits counted isString short sysv.1).2 i sym sysv isMatch
  · -- both tables have the one symbol, and what they find is it
    have same := wf.alike gnu hash i sym isMatch.entry isMatch.defined
    have inGnu : GnuHashed obj t i := hashed.elim id same.mpr
    obtain ⟨one, isOne⟩ :=
      Option.isSome_iff_exists.mp ((wf.lookupGnuHash limits counted isString short gnu).2 i sym inGnu isMatch)
    obtain ⟨two, isTwo⟩ :=
      Option.isSome_iff_exists.mp ((wf.lookupSysvHash limits counted isString short hash).2 i sym (same.mp inGnu) isMatch)
    obtain ⟨j, symOne, hashedOne, matchOne, valueOne⟩ :=
      (wf.lookupGnuHash limits counted isString short gnu).1 one isOne
    obtain ⟨k, symTwo, hashedTwo, matchTwo, valueTwo⟩ :=
      (wf.lookupSysvHash limits counted isString short hash).1 two isTwo
    obtain rfl := unique j symOne (Or.inl hashedOne) matchOne
    obtain rfl := unique k symTwo (Or.inr hashedTwo) matchTwo
    obtain rfl := Option.some.inj (matchOne.entry.symm.trans matchTwo.entry)
    rw [isOne, isTwo, valueOne, valueTwo]

def imageAt (bytes : Nat → UInt8) : UserMem := fun addr => some (bytes (addr - pieBase).toNat)

/-- `DT_HASH` with one bucket, `DT_GNU_HASH` with one, a symbol table of two and its names: the
second symbol is `a`, so many times. -/
def smallBytes (letters offset : Nat) : UInt8 :=
  if 0x71 ≤ offset ∧ offset < 0x71 + letters then 0x61
  else
    [1, 0, 0, 0, 2, 0, 0, 0, 1, 0, 0, 0, 0, 0, 0, 0, 0, 0, 0, 0, 0, 0, 0, 0, 0, 0, 0, 0, 0, 0, 0, 0,
      1, 0, 0, 0, 1, 0, 0, 0, 1, 0, 0, 0, 0, 0, 0, 0, 255, 255, 255, 255, 255, 255, 255, 255, 1, 0,
      0, 0, 7, 0xb6, 2, 0, 0, 0, 0, 0, 0, 0, 0, 0, 0, 0, 0, 0, 0, 0, 0, 0, 0, 0, 0, 0, 0, 0, 0, 0,
      1, 0, 0, 0, 0x12, 0, 1, 0, 0, 1, 0, 0, 0, 0, 0, 0, 0, 0, 0, 0, 0, 0, 0, 0].getD offset 0

def smallImage (letters : Nat) : UserMem := imageAt (smallBytes letters)

/-- The object of which the symbol table is so far into the image. -/
def smallObject (shift : Nat) (hash gnuHash : Addr) (nsyms : Nat) : SymObject :=
  ⟨pieBase, pieBase + BitVec.ofNat 64 (shift + 0x40), 24, pieBase + BitVec.ofNat 64 (shift + 0x70),
    0, hash, gnuHash, 0, 0, 0, 0, 0, 0, 0, nsyms⟩

def smallTables (names : Nat → CString) : HashTables := ⟨⟨1, 1, 1, 0⟩, 2, names, 1, 2, fun _ => [1]⟩

def smallSym : Sym := ⟨1, 0x12, 1, 0x100, 0⟩

theorem only_one {i : Nat} (low : 1 ≤ i) (high : i < 2) : i = 1 := by omega

theorem small_sysv {letters : Nat} {gnuHash : Addr} {nsyms : Nat}
    (header : readSysvHdr (smallImage letters) pieBase = some (1, 2))
    (bucket : readWord (smallImage letters) (slot (pieBase + 8) 4 0) 4 = some 1)
    (chain : readWord (smallImage letters) (slot (sysvChainAddr (smallObject 0 pieBase gnuHash nsyms) 1) 4 1) 4 = some 0) :
    SysvTable (smallImage letters) (smallObject 0 pieBase gnuHash nsyms) 1 2 fun _ => [1] := by
  refine ⟨header, by decide, by decide, by decide, fun k less => ?_, fun k less i member sym name _ _ => ?_⟩
  · obtain rfl : k = 0 := by omega
    exact ⟨1, bucket, rfl, by decide, by decide, 0, chain, rfl⟩
  · omega

/-- `DT_HASH` and `DT_GNU_HASH` with two buckets each: `a` and `c`, which follow each other, are in
one of them, `b` is in the other. -/
def trioImage : UserMem := imageAt fun offset =>
  [2, 0, 0, 0, 4, 0, 0, 0, 3, 0, 0, 0, 1, 0, 0, 0, 0, 0, 0, 0, 2, 0, 0, 0, 0, 0, 0, 0, 0, 0, 0, 0,
    2, 0, 0, 0, 1, 0, 0, 0, 1, 0, 0, 0, 0, 0, 0, 0, 255, 255, 255, 255, 255, 255, 255, 255, 1, 0, 0,
    0, 3, 0, 0, 0, 6, 0xb6, 2, 0, 9, 0xb6, 2, 0, 7, 0xb6, 2, 0, 0, 0, 0, 0, 0, 0, 0, 0, 0, 0, 0, 0,
    0, 0, 0, 0, 0, 0, 0, 0, 0, 0, 0, 0, 0, 0, 0, 0, 1, 0, 0, 0, 0x12, 0, 1, 0, 0, 1, 0, 0, 0, 0, 0,
    0, 0, 0, 0, 0, 0, 0, 0, 0, 3, 0, 0, 0, 0x12, 0, 1, 0, 0, 2, 0, 0, 0, 0, 0, 0, 0, 0, 0, 0, 0, 0,
    0, 0, 5, 0, 0, 0, 0x12, 0, 1, 0, 0, 3, 0, 0, 0, 0, 0, 0, 0, 0, 0, 0, 0, 0, 0, 0, 0, 0x61, 0,
    0x63, 0, 0x62].getD offset 0

def trioObject : SymObject :=
  ⟨pieBase, pieBase + 0x50, 24, pieBase + 0xb0, 0, pieBase, pieBase + 0x20, 0, 0, 0, 0, 0, 0, 0, 4⟩

def trioNames (i : Nat) : CString := if i = 1 then [0x61] else if i = 2 then [0x63] else [0x62]

def trioTables : HashTables :=
  ⟨⟨2, 1, 1, 0⟩, 4, trioNames, 2, 4, fun k => if k = 0 then [3] else [1, 2]⟩

def trioSym (i : Nat) : Sym := ⟨2 * i - 1, 0x12, 1, BitVec.ofNat 64 (0x100 * i), 0⟩

theorem one_to_three {i : Nat} (low : 1 ≤ i) (high : i < 4) : i = 1 ∨ i = 2 ∨ i = 3 := by omega

theorem trio_symbol {i : Nat} (low : 1 ≤ i) (high : i < 4) :
    symEntry trioImage trioObject i = some (trioSym i) ∧
    SymName trioImage trioObject (trioSym i) (trioNames i) := by
  rcases one_to_three low high with rfl | rfl | rfl <;> exact ⟨by decide, .inl rfl, by decide⟩

theorem trio_gnu : GnuTable trioImage trioObject trioTables.gh trioTables.stop
    trioTables.names := by
  refine ⟨by decide, by decide, by decide, by decide, by decide, by decide, fun i low high => ⟨_, trio_symbol low high⟩,
    fun i low high => ?_, fun k less => ?_, fun i low high => ?_, fun i j k low ij jk high same =>
    ?_⟩
  · refine ⟨2 ^ 64 - 1, ?_⟩
    rcases one_to_three low high with rfl | rfl | rfl <;> decide
  · rcases (by change k < 2 at less; omega : k = 0 ∨ k = 1) with rfl | rfl
    · exact ⟨1, by decide, .inr ⟨by decide, by decide, by decide, fun i low _ _ => low⟩⟩
    · refine ⟨3, by decide, .inr ⟨by decide, by decide, by decide, fun i low high isBucket => ?_⟩⟩
      rcases one_to_three low high with rfl | rfl | rfl
      · exact absurd isBucket (by decide)
      · exact absurd isBucket (by decide)
      · exact Nat.le_refl _
  · rcases one_to_three low high with rfl | rfl | rfl
    · exact ⟨0x2b606, by decide, by decide, by decide⟩
    · exact ⟨0x2b609, by decide, by decide, by decide⟩
    · exact ⟨0x2b607, by decide, by decide, by decide⟩
  · rcases one_to_three low (by change k < 4 at high; omega) with rfl | rfl | rfl <;>
      rcases one_to_three (by omega : 1 ≤ j) (by change k < 4 at high; omega) with rfl | rfl |
      rfl <;> rcases one_to_three (by omega : 1 ≤ k) high with rfl | rfl | rfl <;> revert same <;>
      first | omega | decide

theorem trio_sysv : SysvTable trioImage trioObject trioTables.nbucket trioTables.nchain
    trioTables.chains := by
  refine ⟨by decide, by decide, by decide, by decide, fun k less => ?_, fun k less i member sym name entry named => ?_⟩
  · rcases (by change k < 2 at less; omega : k = 0 ∨ k = 1) with rfl | rfl
    · exact ⟨3, by decide, rfl, by decide, by decide, 0, by decide, rfl⟩
    · exact ⟨1, by decide, rfl, by decide, by decide, 2, by decide, rfl, by decide, by decide, 0, by decide, rfl⟩
  · have isName (low : 1 ≤ i) (high : i < 4) : trioNames i = name := by
      obtain ⟨isEntry, isNamed⟩ := trio_symbol low high
      rw [isEntry] at entry
      cases entry
      exact isNamed.2.unique named.2
    rcases (by change k < 2 at less; omega : k = 0 ∨ k = 1) with rfl | rfl
    · obtain rfl := List.mem_singleton.mp member
      rw [← isName (by decide) (by decide)]
      decide
    · rcases List.mem_pair.mp member with rfl | rfl <;> rw [← isName (by decide) (by decide)] <;> decide

theorem trio_wellFormed : WellFormed trioImage trioObject trioTables := by
  refine ⟨by decide, by decide, by decide, .inl (by decide), fun _ => trio_gnu, fun _ => trio_sysv, fun _ _ => by decide,
    fun _ _ i sym _ _ => ⟨?_, ?_⟩⟩
  · rintro ⟨-, low, high⟩
    rcases one_to_three low high with rfl | rfl | rfl
    · exact ⟨by decide, 1, by decide, by decide⟩
    · exact ⟨by decide, 1, by decide, by decide⟩
    · exact ⟨by decide, 0, by decide, by decide⟩
  · rintro ⟨-, k, less, member⟩
    rcases (by change k < 2 at less; omega : k = 0 ∨ k = 1) with rfl | rfl
    · obtain rfl := List.mem_singleton.mp member
      exact ⟨by decide, by decide, by decide⟩
    · rcases List.mem_pair.mp member with rfl | rfl <;> exact ⟨by decide, by decide, by decide⟩

/-- Both tables have the symbol `c`, behind `a`. -/
theorem lookup_hashed_small :
    lookupGnuHash trioImage trioObject [0x63] none =
    lookupSysvHash trioImage trioObject [0x63] none := by
  have limits : WithinLimits trioObject trioTables :=
    ⟨fun _ => by decide, fun _ => by decide, fun _ => by decide⟩
  refine (lookup_hashed_iff trio_wellFormed limits (Or.inr (by decide)) (by decide) (by decide)).2.2
    (by decide) (by decide) 2
    (trioSym 2) (Or.inl ⟨by decide, by decide, by decide⟩)
    ⟨by decide, by decide, ⟨.inl rfl, by decide⟩, by decide⟩ fun j sym' hashed isMatch => ?_
  obtain ⟨-, low, high⟩ : GnuHashed trioObject trioTables j := by
    rcases hashed with gnu | sysv
    · exact gnu
    · exact (trio_wellFormed.alike (by decide) (by decide) j sym' isMatch.entry isMatch.defined).mpr sysv
  obtain ⟨isEntry, isNamed⟩ := trio_symbol low high
  rw [isMatch.entry] at isEntry
  cases isEntry
  have same := isNamed.2.unique isMatch.named.2
  rcases one_to_three low high with rfl | rfl | rfl
  · exact absurd same (by decide)
  · rfl
  · exact absurd same (by decide)

/-- The image with 2^18 + 1 Bloom words, all bits of which are set. -/
def bloomImage : UserMem := imageAt fun offset =>
  if offset = 0x2a then 4
  else if 0x30 ≤ offset ∧ offset < 0x200038 then 255
  else smallBytes 1 (if offset < 0x30 then offset else offset - 0x200000)

def bloomObject : SymObject := smallObject 0x200000 0 (pieBase + 0x20) 0

def bloomTables : HashTables := ⟨⟨1, 1, 2 ^ 18 + 1, 0⟩, 2, fun _ => [0x61], 1, 2, fun _ => [1]⟩

theorem bloom_wellFormed : WellFormed bloomImage bloomObject bloomTables := by
  refine ⟨by decide, by decide, by decide, .inl (by decide), fun _ => ?_, fun hash => absurd rfl hash, fun _ hash => absurd rfl hash,
    fun _ hash => absurd rfl hash⟩
  refine ⟨by decide, by decide, by decide, by decide, by decide, by decide, fun i low high => ?_, fun i low high => ?_, fun k less => ?_,
    fun i low high => ?_, fun _ _ _ _ _ _ _ _ => rfl⟩
  · obtain rfl := only_one low high
    exact ⟨smallSym, by decide, .inl rfl, by decide⟩
  · obtain rfl := only_one low high
    exact ⟨2 ^ 64 - 1, by decide, by decide, by decide⟩
  · obtain rfl : k = 0 := Nat.lt_one_iff.mp less
    exact ⟨1, by decide, .inr ⟨by decide, by decide, by decide, fun i low _ _ => low⟩⟩
  · obtain rfl := only_one low high
    exact ⟨0x2b607, by decide, by decide, ⟨fun _ => .inl rfl, fun _ => by decide⟩⟩

/-- The image with 2^18 + 1 buckets in `DT_HASH`, all of them empty but that of `a`. -/
def bucketBytes (offset : Nat) : UInt8 :=
  if offset = 0 ∨ offset = 8 + 4 * 0x61 then 1 else if offset = 2 then 4 else if offset = 4 then 2
  else if offset < 0x300000 then 0 else smallBytes 1 (offset - 0x300000)

def bucketObject : SymObject := smallObject 0x300000 pieBase 0 2

def bucketTables : HashTables :=
  ⟨⟨1, 1, 1, 0⟩, 2, fun _ => [0x61], 2 ^ 18 + 1, 2, fun k => if k = 0x61 then [1] else []⟩

theorem bucket_word {k : Nat} (less : k < 2 ^ 18 + 1) :
    readWord (imageAt bucketBytes) (slot (pieBase + 8) 4 k) 4 =
    some (if k = 0x61 then 1 else 0) := by
  have base : (slot (pieBase + 8) 4 k).toNat = 0x8000000008 + 4 * k := by
    simp only [slot, pieBase, BitVec.ofNat_eq_ofNat, BitVec.toNat_add, BitVec.toNat_mul,
      BitVec.toNat_ofNat]
    omega
  have isRead : userRead (imageAt bucketBytes) (slot (pieBase + 8) 4 k) 4 =
    some [if k = 0x61 then 1 else 0, 0, 0, 0] := by
    refine userRead_iff.mpr ⟨(userRangeOk_iff (by decide) (by decide)).mpr ⟨?_, ?_⟩, rfl,
      fun i few => ?_⟩
    · show 0x8000000000 ≤ _
      omega
    · show _ ≤ 0x800000000000
      omega
    · have isOffset : (slot (pieBase + 8) 4 k + BitVec.ofNat 64 i - pieBase).toNat = 8 + 4 * k + i := by
        rw [BitVec.toNat_sub, BitVec.toNat_add, base, BitVec.toNat_ofNat]
        simp only [pieBase, BitVec.toNat_ofNat]
        omega
      rw [imageAt, isOffset, bucketBytes]
      have inside : 8 + 4 * k + i < 0x300000 := by omega
      have isByte : (8 + 4 * k + i = 0 ∨ 8 + 4 * k + i = 8 + 4 * 0x61) ↔ i = 0 ∧ k = 0x61 := by omega
      simp only [isByte, inside, if_true, show ¬ 8 + 4 * k + i = 2 by omega, show ¬ 8 + 4 * k + i = 4 by omega, if_false]
      obtain rfl | rfl | rfl | rfl : i = 0 ∨ i = 1 ∨ i = 2 ∨ i = 3 := by omega
      · simp
      · rfl
      · rfl
      · rfl
  rw [readWord, isRead]
  split <;> rfl

theorem bucket_wellFormed : WellFormed (imageAt bucketBytes) bucketObject bucketTables := by
  refine ⟨by decide, by decide, by decide, .inr (by decide), fun gnu => absurd rfl gnu, fun _ => ?_, fun gnu => absurd rfl gnu,
    fun gnu => absurd rfl gnu⟩
  refine ⟨by decide, by decide, by decide, by decide, fun k less => ⟨_, bucket_word less, ?_⟩, fun k less i member sym name entry named => ?_⟩
  · simp only [bucketTables]
    split
    · exact ⟨rfl, by decide, by decide, 0, by decide, rfl⟩
    · exact rfl
  · simp only [bucketTables] at member
    split at member
    · next isBucket =>
      obtain rfl := List.mem_singleton.mp member
      have isEntry : symEntry (imageAt bucketBytes) bucketObject 1 = some smallSym := by decide
      obtain rfl := Option.some.inj (isEntry.symm.trans entry)
      have isName : StringAt (imageAt bucketBytes) (bucketObject.strtab + BitVec.ofNat 64 smallSym.name) [0x61] := by decide
      rw [← isName.unique named.2, isBucket]
      decide
    · cases member

/-- A name of 256 bytes, a table with 2^18 + 1 Bloom words and one with as many buckets: the lookup
finds nothing, and the symbol is there. -/
theorem lookup_beyond_limits :
    (WellFormed (smallImage 256) (smallObject 0 pieBase 0 2) (smallTables fun _ => []) ∧
      Counted (smallImage 256) (smallObject 0 pieBase 0 2) ∧
      cosElfLookup (smallImage 256) (smallObject 0 pieBase 0 2) (List.replicate 256 0x61) none =
      none ∧ ∃ i sym, Hashed (smallObject 0 pieBase 0 2) (smallTables fun _ => []) i ∧
        Matches (smallImage 256) (smallObject 0 pieBase 0 2) (List.replicate 256 0x61) none i sym) ∧
    (WellFormed bloomImage bloomObject bloomTables ∧ Counted bloomImage bloomObject ∧
      cosElfLookup bloomImage bloomObject [0x61] none = none ∧
      ∃ i sym, Hashed bloomObject bloomTables i ∧
      Matches bloomImage bloomObject [0x61] none i sym) ∧
    (WellFormed (imageAt bucketBytes) bucketObject bucketTables ∧
      Counted (imageAt bucketBytes) bucketObject ∧
      cosElfLookup (imageAt bucketBytes) bucketObject [0x61] none = none ∧
      ∃ i sym, Hashed bucketObject bucketTables i ∧
      Matches (imageAt bucketBytes) bucketObject [0x61] none i sym) := by
  refine ⟨⟨?_, Or.inr (by set_option maxRecDepth 100000 in decide), by set_option maxRecDepth 100000 in decide, 1, smallSym,
    Or.inr ⟨by decide, 0, by decide, List.mem_singleton_self _⟩, ?_⟩,
    ⟨bloom_wellFormed, Or.inl rfl, by decide, 1, smallSym, Or.inl ⟨by decide, by decide, by decide⟩, ?_⟩,
    ⟨bucket_wellFormed, Or.inr (by decide), by decide, 1, smallSym, Or.inr ⟨by decide, 0x61, by decide, ?_⟩, ?_⟩⟩
  · exact ⟨by decide, by decide, by decide, .inr (by decide), fun gnu => absurd rfl gnu,
      fun _ => small_sysv (by decide) (by decide) (by decide), fun gnu => absurd rfl gnu, fun gnu =>
      absurd rfl gnu⟩
  · exact ⟨by set_option maxRecDepth 100000 in decide, by decide,
      ⟨.inl rfl, by set_option maxRecDepth 100000 in decide⟩, by set_option maxRecDepth 100000 in decide⟩
  · exact ⟨by decide, by decide, ⟨.inl rfl, by decide⟩, by decide⟩
  · exact List.mem_singleton_self _
  · exact ⟨by decide, by decide, ⟨.inl rfl, by decide⟩, by decide⟩

end Cos.Elf.Symtab
