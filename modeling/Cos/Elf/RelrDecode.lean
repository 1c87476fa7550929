import Cos.Elf.ScopeFrame
import Cos.Elf.UserMemory

/-! # Packed relative relocations

A `RELR` table is a stream of words: an even word is an offset to relocate, an odd one
marks with its upper 63 bits which of the words that follow are to be relocated too.
`apply_relr_table` reads the stream from the object it relocates; where it comes to an
end, each word of the encoded list has had the load bias added once.
-/

namespace Cos.Elf

variable {σ : Type u} {obj : ElfObject} {state after : RelocState σ} {mem mem' : UserMem}
  {place target table : Addr}

/-- The offsets an odd word stands for, from `cursor` on. -/
def bitmapOffsets (cursor : Addr) (entry : BitVec 64) : List Addr :=
  (List.range 63).filterMap fun bit =>
    if entry.getLsbD (bit + 1) then some (cursor + BitVec.ofNat 64 (8 * bit)) else none

def relrOffsets : Addr → List (BitVec 64) → List Addr
  | _, [] => []
  | cursor, entry :: rest =>
      if entry.getLsbD 0 then bitmapOffsets cursor entry ++ relrOffsets (cursor + 63 * 8) rest
      else entry :: relrOffsets (entry + 8) rest

/-- A stream encodes a list of offsets; it starts with an address. -/
def Encodes (stream : List (BitVec 64)) (offsets : List Addr) : Prop :=
  (∀ first ∈ stream.head?, first.getLsbD 0 = false) ∧ relrOffsets 0 stream = offsets

/-- The loop of `apply_relr_table` over the table where it lies. -/
def applyRelrWords (obj : ElfObject) (addr entsize : Addr) :
    Nat → Nat → Addr → RelocState σ → Except (RelocState σ) (RelocState σ)
  | 0, _, _, state => .ok state
  | left + 1, i, at_, state =>
      match userRead state.mem (addr + BitVec.ofNat 64 i * entsize) 8 with
      | none => .error state
      | some bytes =>
          let entry := ofLeBytes bytes
          if entry &&& 1#64 = 0 then
            match addBias obj state (obj.base + entry) with
            | .error state => .error state
            | .ok state => applyRelrWords obj addr entsize left (i + 1) (obj.base + entry + 8) state
          else
            match applyBitmap obj (entry >>> 1) 63 at_ state with
            | .error state => .error state
            | .ok state => applyRelrWords obj addr entsize left (i + 1) (at_ + 63 * 8) state

/-- `apply_relr_table` with the table at `addr`. -/
def applyRelrAt (obj : ElfObject) (addr size entsize : Addr) (state : RelocState σ) :
    Except (RelocState σ) (RelocState σ) :=
  if addr = 0 ∨ size = 0 then .ok state
  else if entsize < 8 then .error state
  else if (size / entsize).toNat > maxRelocs then .error state
  else applyRelrWords obj addr entsize (size / entsize).toNat 0 0 { state with applied := 0 }

def biasAll (obj : ElfObject) : List Addr → RelocState σ → Except (RelocState σ) (RelocState σ)
  | [], state => .ok state
  | place :: rest, state =>
      match addBias obj state place with
      | .error state => .error state
      | .ok state => biasAll obj rest state

theorem biasAll_append (first second : List Addr) (state : RelocState σ) :
    biasAll obj (first ++ second) state =
      match biasAll obj first state with
      | .error state => .error state
      | .ok state => biasAll obj second state := by
  induction first generalizing state with
  | nil => rfl
  | cons place rest ih =>
      rw [List.cons_append, biasAll, biasAll]
      cases addBias obj state place with
      | error failed => rfl
      | ok after => exact ih after

theorem applyBitmap_eq (bits at_ : Addr) {left : Nat} (few : left ≤ 63) (state : RelocState σ) :
    applyBitmap obj bits left at_ state =
      biasAll obj ((List.range left).filterMap fun bit =>
        if bits.getLsbD (63 - left + bit) then some (at_ + BitVec.ofNat 64 (8 * bit)) else none) state := by
  induction left generalizing at_ state with
  | zero => rfl
  | succ left ih =>
      have next : (List.range left).filterMap (fun bit =>
          if bits.getLsbD (63 - left + bit) then some (at_ + 8 + BitVec.ofNat 64 (8 * bit)) else none) =
          ((List.range left).map Nat.succ).filterMap fun bit =>
            if bits.getLsbD (63 - (left + 1) + bit) then some (at_ + BitVec.ofNat 64 (8 * bit)) else none := by
        rw [List.filterMap_map]
        apply List.filterMap_congr
        intro bit _
        have spot : 63 - (left + 1) + (bit + 1) = 63 - left + bit := by omega
        have sum : at_ + BitVec.ofNat 64 (8 * (bit + 1)) = at_ + 8 + BitVec.ofNat 64 (8 * bit) := by
          rw [Nat.mul_add, Nat.add_comm, BitVec.ofNat_add, BitVec.add_assoc]
          rfl
        rw [Function.comp_apply, Nat.succ_eq_add_one, spot, sum]
      have here : 63 - (left + 1) + 0 = 62 - left := by omega
      have start : at_ + BitVec.ofNat 64 (8 * 0) = at_ := BitVec.add_zero at_
      rw [applyBitmap, List.range_succ_eq_map, List.filterMap_cons, here, start]
      by_cases set : bits.getLsbD (62 - left) = true
      · rw [if_pos set, if_pos set, biasAll]
        cases addBias obj state at_ with
        | error failed => rfl
        | ok after =>
            rw [← next]
            exact ih (at_ + 8) (by omega) after
      · rw [if_neg set, if_neg set, ← next]
        exact ih (at_ + 8) (by omega) state

theorem even_iff {entry : BitVec 64} : entry &&& 1#64 = 0 ↔ entry.getLsbD 0 = false := by
  rw [show entry &&& 1#64 = 0 ↔ (entry &&& 1#64).toNat = 0 from BitVec.toNat_eq, BitVec.toNat_and,
    show (1#64).toNat = 1 from rfl, Nat.and_one_is_mod]
  rw [BitVec.getLsbD, Nat.testBit_zero, decide_eq_false_iff_not]
  omega

theorem applyBitmap_offsets (cursor : Addr) (entry : BitVec 64) (state : RelocState σ) :
    applyBitmap obj (entry >>> 1) 63 (obj.base + cursor) state =
      biasAll obj ((bitmapOffsets cursor entry).map (obj.base + ·)) state := by
  rw [applyBitmap_eq _ _ (Nat.le_refl _), bitmapOffsets, List.map_filterMap]
  congr 1
  apply List.filterMap_congr
  intro bit _
  rw [BitVec.getLsbD_ushiftRight, Nat.sub_self, Nat.zero_add, Nat.add_comm 1 bit]
  split
  · rw [Option.map_some, BitVec.add_assoc]
  · rw [Option.map_none]

theorem applyRelrTable_offsets (stream : List (BitVec 64)) (cursor : Addr) (state : RelocState σ) :
    applyRelrTable obj stream (obj.base + cursor) state =
      biasAll obj ((relrOffsets cursor stream).map (obj.base + ·)) state := by
  induction stream generalizing cursor state with
  | nil => rfl
  | cons entry rest ih =>
      rw [applyRelrTable, relrOffsets]
      by_cases even : entry.getLsbD 0 = false
      · rw [if_pos (even_iff.mpr even), if_neg (by rw [even]; exact Bool.false_ne_true), List.map_cons, biasAll]
        cases addBias obj state (obj.base + entry) with
        | error failed => rfl
        | ok after =>
            rw [BitVec.add_assoc]
            exact ih (entry + 8) after
      · rw [if_neg fun zero => even (even_iff.mp zero), if_pos (Bool.not_eq_false _ ▸ even),
          List.map_append, biasAll_append, applyBitmap_offsets]
        cases biasAll obj ((bitmapOffsets cursor entry).map (obj.base + ·)) state with
        | error failed => rfl
        | ok after =>
            dsimp only
            rw [BitVec.add_assoc]
            exact ih _ after

/-- The words at `places` aside, nothing differs. -/
def Untouched (places : List Addr) (mem mem' : UserMem) : Prop :=
  ∀ spot, (∀ place ∈ places, 8 ≤ (spot - place).toNat) → mem' spot = mem spot

def Apart (place table : Addr) : Prop := 8 ≤ (table - place).toNat ∧ 8 ≤ (place - table).toNat

theorem Apart.byte (apart : Apart place table) {i : Nat} (less : i < 8) :
    8 ≤ (table + BitVec.ofNat 64 i - place).toNat := by
  have first := apart.1
  have second := apart.2
  have low : i % 2 ^ 64 = i := Nat.mod_eq_of_lt (by omega)
  have inTable := table.isLt
  have inPlace := place.isLt
  rw [BitVec.toNat_sub] at first second
  rw [BitVec.toNat_sub, BitVec.toNat_add, BitVec.toNat_ofNat, low]
  omega

theorem Untouched.read {places : List Addr} (untouched : Untouched places mem mem')
    (apart : ∀ place ∈ places, Apart place table) : userRead mem' table 8 = userRead mem table 8 :=
  userRead_congr fun _ less => untouched _ fun place member => (apart place member).byte less

theorem addBias_untouched (added : addBias obj state place = .ok after) :
    Untouched [place] state.mem after.mem := by
  unfold addBias at added
  split at added
  · contradiction
  · split at added
    · contradiction
    · rename_i bytes _
      split at added
      · contradiction
      · rename_i stored isStored
        split at added
        · contradiction
        · cases added
          intro spot outside
          have far := outside place (List.mem_singleton_self place)
          unfold RelocState.store at isStored
          split at isStored
          · rename_i mem written
            cases isStored
            dsimp only
            rw [userWrite_eq written]
            beta_reduce
            rw [List.getElem?_eq_none (by rw [leBytes_length]; exact far), Option.none_or]
          · contradiction

theorem biasAll_untouched {places : List Addr} (added : biasAll obj places state = .ok after) :
    Untouched places state.mem after.mem := by
  induction places generalizing state with
  | nil =>
      cases added
      exact fun _ _ => rfl
  | cons place rest ih =>
      rw [biasAll] at added
      split at added
      · contradiction
      · rename_i next isNext
        intro spot outside
        have later := ih added spot fun place member => outside place (List.mem_cons_of_mem _ member)
        exact later.trans (addBias_untouched isNext spot fun place member => outside place
          (List.mem_singleton.mp member ▸ List.mem_cons_self))

theorem Apart.symm (apart : Apart place table) : Apart table place := ⟨apart.2, apart.1⟩

theorem applyRelrWords_eq {addr entsize : Addr} (stream : List (BitVec 64)) (i : Nat)
    (cursor : Addr) (words : ∀ k, k < stream.length →
      (userRead state.mem (addr + BitVec.ofNat 64 (i + k) * entsize) 8).map ofLeBytes = stream[k]?)
    (clear : ∀ k, k < stream.length → ∀ offset ∈ relrOffsets cursor stream,
      Apart (obj.base + offset) (addr + BitVec.ofNat 64 (i + k) * entsize)) :
    applyRelrWords obj addr entsize stream.length i (obj.base + cursor) state =
      applyRelrTable obj stream (obj.base + cursor) state := by
  induction stream generalizing i cursor state with
  | nil => rfl
  | cons entry rest ih =>
      have first := words 0 (Nat.succ_pos _)
      rw [Nat.add_zero, List.getElem?_cons_zero, Option.map_eq_some_iff] at first
      obtain ⟨bytes, read, isEntry⟩ := first
      -- what a step relocates is listed, so the rest of the table stays as it is
      have next {places : List Addr} {after : RelocState σ} (untouched : Untouched places state.mem after.mem)
          (listed : ∀ place ∈ places, ∃ offset ∈ relrOffsets cursor (entry :: rest), place =
          obj.base + offset) (k : Nat) (less : k < rest.length) :
          (userRead after.mem (addr + BitVec.ofNat 64 (i + 1 + k) * entsize) 8).map ofLeBytes = rest[k]? := by
        have here : i + 1 + k = i + (k + 1) := by omega
        have same := words (k + 1) (Nat.succ_lt_succ less)
        rw [List.getElem?_cons_succ] at same
        rw [here, untouched.read, same]
        intro place member
        obtain ⟨offset, offsetListed, rfl⟩ := listed place member
        exact clear (k + 1) (Nat.succ_lt_succ less) offset offsetListed
      have later (k : Nat) (less : k < rest.length) (offset : Addr)
          (member : offset ∈ relrOffsets cursor (entry :: rest)) :
          Apart (obj.base + offset) (addr + BitVec.ofNat 64 (i + 1 + k) * entsize) := by
        have here : i + 1 + k = i + (k + 1) := by omega
        rw [here]
        exact clear (k + 1) (Nat.succ_lt_succ less) offset member
      rw [List.length_cons, applyRelrWords, applyRelrTable, read]
      dsimp only
      rw [isEntry]
      by_cases even : entry.getLsbD 0 = false
      · rw [if_pos (even_iff.mpr even), if_pos (even_iff.mpr even)]
        have listing : relrOffsets cursor (entry :: rest) = entry :: relrOffsets (entry + 8) rest := by
          rw [relrOffsets, if_neg (by rw [even]; exact Bool.false_ne_true)]
        cases added : addBias obj state (obj.base + entry) with
        | error failed => rfl
        | ok after =>
            dsimp only
            rw [BitVec.add_assoc]
            refine ih (i + 1) (entry + 8) (next (addBias_untouched added) fun place member => ?_)
              fun k less offset member => later k less offset ?_
            · exact ⟨entry, by rw [listing]; exact List.mem_cons_self, List.mem_singleton.mp member⟩
            · rw [listing]
              exact List.mem_cons_of_mem _ member
      · rw [if_neg fun zero => even (even_iff.mp zero), if_neg fun zero => even (even_iff.mp zero)]
        have listing : relrOffsets cursor (entry :: rest) =
            bitmapOffsets cursor entry ++ relrOffsets (cursor + 63 * 8) rest := by
          rw [relrOffsets, if_pos (Bool.not_eq_false _ ▸ even)]
        cases added : applyBitmap obj (entry >>> 1) 63 (obj.base + cursor) state with
        | error failed => rfl
        | ok after =>
            dsimp only
            rw [applyBitmap_offsets] at added
            rw [BitVec.add_assoc]
            refine ih (i + 1) (cursor + 63 * 8) (next (biasAll_untouched added) fun place member =>
              ?_) fun k less offset member => later k less offset ?_
            · obtain ⟨offset, inBitmap, rfl⟩ := List.mem_map.mp member
              exact ⟨offset, by rw [listing]; exact List.mem_append_left _ inBitmap, rfl⟩
            · rw [listing]
              exact List.mem_append_right _ member

/-- Every listed word has had `base` added to it, and nothing else has changed. -/
structure AddsBase (base : Addr) (places : List Addr) (mem mem' : UserMem) : Prop where
  words : ∀ place ∈ places, ∀ bytes, userRead mem place 8 = some bytes →
    userRead mem' place 8 = some (leBytes (ofLeBytes bytes + base) 8)
  others : Untouched places mem mem'

theorem AddsBase.nil {base : Addr} : AddsBase base [] mem mem :=
  ⟨fun _ member => absurd member List.not_mem_nil, fun _ _ => rfl⟩

theorem AddsBase.cons {base : Addr} {places : List Addr} {mem'' : UserMem}
    (word : ∀ bytes, userRead mem place 8 = some bytes →
      userRead mem' place 8 = some (leBytes (ofLeBytes bytes + base) 8))
    (single : Untouched [place] mem mem') (rest : AddsBase base places mem' mem'')
    (apart : ∀ other ∈ places, Apart place other) : AddsBase base (place :: places) mem mem'' := by
  constructor
  · intro spot member bytes read
    rcases List.mem_cons.mp member with rfl | later
    · rw [rest.others.read fun other member => (apart other member).symm]
      exact word bytes read
    · refine rest.words spot later bytes ?_
      rw [single.read fun other member => List.mem_singleton.mp member ▸ apart spot later]
      exact read
  · intro spot outside
    have later := rest.others spot fun other member => outside other (List.mem_cons_of_mem _ member)
    exact later.trans (single spot fun other member => outside other
      (List.mem_singleton.mp member ▸ List.mem_cons_self))

theorem AddsBase.unique {base : Addr} {places : List Addr} {mem'' : UserMem}
    (one : AddsBase base places mem mem') (other : AddsBase base places mem mem'')
    (mapped : ∀ place ∈ places, ∃ bytes, userRead mem place 8 = some bytes) : mem' = mem'' := by
  funext spot
  by_cases outside : ∀ place ∈ places, 8 ≤ (spot - place).toNat
  · rw [one.others spot outside, other.others spot outside]
  · simp only [not_forall, Nat.not_le] at outside
    obtain ⟨place, member, near⟩ := outside
    obtain ⟨bytes, read⟩ := mapped place member
    have first := (userRead_iff.mp (one.words place member bytes read)).2.2 _ near
    have second := (userRead_iff.mp (other.words place member bytes read)).2.2 _ near
    rw [← place_eq] at first second
    rw [first, second]

theorem store_word {bytes bytes' : List UInt8} (read : userRead state.mem place 8 = some bytes)
    (length : bytes'.length = 8) :
    ∃ after, state.store place bytes' = .ok after ∧ after.applied = state.applied ∧
      userRead after.mem place 8 = some bytes' ∧ Untouched [place] state.mem after.mem := by
  have written := userWrite_of_read read length
  refine ⟨{ state with mem := fun spot => (bytes'[(spot - place).toNat]?).or (state.mem spot) },
    by rw [RelocState.store, written], rfl, ?_, ?_⟩
  · have loaded := userRead_userWrite written (by omega)
    rwa [length] at loaded
  · intro spot outside
    have far := outside place (List.mem_singleton_self place)
    dsimp only
    rw [List.getElem?_eq_none (by omega), Option.none_or]

theorem addBias_ok {bytes : List UInt8} (starts : obj.mapStart ≤ place.toNat)
    (ends : place.toNat + 8 ≤ obj.mapEnd) (read : userRead state.mem place 8 = some bytes)
    (budget : state.applied + 1 ≤ maxRelocs) : ∃ after, addBias obj state place = .ok after ∧ after.applied = state.applied + 1 ∧
      userRead after.mem place 8 = some (leBytes (ofLeBytes bytes + obj.base) 8) ∧
      Untouched [place] state.mem after.mem := by
  have bounds := (@userRangeOk_iff 8 _ (by decide) (by decide)).mp (userRead_iff.mp read).1
  have limit : userLimit.toNat = 0x800000000000 := rfl
  have sum : (place + 8).toNat = place.toNat + 8 := @toNat_add_ofNat place 8 (by omega)
  obtain ⟨after, stored, applied, word, others⟩ := store_word read
    (show (leBytes (ofLeBytes bytes + obj.base) 8).length = 8 from leBytes_length)
  refine ⟨{ after with applied := after.applied + 1 }, ?_, by rw [← applied], word, others⟩
  rw [addBias, if_neg (by omega), read]
  dsimp only
  rw [stored]
  exact if_neg (by omega)

theorem biasAll_adds {places : List Addr}
    (inside : ∀ place ∈ places, obj.mapStart ≤ place.toNat ∧ place.toNat + 8 ≤ obj.mapEnd)
    (mapped : ∀ place ∈ places, ∃ bytes, userRead state.mem place 8 = some bytes)
    (apart : places.Pairwise Apart) (budget : state.applied + places.length ≤ maxRelocs) :
    ∃ after, biasAll obj places state = .ok after ∧
    AddsBase obj.base places state.mem after.mem := by
  induction places generalizing state with
  | nil => exact ⟨state, rfl, AddsBase.nil⟩
  | cons place rest ih =>
      obtain ⟨bytes, read⟩ := mapped place List.mem_cons_self
      have here := inside place List.mem_cons_self
      have ⟨fromFirst, restApart⟩ := List.pairwise_cons.mp apart
      rw [List.length_cons] at budget
      obtain ⟨next, added, applied, word, single⟩ := addBias_ok here.1 here.2 read (by omega)
      obtain ⟨after, all, effect⟩ := @ih next (fun place member =>
        inside place (List.mem_cons_of_mem _ member)) (fun other member => by
          rw [single.read fun spot isSpot => List.mem_singleton.mp isSpot ▸ fromFirst other member]
          exact mapped other (List.mem_cons_of_mem _ member)) restApart (by omega)
      refine ⟨after, by rw [biasAll, added]; exact all, AddsBase.cons (fun bytes' read' => ?_) single effect fromFirst⟩
      rw [word, Option.some.inj (read.symm.trans read')]

/-- The `R_X86_64_RELATIVE` entries for the words at `offsets`, each with its word as addend. -/
def relativeEntries (obj : ElfObject) (mem : UserMem) (offsets : List Addr) : List Reloc :=
  offsets.map fun offset =>
    ⟨offset, .relative, 0, ofLeBytes ((userRead mem (obj.base + offset) 8).getD [])⟩

theorem applyEntries_adds {resolver : SymReq → σ → Option SymVal × σ} {slot : Nat}
    {offsets : List Addr} {addend : Addr → Addr}
    (inside : ∀ place ∈ offsets.map (obj.base + ·), obj.mapStart ≤ place.toNat ∧
    place.toNat + 8 ≤ obj.mapEnd)
    (mapped : ∀ offset ∈ offsets, ∃ bytes, userRead state.mem (obj.base + offset) 8 = some bytes ∧
      addend offset = ofLeBytes bytes)
    (apart : (offsets.map (obj.base + ·)).Pairwise Apart) :
    ∃ after, applyEntries resolver slot obj (offsets.map fun offset => ⟨offset, .relative, 0, addend offset⟩) state =
      .ok after ∧ AddsBase obj.base (offsets.map (obj.base + ·)) state.mem after.mem := by
  induction offsets generalizing state with
  | nil => exact ⟨state, rfl, AddsBase.nil⟩
  | cons offset rest ih =>
      obtain ⟨bytes, read, isAddend⟩ := mapped offset List.mem_cons_self
      have here := inside (obj.base + offset) List.mem_cons_self
      have ⟨fromFirst, restApart⟩ := List.pairwise_cons.mp apart
      obtain ⟨next, stored, _, word, single⟩ := store_word read
        (show (leBytes (obj.base + addend offset) 8).length = 8 from leBytes_length)
      have range : userRangeOk (obj.base + offset) 8 = true := (userRead_iff.mp read).1
      have applied : applyReloc resolver slot obj ⟨offset, .relative, 0, addend offset⟩ state = .ok next := by
        rw [applyReloc, if_neg RelocType.noConfusion]
        dsimp only
        rw [if_neg, stored]
        rw [range]
        exact not_or.mpr ⟨Bool.false_ne_true, by omega⟩
      obtain ⟨after, all, effect⟩ := @ih next (fun place member =>
        inside place (List.mem_cons_of_mem _ member)) (fun other member => by
          rw [single.read fun spot isSpot => List.mem_singleton.mp isSpot ▸
            fromFirst _ (List.mem_map_of_mem member)]
          exact mapped other (List.mem_cons_of_mem _ member)) restApart
      refine ⟨after, by rw [List.map_cons, applyEntries, applied]; exact all,
        AddsBase.cons (fun bytes' read' => ?_) single effect fromFirst⟩
      rw [word, isAddend, Option.some.inj (read.symm.trans read'), BitVec.add_comm]

/-- A stream in memory that encodes a strictly increasing list of aligned offsets inside
the object. -/
structure RelrInput (obj : ElfObject) (mem : UserMem) (addr size entsize : Addr)
    (stream : List (BitVec 64)) (offsets : List Addr) : Prop where
  present : addr ≠ 0 ∧ 8 ≤ entsize ∧ (size / entsize).toNat = stream.length
  table : ∀ i, i < stream.length →
    (userRead mem (addr + BitVec.ofNat 64 i * entsize) 8).map ofLeBytes = stream[i]?
  encodes : Encodes stream offsets
  increasing : offsets.Pairwise (· < ·)
  aligned : ∀ offset ∈ offsets, offset.toNat % 8 = 0
  inside : ∀ offset ∈ offsets, obj.mapStart ≤ (obj.base + offset).toNat ∧
    (obj.base + offset).toNat + 8 ≤ obj.mapEnd

/-- `apply_relr_table` adds the load bias once to every listed word, as relative entries
for these words would. -/
def AddsBaseOnce (obj : ElfObject) (addr size entsize : Addr) (offsets : List Addr)
    (state : RelocState σ) : Prop :=
  ∃ after, applyRelrAt obj addr size entsize state = .ok after ∧
    AddsBase obj.base (offsets.map (obj.base + ·)) state.mem after.mem ∧
    ∀ (resolver : SymReq → σ → Option SymVal × σ) (slot : Nat), ∃ relative,
      applyEntries resolver slot obj (relativeEntries obj state.mem offsets) state = .ok relative ∧
        relative.mem = after.mem

theorem apart_of_lt {base first second : Addr} (less : first < second) (one : first.toNat % 8 = 0)
    (two : second.toNat % 8 = 0) : Apart (base + first) (base + second) := by
  have turn : base + second - (base + first) = second - first := by
    apply BitVec.eq_of_toNat_eq
    simp only [BitVec.toNat_sub, BitVec.toNat_add]
    omega
  have back : base + first - (base + second) = first - second := by
    apply BitVec.eq_of_toNat_eq
    simp only [BitVec.toNat_sub, BitVec.toNat_add]
    omega
  rw [Apart, turn, back, BitVec.toNat_sub, BitVec.toNat_sub]
  rw [BitVec.lt_def] at less
  have := second.isLt
  omega

/-- A table that is not too long, whose words are mapped and which does not relocate itself. -/
theorem relr_adds_base_once {addr size entsize : Addr} {stream : List (BitVec 64)}
    {offsets : List Addr} {state : RelocState σ}
    (input : RelrInput obj state.mem addr size entsize stream offsets)
    (short : stream.length ≤ maxRelocs) (few : offsets.length ≤ maxRelocs)
    (mapped : ∀ offset ∈ offsets, (userRead state.mem (obj.base + offset) 8).isSome) (clear : ∀ i, i < stream.length → ∀ offset ∈ offsets,
      Apart (obj.base + offset) (addr + BitVec.ofNat 64 i * entsize)) :
    AddsBaseOnce obj addr size entsize offsets state := by
  obtain ⟨legal, isOffsets⟩ := input.encodes
  have loads (offset : Addr) (member : offset ∈ offsets) :
      ∃ bytes, userRead state.mem (obj.base + offset) 8 = some bytes := Option.isSome_iff_exists.mp (mapped offset member)
  have inside (place : Addr) (member : place ∈ offsets.map (obj.base + ·)) :
      obj.mapStart ≤ place.toNat ∧ place.toNat + 8 ≤ obj.mapEnd := by
    obtain ⟨offset, listed, rfl⟩ := List.mem_map.mp member
    exact input.inside offset listed
  have places (place : Addr) (member : place ∈ offsets.map (obj.base + ·)) :
      ∃ bytes, userRead state.mem place 8 = some bytes := by
    obtain ⟨offset, listed, rfl⟩ := List.mem_map.mp member
    exact loads offset listed
  have apart : (offsets.map (obj.base + ·)).Pairwise Apart := by
    rw [List.pairwise_map]
    exact input.increasing.imp_of_mem fun one two less => apart_of_lt less (input.aligned _ one) (input.aligned _ two)
  let start : RelocState σ := { state with applied := 0 }
  obtain ⟨after, biased, effect⟩ := @biasAll_adds _ obj start _ inside places apart
    (by rw [List.length_map]; change 0 + _ ≤ _; omega)
  -- the stream begins with an address, so where the cursor starts does not matter
  have cursor : applyRelrWords obj addr entsize stream.length 0 0 start =
      applyRelrWords obj addr entsize stream.length 0 (obj.base + 0) start := by
    cases stream with
    | nil => rfl
    | cons entry rest =>
        have even := legal entry rfl
        have first := input.table 0 (Nat.succ_pos _)
        rw [List.getElem?_cons_zero, Option.map_eq_some_iff] at first
        obtain ⟨bytes, read, isEntry⟩ := first
        rw [List.length_cons, applyRelrWords, applyRelrWords, show start.mem = state.mem from rfl, read]
        dsimp only
        rw [isEntry, if_pos (even_iff.mpr even), if_pos (even_iff.mpr even)]
  have ran : ∃ after', applyRelrAt obj addr size entsize state = .ok after' ∧
    after'.mem = after.mem := by
    obtain ⟨nonzero, wide, count⟩ := input.present
    rw [applyRelrAt]
    by_cases empty : size = 0
    · rw [if_pos (.inr empty)]
      have none : stream = [] := by
        rw [← List.length_eq_zero_iff, ← count, empty, BitVec.toNat_udiv]
        exact Nat.zero_div _
      rw [none] at isOffsets
      rw [← isOffsets] at biased
      cases biased
      exact ⟨state, rfl, rfl⟩
    · rw [if_neg (not_or.mpr ⟨nonzero, empty⟩), if_neg (BitVec.not_lt.mpr wide), count,
        if_neg (Nat.not_lt.mpr short), cursor, applyRelrWords_eq, applyRelrTable_offsets, isOffsets]
      · exact ⟨after, biased, rfl⟩
      · exact fun k less => by rw [Nat.zero_add]; exact input.table k less
      · intro k less offset member
        rw [isOffsets] at member
        rw [Nat.zero_add]
        exact clear k less offset member
  obtain ⟨after', done', same⟩ := ran
  refine ⟨after', done', by rw [same]; exact effect, fun resolver slot => ?_⟩
  rw [same]
  obtain ⟨relative, applied, effect'⟩ := @applyEntries_adds _ obj state resolver slot offsets
    (fun offset => ofLeBytes ((userRead state.mem (obj.base + offset) 8).getD [])) inside
    (fun offset member => by
      obtain ⟨bytes, read⟩ := loads offset member
      exact ⟨bytes, read, by rw [read]; rfl⟩) apart
  exact ⟨relative, applied, effect'.unique effect places⟩

/-- A library at `pieBase`, of 33 MiB. -/
def packedObject : ElfObject :=
  ⟨pieBase, pieBase.toNat, pieBase.toNat + 0x2100000, [⟨pieBase.toNat, pieBase.toNat + 0x2100000⟩],
    true, false, false, 0, 0, 0, 0, DynInfo.empty⟩

/-- Two words, `first` at `addr` and `second` behind it, in zeroed memory. -/
def twoWords (addr first second : Addr) : UserMem := fun place =>
  (leBytes first 8 ++ leBytes second 8)[(place - addr).toNat]?.or (some 0)

def packedState : RelocState Unit := ⟨twoWords (pieBase + 0x100) 0 3, (), [], 0, []⟩

theorem forall_pair {α : Type} {p : α → Prop} {first second : α} (one : p first) (two : p second) :
    ∀ x ∈ [first, second], p x :=
  List.forall_mem_cons.mpr ⟨one, List.forall_mem_singleton.mpr two⟩

theorem packedState_input :
    RelrInput packedObject packedState.mem (pieBase + 0x100) 16 8 [0, 3] [0, 8] where
  present := by decide
  table := by decide
  encodes := ⟨fun first isFirst => by cases isFirst; rfl, by decide⟩
  increasing := by decide
  aligned := forall_pair (by decide) (by decide)
  inside := forall_pair (by decide) (by decide)

theorem relr_adds_base_once_pair :
    AddsBaseOnce packedObject (pieBase + 0x100) 16 8 [0, 8] packedState :=
  relr_adds_base_once packedState_input (by decide) (by decide)
    (forall_pair (by decide) (by decide)) fun i less => by
      unfold Apart
      have small : i = 0 ∨ i = 1 := by
        change i < 2 at less
        omega
      rcases small with rfl | rfl <;> exact forall_pair (by decide) (by decide)

def selfState : RelocState Unit := ⟨twoWords pieBase 8 3, (), [], 0, []⟩

theorem selfState_input : RelrInput packedObject selfState.mem pieBase 16 8 [8, 3] [8, 16] where
  present := by decide
  table := by decide
  encodes := ⟨fun first isFirst => by cases isFirst; rfl, by decide⟩
  increasing := by decide
  aligned := forall_pair (by decide) (by decide)
  inside := forall_pair (by decide) (by decide)

theorem selfState_fails : ¬AddsBaseOnce packedObject pieBase 16 8 [8, 16] selfState := by
  rintro ⟨after, ran, effect, _⟩
  have same := effect.others (pieBase + 0x144#64) (forall_pair (by decide) (by decide))
  have result : stopped (applyRelrAt packedObject pieBase 16 8 selfState) = after := by
    rw [ran]
    rfl
  rw [← result] at same
  exact absurd same (by decide)

def gapState : RelocState Unit :=
  ⟨fun place => if 0x1000 ≤ (place - pieBase).toNat ∧ (place - pieBase).toNat < 0x2000 then none
    else twoWords pieBase 0x1000 0 place, (), [], 0, []⟩

theorem gapState_input : RelrInput packedObject gapState.mem pieBase 8 8 [0x1000] [0x1000] where
  present := by decide
  table := by decide
  encodes := ⟨fun first isFirst => by cases isFirst; rfl, by decide⟩
  increasing := by decide
  aligned := List.forall_mem_singleton.mpr (by decide)
  inside := List.forall_mem_singleton.mpr (by decide)

theorem gapState_fails : ¬AddsBaseOnce packedObject pieBase 8 8 [0x1000] gapState := by
  rintro ⟨after, ran, _⟩
  have fails : (match applyRelrAt packedObject pieBase 8 8 gapState with | .ok _ => true | .error _ => false) = false := by
    decide
  rw [ran] at fails
  contradiction

def paddedStream (count : Nat) : List (BitVec 64) := 0 :: List.replicate count 1

/-- The padded stream from `pieBase + 0x1000` on. -/
def paddedState : RelocState Unit :=
  ⟨fun place => some (if 0x8000001000 < place.toNat ∧ place.toNat % 8 = 0 then 1 else 0), (), [], 0,
    []⟩

theorem padded_offsets (count : Nat) (cursor : Addr) :
    relrOffsets cursor (List.replicate count 1) = [] := by
  induction count generalizing cursor with
  | zero => rfl
  | succ count ih =>
      have none : bitmapOffsets cursor 1 = [] := by
        unfold bitmapOffsets
        rw [List.filterMap_eq_nil_iff]
        intro bit _
        have clear : (1 : BitVec 64).getLsbD (bit + 1) = false := by
          rw [BitVec.getLsbD]
          exact Nat.testBit_lt_two_pow (by change 1 < 2 ^ (bit + 1); exact Nat.one_lt_two_pow (by omega))
        rw [clear]
        rfl
      rw [List.replicate_succ, relrOffsets, if_pos (by decide), none, ih]
      rfl

theorem paddedState_word {i : Nat} (few : i ≤ 2 ^ 22) :
    userRead paddedState.mem (pieBase + 0x1000 + BitVec.ofNat 64 i * 8) 8 =
      some [if 0 < i then 1 else 0, 0, 0, 0, 0, 0, 0, 0] := by
  have spot : (pieBase + 0x1000 + BitVec.ofNat 64 i * 8).toNat = 0x8000001000 + i * 8 := by
    have start : (pieBase + 0x1000).toNat = 0x8000001000 := by decide
    have eight : (8 : Addr).toNat = 8 := rfl
    rw [BitVec.toNat_add, start, BitVec.toNat_mul, BitVec.toNat_ofNat, eight]
    omega
  have limit : userLimit.toNat = 0x800000000000 := rfl
  have bottom : pieBase.toNat = 0x8000000000 := rfl
  refine userRead_iff.mpr ⟨(@userRangeOk_iff 8 _ (by decide) (by decide)).mpr (by omega), rfl,
    fun j less => ?_⟩
  have byte : (pieBase + 0x1000 + BitVec.ofNat 64 i * 8 + BitVec.ofNat 64 j).toNat =
    0x8000001000 + i * 8 + j := by
    rw [toNat_add_ofNat (by omega), spot]
  change some (if 0x8000001000 < BitVec.toNat _ ∧ BitVec.toNat _ % 8 = 0 then _ else _) = _
  rw [byte]
  rcases Nat.eq_zero_or_pos j with rfl | later
  · rw [List.getElem?_cons_zero]
    congr 1
    exact if_congr (by omega) rfl rfl
  · rw [if_neg (by omega)]
    have cases_ : j = 1 ∨ j = 2 ∨ j = 3 ∨ j = 4 ∨ j = 5 ∨ j = 6 ∨ j = 7 := by omega
    rcases cases_ with rfl | rfl | rfl | rfl | rfl | rfl | rfl <;> rfl

theorem paddedState_input :
    RelrInput packedObject paddedState.mem (pieBase + 0x1000) 0x1000008 8 (paddedStream (2 ^ 21))
    [0] where
  present := by
    refine ⟨by decide, by decide, ?_⟩
    rw [paddedStream, List.length_cons, List.length_replicate]
    decide
  table := by
    intro i less
    rw [paddedStream, List.length_cons, List.length_replicate] at less
    rw [paddedState_word (by omega), paddedStream]
    cases i with
    | zero => rfl
    | succ i =>
        rw [List.getElem?_cons_succ, List.getElem?_replicate_of_lt (by omega), if_pos (Nat.succ_pos i)]
        rfl
  encodes := by
    refine ⟨fun first isFirst => by cases isFirst; rfl, ?_⟩
    rw [paddedStream, relrOffsets, if_neg (by decide), padded_offsets]
  increasing := List.pairwise_singleton _ _
  aligned := List.forall_mem_singleton.mpr (by decide)
  inside := List.forall_mem_singleton.mpr (by decide)

theorem paddedState_fails :
    ¬AddsBaseOnce packedObject (pieBase + 0x1000) 0x1000008 8 [0] paddedState := by
  rintro ⟨after, ran, _⟩
  rw [applyRelrAt, if_neg (by decide), if_neg (by decide), if_pos (by decide)] at ran
  contradiction

/-- The decoding fails for a table that relocates itself, for a word that is not mapped
and for a table that is too long. -/
theorem relr_decoding_fails :
    (RelrInput packedObject selfState.mem pieBase 16 8 [8, 3] [8, 16] ∧
      ¬AddsBaseOnce packedObject pieBase 16 8 [8, 16] selfState) ∧
    (RelrInput packedObject gapState.mem pieBase 8 8 [0x1000] [0x1000] ∧
      ¬AddsBaseOnce packedObject pieBase 8 8 [0x1000] gapState) ∧
    (RelrInput packedObject paddedState.mem (pieBase + 0x1000) 0x1000008 8 (paddedStream (2 ^ 21)) [0] ∧
      ¬AddsBaseOnce packedObject (pieBase + 0x1000) 0x1000008 8 [0] paddedState) :=
  ⟨⟨selfState_input, selfState_fails⟩, ⟨gapState_input, gapState_fails⟩,
    ⟨paddedState_input, paddedState_fails⟩⟩

end Cos.Elf
