import Cos.Lib.Words
import Mathlib.Data.List.Basic

/-! # Listing a directory

`getdents64` puts as many entries into its buffer as fit.  A program reads the records back by their
lengths and calls again until it gets nothing.
-/

namespace Cos.Dirents

open Cos.Lib

def direntNameMax : Nat := 255

/-- What `cos_fd_readdir` yields: a C string and whether it is a directory. -/
structure DirEntry where
  name : List UInt8
  isDir : Bool
  noNul : 0 ∉ name
  short : name.length ≤ direntNameMax

/-- `(19 + nl + 1 + 7) & ~7`. -/
def recordLength (d : DirEntry) : Nat := (19 + d.name.length + 1 + 7) / 8 * 8

/-- A `linux_dirent64` at offset `used` of the buffer. -/
def record (used : Nat) (d : DirEntry) : List UInt8 :=
  wordBytes 8 1 ++ wordBytes 8 (used + recordLength d) ++ wordBytes 2 (recordLength d) ++
    (if d.isDir then 4 else 8) :: (d.name ++ List.replicate (recordLength d - 19 - d.name.length) 0)

/-- The loop of `getdents64` over the entries that are left: the bytes it stores and the entries
left after it. -/
def fillDirents (cap : Nat) : Nat → List DirEntry → List UInt8 × List DirEntry
  | _, [] => ([], [])
  | used, d :: rest =>
      -- the entry was read already
      if cap < used + recordLength d then ([], rest)
      else
        let more := fillDirents cap (used + recordLength d) rest
        (record used d ++ more.1, more.2)

/-- `getdents64` into a buffer of `a2` bytes. -/
def getdents (a2 : Nat) (dir : List DirEntry) : List UInt8 × List DirEntry :=
  fillDirents (min 8192 a2) 0 dir

def listDirents : List Nat → List DirEntry → List (List UInt8)
  | [], _ => []
  | size :: sizes, dir =>
      let got := getdents size dir
      if got.1 = [] then [] else got.1 :: listDirents sizes got.2

/-- A record whose length is a multiple of 8 and whose name ends inside. -/
def parseRecord (bytes : List UInt8) : Option ((Bool × List UInt8) × List UInt8) :=
  let reclen := wordValue ((bytes.drop 16).take 2)
  let field := (bytes.take reclen).drop 19
  let name := field.takeWhile (· ≠ 0)
  if reclen % 8 = 0 ∧ 19 < reclen ∧ reclen ≤ bytes.length ∧ name.length < field.length then
    some ((decide (bytes[18]? = some 4), name), bytes.drop reclen)
  else none

def parseRecords : Nat → List UInt8 → Option (List (Bool × List UInt8))
  | _, [] => some []
  | 0, _ :: _ => none
  | fuel + 1, bytes => do
      let (entry, rest) ← parseRecord bytes
      let entries ← parseRecords fuel rest
      return entry :: entries

def DirEntry.seen (d : DirEntry) : Bool × List UInt8 := (d.isDir, d.name)

def ListsAll (sizes : List Nat) (dir : List DirEntry) : Prop :=
  ∃ parts : List (List (Bool × List UInt8)),
    (listDirents sizes dir).map (fun bytes => parseRecords bytes.length bytes) = parts.map some ∧
    parts.flatten = dir.map DirEntry.seen

theorem recordLength_bounds (d : DirEntry) :
    20 + d.name.length ≤ recordLength d ∧ recordLength d % 8 = 0 ∧ recordLength d < 65536 := by
  have short := d.short
  rw [direntNameMax] at short
  rw [recordLength]
  omega

theorem record_length (used : Nat) (d : DirEntry) : (record used d).length = recordLength d := by
  obtain ⟨room, -, -⟩ := recordLength_bounds d
  simp [record]
  omega

theorem takeWhile_name (d : DirEntry) {pad : Nat} (padded : 0 < pad) :
    (d.name ++ List.replicate pad 0).takeWhile (· ≠ 0) = d.name := by
  obtain ⟨more, rfl⟩ : ∃ more, pad = more + 1 := ⟨pad - 1, by omega⟩
  rw [List.takeWhile_append_of_pos]
  · simp [List.replicate_succ]
  · intro byte member
    simp only [ne_eq, decide_not, Bool.not_eq_true', decide_eq_false_iff_not]
    exact fun isZero => d.noNul (isZero ▸ member)

theorem parseRecord_record (used : Nat) (d : DirEntry) (tail : List UInt8) :
    parseRecord (record used d ++ tail) = some (d.seen, tail) := by
  obtain ⟨room, aligned, small⟩ := recordLength_bounds d
  have size := record_length used d
  have length_ : wordValue (((record used d ++ tail).drop 16).take 2) = recordLength d := by
    have front : ((record used d ++ tail).drop 16).take 2 = wordBytes 2 (recordLength d) := by
      simp [record, List.drop_append, List.take_append]
    rw [front, wordValue_wordBytes (by omega)]
  have field : ((record used d ++ tail).take (recordLength d)).drop 19 =
      d.name ++ List.replicate (recordLength d - 19 - d.name.length) 0 := by
    rw [List.take_left' size]
    simp [record, List.drop_append, List.drop_eq_nil_of_le]
  have kind : (record used d ++ tail)[18]? = some (if d.isDir then 4 else 8) := by
    simp [record, List.getElem?_append]
  have rest : (record used d ++ tail).drop (recordLength d) = tail := List.drop_left' size
  have name := @takeWhile_name d (recordLength d - 19 - d.name.length) (by omega)
  rw [parseRecord]
  simp only [length_, field, name, rest, kind]
  rw [if_pos]
  · cases isDir : d.isDir <;> simp [DirEntry.seen, isDir]
  · simp only [List.length_append, List.length_replicate, size]
    omega

theorem fillDirents_cases (cap used : Nat) (dir : List DirEntry) :
    ∃ front, ((fillDirents cap used dir).1 = [] ↔ front = []) ∧
      (∀ fuel, (fillDirents cap used dir).1.length ≤ fuel →
        parseRecords fuel (fillDirents cap used dir).1 = some (front.map DirEntry.seen)) ∧
      (front = dir ∧ (fillDirents cap used dir).2 = [] ∧ used + (dir.map recordLength).sum ≤ max cap used ∨
        (∃ lost, dir = front ++ lost :: (fillDirents cap used dir).2) ∧ cap < used + (dir.map recordLength).sum) := by
  induction dir generalizing used with
  | nil => exact ⟨[], by simp [fillDirents], fun fuel _ => by simp [fillDirents, parseRecords], .inl (by simp [fillDirents])⟩
  | cons d rest ih =>
      obtain ⟨room, -, -⟩ := recordLength_bounds d
      rw [fillDirents]
      split
      next full =>
        refine ⟨[], by simp, fun fuel _ => by simp [parseRecords], .inr ⟨⟨d, rfl⟩, ?_⟩⟩
        simp only [List.map_cons, List.sum_cons]
        omega
      next fits =>
        obtain ⟨front, -, parsed, cases_⟩ := ih (used + recordLength d)
        have size := record_length used d
        refine ⟨d :: front, ?_, fun fuel enough => ?_, ?_⟩
        · have : record used d ≠ [] := by
            rw [← List.length_pos_iff, size]
            omega
          simp [this]
        · simp only [List.length_append, size] at enough
          obtain ⟨less, rfl⟩ : ∃ less, fuel = less + 1 := ⟨fuel - 1, by omega⟩
          have next_ := parsed less (by omega)
          dsimp only
          cases isBytes : record used d ++ (fillDirents cap (used + recordLength d) rest).1 with
          | nil =>
              have := congrArg List.length isBytes
              simp only [List.length_append, size, List.length_nil] at this
              omega
          | cons byte bytes =>
              rw [parseRecords, ← isBytes, parseRecord_record]
              · simp [next_]
              · exact nofun
        · simp only [List.map_cons, List.sum_cons]
          rcases cases_ with ⟨rfl, none, sum⟩ | ⟨⟨lost, isRest⟩, sum⟩
          · exact .inl ⟨rfl, none, by omega⟩
          · exact .inr ⟨⟨lost, by rw [List.cons_append, ← isRest]⟩, by omega⟩

theorem getdents_cases (size : Nat) (dir : List DirEntry) :
    ∃ front, ((getdents size dir).1 = [] ↔ front = []) ∧
      parseRecords (getdents size dir).1.length (getdents size dir).1 = some (front.map DirEntry.seen) ∧
      (front = dir ∧ (getdents size dir).2 = [] ∧ (dir.map recordLength).sum ≤ min 8192 size ∨
        (∃ lost, dir = front ++ lost :: (getdents size dir).2) ∧ min 8192 size < (dir.map recordLength).sum) := by
  obtain ⟨front, empty, parsed, cases_⟩ := fillDirents_cases (min 8192 size) 0 dir
  simp only [Nat.zero_add, Nat.max_zero] at cases_
  exact ⟨front, empty, parsed _ le_rfl, cases_⟩

theorem listDirents_le (sizes : List Nat) (dir : List DirEntry)
    (parts : List (List (Bool × List UInt8)))
    (read : (listDirents sizes dir).map (fun bytes => parseRecords bytes.length bytes) =
    parts.map some) : parts.flatten.length ≤ dir.length := by
  induction sizes generalizing dir parts with
  | nil =>
      cases parts with
      | nil => simp
      | cons => cases read
  | cons size sizes ih =>
      obtain ⟨front, -, parsed, cases_⟩ := getdents_cases size dir
      simp only [listDirents] at read
      split at read
      · cases parts with
        | nil => simp
        | cons => cases read
      · cases parts with
        | nil => cases read
        | cons part parts =>
            simp only [List.map_cons, List.cons.injEq] at read
            obtain ⟨isPart, isRest⟩ := read
            have := ih (getdents size dir).2 parts isRest
            rw [parsed, Option.some.injEq] at isPart
            simp only [List.flatten_cons, List.length_append, ← isPart, List.length_map]
            rcases cases_ with ⟨rfl, none, -⟩ | ⟨⟨lost, isDir⟩, -⟩
            · rw [none] at this
              simp only [List.length_nil] at this
              omega
            · have := congrArg List.length isDir
              simp only [List.length_append, List.length_cons] at this
              omega

/-- The entry that does not fit into a buffer is lost, so only a listing of one call is complete. -/
theorem getdents_lists_all_iff (size : Nat) (sizes : List Nat) (dir : List DirEntry) :
    ListsAll (size :: sizes) dir ↔ (dir.map recordLength).sum ≤ min 8192 size := by
  obtain ⟨front, empty, parsed, cases_⟩ := getdents_cases size dir
  constructor
  · rintro ⟨parts, read, all⟩
    rcases cases_ with ⟨-, -, sum⟩ | ⟨⟨lost, isDir⟩, -⟩
    · omega
    · exfalso
      have total := congrArg List.length all
      have parts_ := congrArg List.length isDir
      simp only [listDirents] at read
      simp only [List.length_append, List.length_cons, List.length_map] at total parts_
      by_cases isEmpty : (getdents size dir).1 = []
      · rw [if_pos isEmpty] at read
        cases parts with
        | nil =>
            simp only [List.flatten_nil, List.length_nil] at total
            omega
        | cons => cases read
      · rw [if_neg isEmpty] at read
        cases parts with
        | nil => cases read
        | cons part parts =>
            simp only [List.map_cons, List.cons.injEq] at read
            have later := listDirents_le sizes _ parts read.2
            have isPart := read.1
            rw [parsed, Option.some.injEq] at isPart
            simp only [List.flatten_cons, List.length_append, ← isPart, List.length_map] at total
            omega
  · intro fits
    rcases cases_ with ⟨rfl, none, -⟩ | ⟨-, sum⟩
    · simp only [ListsAll, listDirents]
      by_cases isEmpty : (getdents size front).1 = []
      · rw [if_pos isEmpty]
        exact ⟨[], rfl, by rw [empty.mp isEmpty]; rfl⟩
      · rw [if_neg isEmpty, none]
        refine ⟨[front.map DirEntry.seen], ?_, by simp⟩
        have ended : listDirents sizes [] = [] := by cases sizes <;> simp [listDirents, getdents, fillDirents]
        rw [ended]
        simp [parsed]
    · omega

/-- Two names of one letter and buffers for one record: the second name is not listed. -/
theorem getdents_loses_entry :
    ¬ ListsAll [24, 24, 24] [⟨[97], false, by decide, by decide⟩,
    ⟨[98], false, by decide, by decide⟩] := by
  rintro ⟨parts, read, all⟩
  have got : (listDirents [24, 24, 24]
      [⟨[97], false, by decide, by decide⟩, ⟨[98], false, by decide, by decide⟩]).map
        (fun bytes => parseRecords bytes.length bytes) = [[(false, [97])]].map some := by decide
  rw [got] at read
  rw [← List.map_injective_iff.mpr (Option.some_injective _) read] at all
  exact absurd all (by decide)

end Cos.Dirents
