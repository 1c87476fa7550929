import Cos.Fs.FatFsckFull

/-! # Checking and repairing

A run of `fat_fsck` comes to an end, keeps inside the volume and frees no cluster that an entry
leads to; a run after a repair finds nothing.
-/

namespace Cos.Fs

open Cos.Lib

variable {disk next : Disk} {b : Bpb} {repair ok : Bool} {s after : Fsck} {m : Marks}
  {c v d g k i : Nat} {e : RawEntry} {rest : List RawEntry} {live : RawEntry → Prop}
  {fat : Nat → UInt8}

def queueMax : Nat := heapSize / 4

structure QueueSound (s : Fsck) : Prop where
  queued : s.queue.length ≤ s.nq
  room : s.nq ≤ s.cap
  some : 0 < s.cap
  bound : s.cap ≤ queueMax

def Fsck.left (s : Fsck) : Nat := queueMax + 1 - (s.nq - s.queue.length)

def dirSteps (b : Bpb) : Nat := (b.nclusters + 2) * (b.cbytes / 32 + 2) + 2

def Fsck.rank (b : Bpb) (s : Fsck) : Nat :=
  match s.place with
  | .load => (queueMax + 2) * dirSteps b
  | .pop => s.left * dirSteps b + 1
  | .dir _ g => s.left * dirSteps b + (b.nclusters + 2 - g) * (b.cbytes / 32 + 2) + 2
  | .entries _ g rest =>
    s.left * dirSteps b + (b.nclusters + 1 - g) * (b.cbytes / 32 + 2) + rest.length + 3
  | .finished | .failed => 0

def Fsck.Over (s : Fsck) : Prop := s.place = .finished ∨ s.place = .failed

theorem heapSize_quarter : 256 ≤ queueMax ∧ queueMax * 4 ≤ heapSize := by
  unfold queueMax heapSize
  omega

theorem fsckEntry_cases (s : Fsck) (e : RawEntry) (ok : Bool) :
    (∃ marks report, fsckEntry disk b s e ok = { s with marks := marks, report := report }) ∨
    ∃ marks report, fsckEntry disk b s e ok =
    fsckPush { s with marks := marks, report := report } e.start ok := by
  unfold fsckEntry
  by_cases none : e.start = 0
  · rw [if_pos none]
    exact Or.inl ⟨_, _, rfl⟩
  · rw [if_neg none]
    by_cases out : b.inVolume e.start = false
    · rw [if_pos out]
      exact Or.inl ⟨_, _, rfl⟩
    · rw [if_neg out]
      by_cases isDir : e.isDir = true
      · rw [if_pos isDir]
        exact Or.inr ⟨_, _, rfl⟩
      · rw [if_neg isDir]
        exact Or.inl ⟨_, _, rfl⟩

theorem fsckPush_queue (sound : QueueSound s) :
    QueueSound (fsckPush s c ok) ∧ (fsckPush s c ok).left = s.left ∧
    (fsckPush s c ok).place = s.place := by
  have queued := sound.queued
  have room := sound.room
  have some := sound.some
  have left : ∀ {after : Fsck}, after.queue = s.queue ++ [c] → after.nq = s.nq + 1 →
    after.left = s.left := by
    intro after queue nq
    unfold Fsck.left
    rw [queue, nq, List.length_append, List.length_singleton, Nat.add_sub_add_right]
  have longer : (s.queue ++ [c]).length ≤ s.nq + 1 := by
    rw [List.length_append, List.length_singleton]
    omega
  unfold fsckPush
  split
  · next fits => exact ⟨⟨longer, fits, some, sound.bound⟩, left rfl rfl, rfl⟩
  · split
    · next grows =>
      refine ⟨⟨longer, ?_, ?_, ?_⟩, left rfl rfl, rfl⟩
      · change s.nq + 1 ≤ s.cap * 2
        omega
      · change 0 < s.cap * 2
        omega
      · change s.cap * 2 ≤ queueMax
        unfold queueMax
        omega
    · exact ⟨sound, rfl, rfl⟩

theorem fsckEntry_queue (sound : QueueSound s) :
    QueueSound (fsckEntry disk b s e ok) ∧ (fsckEntry disk b s e ok).left = s.left ∧
      (fsckEntry disk b s e ok).place = s.place := by
  have same : ∀ marks report, QueueSound { s with marks := marks, report := report } := fun _ _ =>
    ⟨sound.queued, sound.room, sound.some, sound.bound⟩
  rcases fsckEntry_cases s e ok with ⟨marks, report, entry⟩ | ⟨marks, report, entry⟩
  · rw [entry]
    exact ⟨same marks report, rfl, rfl⟩
  · rw [entry]
    exact fsckPush_queue (same marks report)

theorem entriesOf_length : (entriesOf disk b c).length = b.cbytes / 32 := by
  unfold entriesOf
  rw [List.length_map, List.length_range]

theorem QueueSound.take (sound : QueueSound s) {queue : List Nat} (isQueue : s.queue = d :: queue)
    (isAfter : after.queue = queue ∧ after.nq = s.nq ∧ after.cap = s.cap) :
    QueueSound after ∧ after.left + 1 = s.left := by
  obtain ⟨sameQueue, sameNq, sameCap⟩ := isAfter
  have queued := sound.queued
  have room := sound.room
  have bound := sound.bound
  have length : s.queue.length = queue.length + 1 := by
    rw [isQueue]
    rfl
  refine ⟨⟨?_, ?_, ?_, ?_⟩, ?_⟩
  · rw [sameQueue, sameNq]
    omega
  · rw [sameNq, sameCap]
    exact room
  · rw [sameCap]
    exact sound.some
  · rw [sameCap]
    exact bound
  · unfold Fsck.left
    rw [sameQueue, sameNq]
    omega

theorem dirSteps_pos : 0 < dirSteps b := Nat.succ_pos _

theorem rank_step (sound : QueueSound s) (running : ¬ s.Over) :
    QueueSound (fsckStep disk b repair s ok) ∧ (fsckStep disk b repair s ok).rank b < s.rank b := by
  have past : s.place ≠ .finished ∧ s.place ≠ .failed := not_or.mp running
  have rank : ∀ {place : FsckPlace}, s.place = place →
    s.rank b = Fsck.rank b { s with place := place } := by
    rintro place rfl
    rfl
  have back : QueueSound s.back ∧ s.back.rank b = s.left * dirSteps b + 1 :=
    ⟨⟨sound.queued, sound.room, sound.some, sound.bound⟩, rfl⟩
  unfold fsckStep
  split
  · next here =>
    rw [rank here]
    split
    · refine ⟨⟨Nat.le_refl 1, Nat.succ_le_of_lt (Nat.lt_of_lt_of_le sound.some (Nat.le_refl _)), sound.some, sound.bound⟩, ?_⟩
      change (queueMax + 1 - (1 - 1)) * dirSteps b + 1 < (queueMax + 2) * dirSteps b
      have two : 2 ≤ dirSteps b := Nat.le_add_left 2 _
      rw [Nat.sub_self, Nat.sub_zero, show queueMax + 2 = queueMax + 1 + 1 from rfl, Nat.succ_mul (queueMax + 1)]
      omega
    · refine ⟨⟨sound.queued, sound.room, sound.some, sound.bound⟩, ?_⟩
      exact Nat.mul_pos (Nat.succ_pos _) dirSteps_pos
  · next here =>
    rw [rank here]
    split
    · have finishes : QueueSound (fsckFinish disk b repair s) ∧ (fsckFinish disk b repair s).rank b = 0 := by
        unfold fsckFinish
        dsimp only
        split <;> exact ⟨⟨sound.queued, sound.room, sound.some, sound.bound⟩, rfl⟩
      refine ⟨finishes.1, ?_⟩
      rw [finishes.2]
      exact Nat.succ_pos _
    · next d queue isQueue =>
      obtain ⟨queueSound, fewer⟩ := @QueueSound.take s { s with queue := queue, place := .dir d 0, current := d } d sound
        queue isQueue ⟨rfl, rfl, rfl⟩
      refine ⟨queueSound, ?_⟩
      change _ * dirSteps b + (b.nclusters + 2 - 0) * (b.cbytes / 32 + 2) + 2 < s.left * dirSteps b + 1
      have steps : dirSteps b = (b.nclusters + 2) * (b.cbytes / 32 + 2) + 2 := rfl
      rw [← fewer, Nat.succ_mul, Nat.sub_zero]
      omega
  · next c g here =>
    rw [rank here]
    change _ ∧ _ < s.left * dirSteps b + (b.nclusters + 2 - g) * (b.cbytes / 32 + 2) + 2
    split
    · next goes =>
      split
      · refine ⟨⟨sound.queued, sound.room, sound.some, sound.bound⟩, ?_⟩
        change s.left * dirSteps b + (b.nclusters + 1 - g) * (b.cbytes / 32 + 2) + (entriesOf disk b c).length + 3 < _
        rw [entriesOf_length, show b.nclusters + 2 - g = b.nclusters + 1 - g + 1 by omega, Nat.succ_mul]
        omega
      · refine ⟨⟨sound.queued, sound.room, sound.some, sound.bound⟩, ?_⟩
        change s.left * dirSteps b + 1 < _
        omega
    · refine ⟨back.1, ?_⟩
      omega
  · next c g here =>
    rw [rank here]
    change _ ∧ _ < s.left * dirSteps b + (b.nclusters + 1 - g) * (b.cbytes / 32 + 2) + 0 + 3
    split
    · refine ⟨⟨sound.queued, sound.room, sound.some, sound.bound⟩, ?_⟩
      change s.left * dirSteps b + 1 < _
      omega
    · refine ⟨⟨sound.queued, sound.room, sound.some, sound.bound⟩, ?_⟩
      change s.left * dirSteps b + (b.nclusters + 2 - (g + 1)) * (b.cbytes / 32 + 2) + 2 < _
      rw [show b.nclusters + 2 - (g + 1) = b.nclusters + 1 - g by omega]
      omega
  · next c g e rest here =>
    rw [rank here]
    change _ ∧ _ < s.left * dirSteps b + (b.nclusters + 1 - g) * (b.cbytes / 32 + 2) + (rest.length + 1) + 3
    split
    · refine ⟨⟨sound.queued, sound.room, sound.some, sound.bound⟩, ?_⟩
      change s.left * dirSteps b + 1 < _
      omega
    · have moved : QueueSound { s with place := .entries c g rest } :=
        ⟨sound.queued, sound.room, sound.some, sound.bound⟩
      split
      · refine ⟨moved, ?_⟩
        change s.left * dirSteps b + (b.nclusters + 1 - g) * (b.cbytes / 32 + 2) + rest.length + 3 < _
        omega
      · obtain ⟨queueSound, left, place⟩ := @fsckEntry_queue disk b ok _ e moved
        refine ⟨queueSound, ?_⟩
        unfold Fsck.rank
        rw [place, left]
        change s.left * dirSteps b + (b.nclusters + 1 - g) * (b.cbytes / 32 + 2) + rest.length + 3 < _
        omega
  · next here => exact absurd here past.1
  · next here => exact absurd here past.2

theorem over_step (past : s.Over) : fsckStep disk b repair s ok = s := by
  unfold fsckStep
  rcases past with here | here <;> rw [here]

theorem runSteps_over (sound : QueueSound s) (outcomes : List Bool)
    (long : s.rank b ≤ outcomes.length) : (runSteps (fsckStep disk b repair) s outcomes).Over := by
  induction outcomes generalizing s with
  | nil =>
    by_contra running
    have less := (@rank_step disk b repair true s sound running).2
    rw [List.length_nil] at long
    omega
  | cons ok outcomes ih =>
    rw [runSteps]
    by_cases past : s.Over
    · rw [over_step past]
      have stays : ∀ outcomes : List Bool, runSteps (fsckStep disk b repair) s outcomes = s := by
        intro outcomes
        induction outcomes with
        | nil => rfl
        | cons ok outcomes ih =>
          rw [runSteps, over_step past]
          exact ih
      rw [stays]
      exact past
    · obtain ⟨next, less⟩ := @rank_step disk b repair ok s sound past
      refine ih next ?_
      rw [List.length_cons] at long
      omega

theorem queueSound_init : QueueSound (fsckInit disk b) :=
  ⟨Nat.le_refl 0, Nat.zero_le _, by simp [fsckInit], heapSize_quarter.1⟩

theorem le32_congr {first second : Nat → UInt8} (same : ∀ j < 4, first (i + j) = second (i + j)) :
    le32 first i = le32 second i := by
  have zero := same 0 (by omega)
  rw [Nat.add_zero] at zero
  unfold le32 le16
  rw [zero, same 1 (by omega), same 2 (by omega), Nat.add_assoc i 2 1, same 3 (by omega)]

theorem le32_zero {bytes : Nat → UInt8} (zero : ∀ j < 4, bytes (i + j) = 0) : le32 bytes i = 0 := by
  have first := zero 0 (by omega)
  rw [Nat.add_zero] at first
  unfold le32 le16
  rw [first, zero 1 (by omega), zero 2 (by omega), Nat.add_assoc i 2 1, zero 3 (by omega)]
  rfl

theorem le16_lt (bytes : Nat → UInt8) : le16 bytes i < 2 ^ 16 := by
  have low := (bytes i).toNat_lt
  have high := (bytes (i + 1)).toNat_lt
  unfold le16
  omega

theorem le32_lt (bytes : Nat → UInt8) : le32 bytes i < 2 ^ 32 := by
  have low := @le16_lt i bytes
  have high := @le16_lt (i + 2) bytes
  unfold le32
  omega

structure Bpb.Sized (b : Bpb) : Prop where
  base : b.base < 2 ^ 32
  reserved : b.reserved < 2 ^ 16
  fatsz : b.fatsz ≤ 131072
  total : b.total < 2 ^ 32
  data : b.dataStart = b.reserved + b.nfats * b.fatsz

theorem readBpb_accepted (read : readBpb disk = some b) :
    b.Accepted ∧ b = bpbAt (fatFsckBase disk) (disk (fatFsckBase disk)) := by
  unfold readBpb at read
  dsimp only at read
  split at read
  · cases read
  · split at read
    · next accepted =>
      rw [← Option.some.inj read]
      exact ⟨accepted, rfl⟩
    · cases read

theorem fatFsckBase_lt : fatFsckBase disk < 2 ^ 32 := by
  unfold fatFsckBase
  split
  · exact Nat.two_pow_pos 32
  · split
    · exact Nat.two_pow_pos 32
    · split
      · exact le32_lt _
      · exact Nat.two_pow_pos 32

theorem readBpb_sized (read : readBpb disk = some b) : b.Sized := by
  obtain ⟨accepted, isBpb⟩ := readBpb_accepted read
  have memory := accepted.memory
  have nfats := accepted.nfats
  have reserved : b.reserved < 2 ^ 16 := by
    rw [isBpb]
    exact le16_lt _
  have fatsz : b.fatsz ≤ 131072 := by
    unfold Bpb.fatBytes at memory
    omega
  refine ⟨?_, reserved, fatsz, ?_, ?_⟩
  · rw [isBpb]
    exact fatFsckBase_lt
  · rw [isBpb]
    exact le32_lt _
  · unfold Bpb.dataStart
    have copies : b.nfats * b.fatsz ≤ 2 * 131072 := Nat.mul_le_mul nfats.2 fatsz
    omega

theorem writeFats_fat (sized : b.Sized) (copy : k < b.nfats) (inside : i < b.fatBytes)
    (twice : b.nfats ≤ 2) : fatByte (writeFats disk b fat) b k i = fat i := by
  have fatsz := sized.fatsz
  have less : i / 512 < b.fatsz := by
    unfold Bpb.fatBytes at inside
    omega
  have within : k * b.fatsz + i / 512 < b.nfats * b.fatsz := by
    have step : (k + 1) * b.fatsz ≤ b.nfats * b.fatsz := Nat.mul_le_mul_right _ copy
    rw [Nat.succ_mul] at step
    omega
  have small : b.nfats * b.fatsz ≤ 2 * 131072 := Nat.mul_le_mul twice fatsz
  have place : ((b.base + b.reserved + k * b.fatsz + i / 512) % 2 ^ 32 + 2 ^ 32 - (b.base + b.reserved) % 2 ^ 32) % 2 ^ 32 =
      k * b.fatsz + i / 512 := by omega
  have offset : (k * b.fatsz + i / 512) % b.fatsz = i / 512 := by
    rw [Nat.mul_comm, Nat.mul_add_mod]
    exact Nat.mod_eq_of_lt less
  unfold fatByte writeFats
  rw [place, if_pos within, offset]
  congr 1
  omega

theorem writeFats_cluster (sized : b.Sized) (inside : b.inVolume c = true) (offset : i < b.cbytes) :
    clusterByte (writeFats disk b fat) b c i = clusterByte disk b c i := by
  have bounds := inVolume_iff.mp inside
  have limit := @limit_le b
  have total := sized.total
  have data := sized.data
  have sector : i / 512 < b.spc := by
    unfold Bpb.cbytes at offset
    omega
  have clusters : b.nclusters * b.spc ≤ b.total - b.dataStart := Nat.div_mul_le_self _ _
  have within : (c - 2) * b.spc + i / 512 < b.total - b.dataStart := by
    have step : (c - 2 + 1) * b.spc ≤ b.nclusters * b.spc := Nat.mul_le_mul_right _ (by omega)
    rw [Nat.succ_mul] at step
    omega
  have place : ((b.base + b.dataStart + (c - 2) * b.spc + i / 512) % 2 ^ 32 + 2 ^ 32 - (b.base + b.reserved) % 2 ^ 32) %
      2 ^ 32 = b.nfats * b.fatsz + ((c - 2) * b.spc + i / 512) := by omega
  unfold clusterByte writeFats
  rw [place, if_neg (Nat.not_lt.mpr (Nat.le_add_right _ _))]

/-- The FATs lie behind the boot sector and do not run into the first sectors of the disk. -/
def Bpb.Apart (b : Bpb) : Prop := 1 ≤ b.reserved ∧ b.base + b.dataStart ≤ 2 ^ 32

theorem writeFats_boot (sized : b.Sized) (apart : b.Apart) (boot : k = 0 ∨ k = b.base) :
    writeFats disk b fat k = disk k := by
  obtain ⟨reserved, fits⟩ := apart
  have data := sized.data
  have outside : ¬ (k + 2 ^ 32 - (b.base + b.reserved) % 2 ^ 32) % 2 ^ 32 < b.nfats * b.fatsz := by
    rcases boot with rfl | rfl <;> omega
  funext offset
  unfold writeFats
  rw [if_neg outside]

theorem readBpb_writeFats (read : readBpb disk = some b) (apart : b.Apart) :
    readBpb (writeFats disk b fat) = some b := by
  have sized := readBpb_sized read
  have isBase : b.base = fatFsckBase disk := by
    rw [(readBpb_accepted read).2]
    rfl
  have first := @writeFats_boot disk b 0 fat sized apart (Or.inl rfl)
  have boot := @writeFats_boot disk b b.base fat sized apart (Or.inr rfl)
  have same : fatFsckBase (writeFats disk b fat) = fatFsckBase disk := by
    unfold fatFsckBase
    rw [first]
  unfold readBpb at read ⊢
  dsimp only at read ⊢
  rw [same, ← isBase, boot, isBase]
  exact read

theorem fat_bytes (accepted : b.Accepted) (less : c < b.limit) {j : Nat} (part : j < 4) :
    4 * c + j < b.fatBytes := by
  have fits := accepted.fits
  omega

theorem repaired_entry (sized : b.Sized) (accepted : b.Accepted) (owned : Nat → Bool)
    (less : c < b.limit) (copy : k < b.nfats) : le32 (fatByte (writeFats disk b (repairedFat disk b owned)) b k) (4 * c) =
      if leaked disk b owned c then 0 else le32 (fatByte disk b 0) (4 * c) := by
  have quarter : ∀ j < 4, (4 * c + j) / 4 = c := by
    omega
  split
  · next lost =>
    refine le32_zero fun j part => ?_
    rw [writeFats_fat sized copy (fat_bytes accepted less part) accepted.nfats.2, repairedFat,
      quarter j part, if_pos ⟨less, lost⟩]
  · next kept =>
    refine le32_congr fun j part => ?_
    rw [writeFats_fat sized copy (fat_bytes accepted less part) accepted.nfats.2, repairedFat,
      quarter j part, if_neg fun both => kept both.2]

structure Later (disk next : Disk) (b : Bpb) (owned : Nat → Bool) : Prop where
  link : ∀ c < b.limit, nextOf next b c = if leaked disk b owned c then 0 else nextOf disk b c
  entries : ∀ c, b.inVolume c = true → entriesOf next b c = entriesOf disk b c
  mismatch : mismatches next b = 0

theorem entriesOf_congr (same : ∀ i < b.cbytes, clusterByte next b c i = clusterByte disk b c i) :
    entriesOf next b c = entriesOf disk b c := by
  refine List.map_congr_left fun k member => ?_
  have less := List.mem_range.mp member
  funext i
  split
  · exact same _ (by omega)
  · rfl

theorem mismatches_zero (same : ∀ c < b.limit, mismatched disk b c = false) :
    mismatches disk b = 0 := by
  unfold mismatches
  rw [List.length_eq_zero_iff, List.filter_eq_nil_iff]
  intro c member
  rw [same c (List.mem_range.mp member)]
  exact Bool.false_ne_true

theorem Later.written (sized : b.Sized) (accepted : b.Accepted) (owned : Nat → Bool) :
    Later disk (writeFats disk b (repairedFat disk b owned)) b owned where
  link := by
    intro c less
    unfold nextOf fatAt
    rw [repaired_entry sized accepted owned less accepted.nfats.1]
    split <;> rfl
  entries := fun c inside => entriesOf_congr fun i offset =>
    writeFats_cluster sized inside offset
  mismatch := by
    refine mismatches_zero fun c less => ?_
    unfold mismatched
    by_cases two : 1 < b.nfats
    · unfold fatAt
      rw [repaired_entry sized accepted owned less accepted.nfats.1, repaired_entry sized accepted owned less two]
      simp
    · simp [two]

theorem Later.same {owned : Nat → Bool} (noLeak : ∀ c < b.limit, leaked disk b owned c = false)
    (noMismatch : mismatches disk b = 0) : Later disk disk b owned where
  link := by
    intro c less
    rw [noLeak c less, if_neg Bool.false_ne_true]
  entries := fun _ _ => rfl
  mismatch := noMismatch

theorem leaked_owned {owned : Nat → Bool} (own : owned c = true) :
    leaked disk b owned c = false := by
  unfold leaked
  rw [own]
  simp

theorem leaks_zero_iff : leaks disk b m = 0 ↔ ∀ c < b.limit, leaked disk b m.owned c = false := by
  unfold leaks
  rw [List.length_eq_zero_iff, List.filter_eq_nil_iff]
  constructor
  · intro none c less
    exact (Bool.not_eq_true _).mp (none c (List.mem_range.mpr less))
  · intro none c member
    rw [none c (List.mem_range.mp member)]
    exact Bool.false_ne_true

theorem later_of_finished (sized : b.Sized) (accepted : b.Accepted)
    (sound : FsckSound disk b true s) (ended : s.place = .finished) :
    Later disk s.disk b s.marks.owned := by
  have written := sound.written ended
  by_cases writes : leaks disk b s.marks ≠ 0 ∨ mismatches disk b ≠ 0
  · rw [written, if_pos ⟨rfl, writes⟩]
    exact .written sized accepted s.marks.owned
  · rw [written, if_neg fun both => writes both.2]
    rw [not_or, not_not, not_not] at writes
    exact .same (leaks_zero_iff.mp writes.1) writes.2

theorem Later.ownLink (later : Later disk next b m.owned) (c v : Nat)
    (linked : OwnLink disk b m c v) : Link next b c v := by
  obtain ⟨own, inside, nextInside, isNext⟩ := linked
  refine ⟨inside, nextInside, ?_⟩
  rw [later.link c (inVolume_iff.mp inside).2, leaked_owned own, if_neg Bool.false_ne_true]
  exact isNext

theorem DirCluster.inside (dir : DirCluster disk b live (OwnLink disk b m) c) :
    b.inVolume c = true := by
  cases dir with
  | root inside => exact inside
  | next dir goesOn linked => exact linked.2.2.1
  | sub dir member alive isDir inside => exact inside

theorem Later.dir (later : Later disk next b m.owned)
    (dir : DirCluster disk b live (OwnLink disk b m) c) :
    DirCluster next b live (Link next b) c := by
  induction dir with
  | root inside => exact .root inside
  | next dir goesOn linked ih =>
    refine .next ih ?_ (later.ownLink _ _ linked)
    unfold HasEnd at goesOn ⊢
    rw [later.entries _ dir.inside]
    exact goesOn
  | sub dir member alive isDir inside ih =>
    refine .sub ih ?_ alive isDir inside
    unfold liveEntries at member ⊢
    rw [later.entries _ dir.inside]
    exact member

theorem Later.led (later : Later disk next b m.owned) (led : Led disk b live (OwnLink disk b m) c) :
    Led next b live (Link next b) c := by
  induction led with
  | root inside => exact .root inside
  | start dir member alive inside =>
    refine .start (later.dir dir) ?_ alive inside
    unfold liveEntries at member ⊢
    rw [later.entries _ dir.inside]
    exact member
  | next led linked ih => exact ih.next (later.ownLink _ _ linked)

/-- No directory cluster fails to be read and no directory fails to be queued. -/
def noFailure (b : Bpb) (s : Fsck) (ok : Bool) : Prop := ¬ Fails b s ok

instance (e : RawEntry) : Decidable (isWalked e) := by
  unfold isWalked
  infer_instance

instance (b : Bpb) (s : Fsck) (ok : Bool) : Decidable (noFailure b s ok) := by
  unfold noFailure Fails
  split <;> infer_instance

/-- Nothing fails, and no entry but "." and ".." has a name that begins with a dot. -/
def careful (b : Bpb) (s : Fsck) (ok : Bool) : Prop := ¬ Fails b s ok ∧ ¬ PassesOver b isEntry s

instance (e : RawEntry) : Decidable (isEntry e) := by
  unfold isEntry
  infer_instance

instance (b : Bpb) (s : Fsck) (ok : Bool) : Decidable (careful b s ok) := by
  unfold careful PassesOver
  refine @instDecidableAnd _ _ (inferInstanceAs (Decidable (noFailure b s ok))) ?_
  split <;> infer_instance

theorem sound_of_reaches {allowed : Fsck → Bool → Prop} (accepted : b.Accepted)
    (reached : Reaches (fsckStep disk b repair) allowed (fsckInit disk b) s) :
    FsckSound disk b repair s :=
  reached.invariant FsckSound.init fun _ ok sound _ => sound.step accepted ok

theorem second_run {allowed : Fsck → Bool → Prop} {again : Bool} {t : Fsck} (sized : b.Sized)
    (accepted : b.Accepted) (reached : Reaches (fsckStep disk b true) allowed (fsckInit disk b) s)
    (ended : s.place = .finished)
    (second : Reaches (fsckStep s.disk b again) (noFailure b) (fsckInit s.disk b) t)
    (past : t.place = .finished) : t.report.leakedClusters = 0 ∧ t.report.fatMismatch = 0 := by
  have sound := sound_of_reaches accepted reached
  have later := later_of_finished sized accepted sound ended
  have soundAgain := sound_of_reaches accepted second
  have full : FsckFull s.disk b isWalked t := by
    refine @Reaches.invariant _ _ _ _ _ _ (fun t => FsckFull s.disk b isWalked t) second FsckFull.init ?_
    intro state ok full succeeds
    refine full.step accepted succeeds fun passes => ?_
    unfold PassesOver at passes
    split at passes
    · exact passes.2.2.1 passes.2.1
    · exact passes
  have place := soundAgain.place
  unfold Fsck.PlaceSound at place
  rw [past] at place
  obtain ⟨-, leakCount, mismatchCount⟩ := place
  rw [leakCount, mismatchCount, later.mismatch]
  refine ⟨leaks_zero_iff.mpr fun c less => ?_, rfl⟩
  by_contra lost
  have lost : leaked s.disk b t.marks.owned c = true := (Bool.not_eq_false _).mp lost
  unfold leaked at lost
  rw [later.link c less] at lost
  by_cases before : leaked disk b s.marks.owned c = true
  · rw [if_pos before] at lost
    simp at lost
  · rw [if_neg before] at lost
    simp only [Bool.and_eq_true, decide_eq_true_eq, ne_eq, Bool.not_eq_true'] at lost
    obtain ⟨⟨⟨two, used⟩, good⟩, free⟩ := lost
    have own : s.marks.owned c = true := by
      by_contra notOwn
      refine before ?_
      have free := (Bool.not_eq_true _).mp notOwn
      unfold leaked
      simp [two, used, good, free]
    rw [full.owned soundAgain past (later.led (sound.marks.led c own))] at free
    cases free

/-- In the first copy of the FAT nothing changes, and the other copies become like it. -/
theorem kept_of_careful (sized : b.Sized) (accepted : b.Accepted)
    (reached : Reaches (fsckStep disk b true) (careful b) (fsckInit disk b) s)
    (ended : s.place = .finished) (led : Led disk b isEntry (Link disk b) c) (copy : k < b.nfats) :
    le32 (fatByte s.disk b k) (4 * c) = le32 (fatByte disk b 0) (4 * c) ∨ s.disk = disk := by
  have sound := sound_of_reaches accepted reached
  have full : FsckFull disk b isEntry s :=
    @Reaches.invariant _ _ _ _ _ _ (fun s => FsckFull disk b isEntry s) reached FsckFull.init
      fun _ _ full allowed => full.step accepted allowed.1 allowed.2
  have own := full.owned sound ended led
  have less := (inVolume_iff.mp (sound.marks.inside c own)).2
  rw [sound.written ended]
  split
  · rw [repaired_entry sized accepted _ less copy, leaked_owned own, if_neg Bool.false_ne_true]
    exact Or.inl rfl
  · exact Or.inr rfl

structure FsckOk (disk : Disk) (b : Bpb) : Prop where
  /-- The FAT and the bitmap are indexed inside the volume. -/
  inside : ∀ (repair : Bool) (s : Fsck),
    Reaches (fsckStep disk b repair) (fun _ _ => True) (fsckInit disk b) s →
    ∀ i ∈ s.marks.touched, i < b.nclusters + 2
  /-- Every run comes to an end, and so does each walk along a chain. -/
  ends : ∀ repair : Bool, ∃ bound, ∀ outcomes : List Bool, bound ≤ outcomes.length →
    (runSteps (fsckStep disk b repair) (fsckInit disk b) outcomes).Over
  walks : ∀ (m : Marks) (c extra : Nat),
    walkChain disk b (b.nclusters + 1 + extra) m c 0 = walkChain disk b (b.nclusters + 1) m c 0
  /-- A repair frees no cluster that an entry leads to, in no copy of the FAT, unless the first copy
  has it free. -/
  keeps : ∀ s : Fsck, Reaches (fsckStep disk b true) (careful b) (fsckInit disk b) s →
    s.place = .finished → ∀ c, Led disk b isEntry (Link disk b) c →
      le32 (fatByte s.disk b 0) (4 * c) = le32 (fatByte disk b 0) (4 * c) ∧
      ∀ k < b.nfats, (nextOf disk b c = 0 → fatAt (fatByte disk b k) c = 0) →
        fatAt (fatByte s.disk b k) c = 0 → fatAt (fatByte disk b k) c = 0
  /-- A second run finds nothing. -/
  clean : b.Apart → ∀ s : Fsck,
    Reaches (fsckStep disk b true) (fun _ _ => True) (fsckInit disk b) s →
    s.place = .finished → ∀ (again : Bool) (other : Bpb) (t : Fsck), readBpb s.disk = some other →
    Reaches (fsckStep s.disk other again) (noFailure other) (fsckInit s.disk other) t →
    t.place = .finished → t.report.leakedClusters = 0 ∧ t.report.fatMismatch = 0

/-- On every volume whose boot sector passes the checks. -/
theorem fat_fsck_ok (read : readBpb disk = some b) : FsckOk disk b := by
  have accepted := (readBpb_accepted read).1
  have sized := readBpb_sized read
  refine ⟨?_, ?_, ?_, ?_, ?_⟩
  · intro repair s reached i member
    exact Nat.lt_of_lt_of_le ((sound_of_reaches accepted reached).marks.touched i member) limit_le
  · intro repair
    exact ⟨(fsckInit disk b).rank b, fun outcomes long => runSteps_over queueSound_init outcomes long⟩
  · intro m c extra
    exact walkChain_fuel extra (Nat.lt_succ_of_le free_card_le)
  · intro s reached ended c led
    refine ⟨?_, fun k copy agrees freed => ?_⟩
    · obtain same | same := kept_of_careful sized accepted reached ended led accepted.nfats.1
      · exact same
      · rw [same]
    · obtain same | same := kept_of_careful sized accepted reached ended led copy
      · refine agrees ?_
        rw [nextOf, fatAt, ← same]
        exact freed
      · rwa [same] at freed
  · intro apart s reached ended again other t readAgain second past
    have same : readBpb s.disk = some b := by
      rw [(sound_of_reaches accepted reached).written ended]
      split
      · exact readBpb_writeFats read apart
      · exact read
    rw [same] at readAgain
    rw [← Option.some.inj readAgain] at second
    exact second_run sized accepted reached ended second past

theorem led_first {e : RawEntry} {rest : List RawEntry} (inside : b.inVolume b.root = true)
    (all : entriesOf disk b b.root = e :: rest) (more : e.isEnd = false) (alive : isEntry e)
    (starts : b.inVolume e.start = true) : Led disk b isEntry (Link disk b) e.start := by
  have none : ∀ x ∈ ([] : List RawEntry), x.isEnd = false :=
    fun x wrong => (List.not_mem_nil wrong).elim
  exact .start (.root inside) (@mem_liveEntries disk b b.root e rest [] all.symm none more) alive
    starts

/-- A volume with two copies of the FAT and three clusters: the root, the cluster of the file "A",
and one that no entry leads to and that is taken in the first copy only. -/
def fileDisk : Disk := fun sector offset =>
  match sector, offset with
  | 0, 12 | 0, 16 | 0, 44 => 2
  | 0, 13 | 0, 14 | 0, 36 => 1
  | 0, 32 => 6
  | 0, 510 => 0x55
  | 0, 511 => 0xaa
  | 1, 8 | 1, 9 | 1, 10 | 1, 12 | 1, 13 | 1, 14 | 1, 16 | 1, 17 | 1, 18 => 0xff
  | 2, 8 | 2, 9 | 2, 10 | 2, 12 | 2, 13 | 2, 14 => 0xff
  | 1, 11 | 1, 15 | 1, 19 | 2, 11 | 2, 15 => 0x0f
  | 3, 0 => 0x41
  | 3, 1 | 3, 2 | 3, 3 | 3, 4 | 3, 5 | 3, 6 | 3, 7 | 3, 8 | 3, 9 | 3, 10 => 0x20
  | 3, 26 => 3
  | 3, 28 => 5
  | _, _ => 0

def fileBpb : Bpb := ⟨0, 1, 1, 2, 1, 2, 6⟩

theorem fileDisk_read : readBpb fileDisk = some fileBpb := by
  set_option maxRecDepth 100000 in decide

def fileRun : Fsck :=
  runSteps (fsckStep fileDisk fileBpb true) (fsckInit fileDisk fileBpb)
    [true, true, true, true, true, true]

def FsckPlace.isFinished : FsckPlace → Bool
  | .finished => true
  | _ => false

theorem FsckPlace.eq_finished {place : FsckPlace} (past : place.isFinished = true) :
    place = .finished := by
  cases place <;> first | rfl | cases past

def fileEntry : RawEntry :=
  fun i => if i < 32 then clusterByte fileDisk fileBpb 2 (32 * 0 + i) else 0

/-- A run in which all goes well ends with two repairs; the file's cluster is one that an entry
leads to. -/
theorem fat_fsck_ok_example : FsckOk fileDisk fileBpb ∧
    Reaches (fsckStep fileDisk fileBpb true) (careful fileBpb) (fsckInit fileDisk fileBpb) fileRun ∧
    fileRun.place = .finished ∧ fileRun.report.repaired = 2 ∧
    Led fileDisk fileBpb isEntry (Link fileDisk fileBpb) fileEntry.start ∧ fileEntry.start = 3 := by
  have first : ∃ rest, entriesOf fileDisk fileBpb 2 = fileEntry :: rest := ⟨_, rfl⟩
  obtain ⟨rest, all⟩ := first
  refine ⟨fat_fsck_ok fileDisk_read, Reaches.refl.runSteps (by decide),
    FsckPlace.eq_finished (by decide), by decide,
    led_first (by decide) all (by decide) ⟨by decide, by decide⟩ (by decide), by decide⟩

/-- A volume of two clusters: the root, and the cluster of the file ".CONFIG". -/
def dotDisk : Disk := fun sector offset =>
  match sector, offset with
  | 0, 12 => 2
  | 0, 13 | 0, 14 | 0, 16 | 0, 36 => 1
  | 0, 32 => 4
  | 0, 44 => 2
  | 0, 510 => 0x55
  | 0, 511 => 0xaa
  | 1, 8 | 1, 9 | 1, 10 | 1, 12 | 1, 13 | 1, 14 => 0xff
  | 1, 11 | 1, 15 => 0x0f
  | 2, 0 => 0x2e
  | 2, 1 => 0x43
  | 2, 2 => 0x4f
  | 2, 3 => 0x4e
  | 2, 4 => 0x46
  | 2, 5 => 0x49
  | 2, 6 => 0x47
  | 2, 7 | 2, 8 | 2, 9 | 2, 10 | 2, 11 => 0x20
  | 2, 26 => 3
  | 2, 28 => 5
  | _, _ => 0

def dotBpb : Bpb := ⟨0, 1, 1, 1, 1, 2, 4⟩

def dotRun : Fsck :=
  runSteps (fsckStep dotDisk dotBpb true) (fsckInit dotDisk dotBpb)
    [true, true, true, true, true, true]

def dotEntry : RawEntry := fun i => if i < 32 then clusterByte dotDisk dotBpb 2 (32 * 0 + i) else 0

theorem dotRun_reached :
    Reaches (fsckStep dotDisk dotBpb true) (noFailure dotBpb) (fsckInit dotDisk dotBpb) dotRun := by
  apply Reaches.refl.runSteps
  decide

/-- Nothing fails, and the file's cluster is freed. -/
theorem dotted_file_is_freed : readBpb dotDisk = some dotBpb ∧ ¬ ∀ s : Fsck,
    Reaches (fsckStep dotDisk dotBpb true) (noFailure dotBpb) (fsckInit dotDisk dotBpb) s →
    s.place = .finished → ∀ c, Led dotDisk dotBpb isEntry (Link dotDisk dotBpb) c →
      fatAt (fatByte s.disk dotBpb 0) c = 0 → fatAt (fatByte dotDisk dotBpb 0) c = 0 := by
  refine ⟨by set_option maxRecDepth 100000 in decide, fun claim => ?_⟩
  have first : ∃ rest, entriesOf dotDisk dotBpb 2 = dotEntry :: rest := ⟨_, rfl⟩
  obtain ⟨rest, all⟩ := first
  have led := led_first (by decide) all (by decide) ⟨by decide, by decide⟩ (by decide)
  have kept := claim dotRun dotRun_reached (FsckPlace.eq_finished (by decide)) dotEntry.start led
  revert kept
  decide

end Cos.Fs
