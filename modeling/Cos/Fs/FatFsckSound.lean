import Cos.Fs.FatWalk

/-! # What the checker owns

The clusters that `fat_fsck` marks: only such as a directory entry leads to, whatever fails, and all
of them when nothing does.
-/

namespace Cos.Fs

open Cos.Lib

variable {disk : Disk} {b : Bpb} {repair ok : Bool} {s : Fsck} {m : Marks} {c v d g : Nat}
  {e : RawEntry} {rest : List RawEntry} {live : RawEntry → Prop}

/-- What is owned lies in the volume, goes on to what is owned, and is led to through what is
owned. -/
structure MarksSound (disk : Disk) (b : Bpb) (m : Marks) : Prop where
  inside : ∀ c, m.owned c = true → b.inVolume c = true
  touched : ∀ i ∈ m.touched, i < b.limit
  closed : ∀ c v, m.owned c = true → Link disk b c v → m.owned v = true
  led : ∀ c, m.owned c = true → Led disk b isWalked (OwnLink disk b m) c

theorem ownLink_mono {after : Marks} (keeps : ∀ x, m.owned x = true → after.owned x = true)
    (c v : Nat) (linked : OwnLink disk b m c v) : OwnLink disk b after c v :=
  ⟨keeps c linked.1, linked.2⟩

theorem led_path {link : Nat → Nat → Prop} (led : Led disk b live link c)
    (path : Relation.ReflTransGen link c v) : Led disk b live link v := by
  induction path with
  | refl => exact led
  | tail _ linked ih => exact ih.next linked

theorem MarksSound.walk (sound : MarksSound disk b m) (accepted : b.Accepted)
    (led : b.inVolume c = true → ∀ after : Marks, (∀ x, m.owned x = true → after.owned x = true) →
      Led disk b isWalked (OwnLink disk b after) c) :
    MarksSound disk b (walkChain disk b (b.nclusters + 1) m c 0).1 := by
  have walked := @walkChain_start disk b c m accepted
  refine ⟨walked.inside sound.inside, walked.touches sound.touched, ?_, ?_⟩
  · intro x v owned linked
    cases before : m.owned x with
    | false => exact walked.closes x v owned before linked
    | true => exact walked.keeps v (sound.closed x v before linked)
  · intro x owned
    rcases walked.only x owned with before | ⟨inside, path⟩
    · exact (sound.led x before).mono (ownLink_mono walked.keeps)
    · exact led_path (led inside _ walked.keeps) path

structure EntryDone (disk : Disk) (b : Bpb) (s : Fsck) (e : RawEntry) (ok : Bool) (after : Fsck) :
    Prop where
  place : after.place = s.place
  sameDisk : after.disk = s.disk
  current : after.current = s.current
  visited : after.visited = s.visited
  past : after.past = s.past
  mismatch : after.report.fatMismatch = s.report.fatMismatch
  outside : b.inVolume e.start = false → after.marks = s.marks ∧ after.queue = s.queue
  inside : b.inVolume e.start = true →
    after.marks = (walkChain disk b (b.nclusters + 1) s.marks e.start 0).1
  queue : after.queue = s.queue ∨
    (e.isDir = true ∧ b.inVolume e.start = true ∧ after.queue = s.queue ++ [e.start])
  pushed : e.isDir = true → b.inVolume e.start = true →
    after.queue = s.queue ++ [e.start] ∨ (¬ s.nq < s.cap ∧ ¬ (ok = true ∧ s.cap * 2 * 4 ≤ heapSize))

theorem inVolume_zero : b.inVolume 0 = false := rfl

theorem fsckPush_cases (s : Fsck) (start : Nat) (ok : Bool) :
    (∃ cap, fsckPush s start ok =
    { s with queue := s.queue ++ [start], nq := s.nq + 1, cap := cap }) ∨
    (fsckPush s start ok = s ∧ ¬ s.nq < s.cap ∧ ¬ (ok = true ∧ s.cap * 2 * 4 ≤ heapSize)) := by
  unfold fsckPush
  by_cases room : s.nq < s.cap
  · rw [if_pos room]
    exact Or.inl ⟨s.cap, rfl⟩
  · rw [if_neg room]
    by_cases grows : ok = true ∧ s.cap * 2 * 4 ≤ heapSize
    · rw [if_pos grows]
      exact Or.inl ⟨s.cap * 2, rfl⟩
    · rw [if_neg grows]
      exact Or.inr ⟨rfl, room, grows⟩

theorem fsckEntry_done : EntryDone disk b s e ok (fsckEntry disk b s e ok) := by
  unfold fsckEntry
  by_cases none : e.start = 0
  · have out : b.inVolume e.start = false := by rw [none, inVolume_zero]
    have notIn : b.inVolume e.start ≠ true := by
      rw [out]
      exact Bool.false_ne_true
    rw [if_pos none]
    refine ⟨rfl, rfl, rfl, rfl, rfl, ?_, fun _ => ⟨rfl, rfl⟩, fun wrong => absurd wrong notIn,
      Or.inl rfl, fun _ wrong => absurd wrong notIn⟩
    split <;> split <;> rfl
  · rw [if_neg none]
    by_cases out : b.inVolume e.start = false
    · have notIn : b.inVolume e.start ≠ true := by
        rw [out]
        exact Bool.false_ne_true
      rw [if_pos out]
      refine ⟨rfl, rfl, rfl, rfl, rfl, ?_, fun _ => ⟨rfl, rfl⟩, fun wrong => absurd wrong notIn,
        Or.inl rfl, fun _ wrong => absurd wrong notIn⟩
      split <;> rfl
    · rw [if_neg out]
      have inside : b.inVolume e.start = true := (Bool.not_eq_false _).mp out
      by_cases isDir : e.isDir = true
      · rw [if_pos isDir]
        rw [if_pos isDir]
        have cases := fsckPush_cases ({ s with
          marks := (walkChain disk b (b.nclusters + 1) s.marks e.start 0).1
          report := { s.report with dirs := s.report.dirs + 1 } } : Fsck) e.start ok
        rcases cases with ⟨cap, pushed⟩ | ⟨kept, full, fails⟩
        · rw [pushed]
          exact ⟨rfl, rfl, rfl, rfl, rfl, rfl, fun wrong => absurd wrong out, fun _ => rfl,
            Or.inr ⟨isDir, inside, rfl⟩, fun _ _ => Or.inl rfl⟩
        · rw [kept]
          exact ⟨rfl, rfl, rfl, rfl, rfl, rfl, fun wrong => absurd wrong out, fun _ => rfl,
            Or.inl rfl, fun _ _ => Or.inr ⟨full, fails⟩⟩
      · rw [if_neg isDir]
        dsimp only
        refine ⟨rfl, rfl, rfl, rfl, rfl, ?_, fun wrong => absurd wrong out, fun _ => rfl,
          Or.inl rfl, fun wrong => absurd wrong isDir⟩
        split
        · rfl
        · split <;> rfl

def mismatches (disk : Disk) (b : Bpb) : Nat :=
  ((List.range b.limit).filter (mismatched disk b)).length

def leaks (disk : Disk) (b : Bpb) (m : Marks) : Nat :=
  ((List.range b.limit).filter (leaked disk b m.owned)).length

def OwnDir (disk : Disk) (b : Bpb) (m : Marks) (c : Nat) : Prop :=
  m.owned c = true ∧ DirCluster disk b isWalked (OwnLink disk b m) c

def Fsck.PlaceSound (disk : Disk) (b : Bpb) (s : Fsck) : Prop :=
  match s.place with
  | .load => s.marks = ⟨fun _ => false, 0, 0, []⟩ ∧ s.queue = []
  | .dir c _ => b.inVolume c = true → OwnDir disk b s.marks c
  | .entries c _ rest => b.inVolume c = true ∧ OwnDir disk b s.marks c ∧
      ∃ done, done ++ rest = entriesOf disk b c ∧ ∀ x ∈ done, x.isEnd = false
  | .finished => s.queue = [] ∧ s.report.leakedClusters = leaks disk b s.marks ∧
      s.report.fatMismatch = mismatches disk b
  | _ => True

structure FsckSound (disk : Disk) (b : Bpb) (repair : Bool) (s : Fsck) : Prop where
  marks : MarksSound disk b s.marks
  queue : ∀ d ∈ s.queue, b.inVolume d = true → OwnDir disk b s.marks d
  place : s.PlaceSound disk b
  mismatch : s.place ≠ .load → s.place ≠ .failed → s.report.fatMismatch = mismatches disk b
  sameDisk : s.place ≠ .finished → s.disk = disk
  written : s.place = .finished → s.disk =
    if repair = true ∧ (leaks disk b s.marks ≠ 0 ∨ mismatches disk b ≠ 0) then
      writeFats disk b (repairedFat disk b s.marks.owned)
    else disk

theorem OwnDir.mono {after : Marks} (own : OwnDir disk b m c)
    (keeps : ∀ x, m.owned x = true → after.owned x = true) : OwnDir disk b after c :=
  ⟨keeps c own.1, own.2.mono (ownLink_mono keeps)⟩

theorem MarksSound.touch {touched : List Nat} (sound : MarksSound disk b m)
    (less : ∀ i ∈ touched, i < b.limit) : MarksSound disk b { m with touched := touched } :=
  { sound with touched := less }

theorem MarksSound.errors {errors : Nat} (sound : MarksSound disk b m) :
    MarksSound disk b { m with chainErrors := errors } := { sound with }

theorem FsckSound.load (accepted : b.Accepted) (sound : FsckSound disk b repair s)
    (here : s.place = .load) : FsckSound disk b repair (fsckLoad disk b s) := by
  have marks : MarksSound disk b { s.marks with touched := List.range b.limit } :=
    sound.marks.touch fun i member => List.mem_range.mp member
  have walked := @walkChain_start disk b b.root { s.marks with touched := List.range b.limit }
    accepted
  refine ⟨marks.walk accepted fun inside _ _ => .root inside, ?_, trivial, fun _ _ => rfl,
    fun _ => sound.sameDisk (by rw [here]; simp), fun wrong => by cases wrong⟩
  intro d member inside
  rw [List.mem_singleton.mp member] at inside ⊢
  exact ⟨walked.start inside, .root inside⟩

theorem FsckSound.finish (sound : FsckSound disk b repair s) (here : s.place = .pop)
    (empty : s.queue = []) : FsckSound disk b repair (fsckFinish disk b repair s) := by
  have mismatch := sound.mismatch (by rw [here]; simp) (by rw [here]; simp)
  have same := sound.sameDisk (by rw [here]; simp)
  have touched : ∀ i ∈ List.range b.limit ++ s.marks.touched, i < b.limit := by
    intro i member
    rcases List.mem_append.mp member with member | member
    · exact List.mem_range.mp member
    · exact sound.marks.touched i member
  unfold fsckFinish
  dsimp only
  rw [mismatch]
  split
  · next writes =>
    refine ⟨sound.marks.touch touched, sound.queue, ⟨empty, rfl, rfl⟩, fun _ _ => rfl,
      fun wrong => absurd rfl wrong, fun _ => ?_⟩
    exact (if_pos writes).symm
  · next clean =>
    refine ⟨sound.marks.touch touched, sound.queue, ⟨empty, rfl, rfl⟩, fun _ _ => rfl,
      fun wrong => absurd rfl wrong, fun _ => ?_⟩
    exact same.trans (if_neg clean).symm

theorem FsckSound.back (sound : FsckSound disk b repair s)
    (here : s.place ≠ .load ∧ s.place ≠ .failed ∧ s.place ≠ .finished) :
    FsckSound disk b repair s.back :=
  ⟨sound.marks, sound.queue, trivial, fun _ _ => sound.mismatch here.1 here.2.1,
    fun _ => sound.sameDisk here.2.2, fun wrong => by cases wrong⟩

theorem FsckSound.at_place {place : FsckPlace} (sound : FsckSound disk b repair s)
    (here : s.place ≠ .load ∧ s.place ≠ .failed ∧ s.place ≠ .finished) (notEnd : place ≠ .finished)
    (sane : Fsck.PlaceSound disk b { s with place := place }) :
    FsckSound disk b repair { s with place := place } :=
  ⟨sound.marks, sound.queue, sane, fun _ _ => sound.mismatch here.1 here.2.1,
    fun _ => sound.sameDisk here.2.2, fun wrong => absurd wrong notEnd⟩

theorem FsckSound.entry (accepted : b.Accepted) (sound : FsckSound disk b repair s)
    (here : s.place = .entries c g rest) (walked : isWalked e)
    (dir : DirCluster disk b isWalked (OwnLink disk b s.marks) c)
    (member : e ∈ liveEntries disk b c) : FsckSound disk b repair (fsckEntry disk b s e ok) := by
  have does := @fsckEntry_done disk b ok s e
  have marks : MarksSound disk b (fsckEntry disk b s e ok).marks := by
    cases inside : b.inVolume e.start with
    | false =>
      rw [(does.outside inside).1]
      exact sound.marks
    | true =>
      rw [does.inside inside]
      refine sound.marks.walk accepted fun inside after keeps => ?_
      exact .start (dir.mono (ownLink_mono keeps)) member walked inside
  have keeps : ∀ x, s.marks.owned x = true → (fsckEntry disk b s e ok).marks.owned x = true := by
    intro x owned
    cases inside : b.inVolume e.start with
    | false =>
      rw [(does.outside inside).1]
      exact owned
    | true =>
      rw [does.inside inside]
      exact (walkChain_start accepted).keeps x owned
  have queued : ∀ d ∈ s.queue, b.inVolume d = true →
    OwnDir disk b (fsckEntry disk b s e ok).marks d :=
    fun d queued inside => (sound.queue d queued inside).mono keeps
  refine ⟨marks, ?_, ?_, ?_, ?_, ?_⟩
  · intro d inQueue inside
    rcases does.queue with same | ⟨isDir, starts, same⟩
    · rw [same] at inQueue
      exact queued d inQueue inside
    · rw [same] at inQueue
      rcases List.mem_append.mp inQueue with inQueue | isNew
      · exact queued d inQueue inside
      · rw [List.mem_singleton.mp isNew]
        refine ⟨?_, .sub (dir.mono (ownLink_mono keeps)) member walked isDir starts⟩
        rw [does.inside starts]
        exact (walkChain_start accepted).start starts
  · have place := sound.place
    unfold Fsck.PlaceSound at place ⊢
    rw [does.place, here]
    rw [here] at place
    exact ⟨place.1, place.2.1.mono keeps, place.2.2⟩
  · intro _ _
    rw [does.mismatch]
    exact sound.mismatch (by rw [here]; simp) (by rw [here]; simp)
  · intro _
    rw [does.sameDisk]
    exact sound.sameDisk (by rw [here]; simp)
  · intro wrong
    rw [does.place, here] at wrong
    cases wrong

theorem placeSound_dir (here : s.place = .dir c g)
    (own : b.inVolume c = true → OwnDir disk b s.marks c) : s.PlaceSound disk b := by
  unfold Fsck.PlaceSound
  rw [here]
  exact own

theorem placeSound_entries (here : s.place = .entries c g rest)
    (own : b.inVolume c = true ∧ OwnDir disk b s.marks c ∧
    ∃ done, done ++ rest = entriesOf disk b c ∧
    ∀ x ∈ done, x.isEnd = false) : s.PlaceSound disk b := by
  unfold Fsck.PlaceSound
  rw [here]
  exact own

theorem FsckSound.step (accepted : b.Accepted) (sound : FsckSound disk b repair s) (ok : Bool) :
    FsckSound disk b repair (fsckStep disk b repair s ok) := by
  have place := sound.place
  unfold Fsck.PlaceSound at place
  unfold fsckStep
  split
  · next here =>
    split
    · exact sound.load accepted here
    · exact ⟨sound.marks, sound.queue, trivial, fun _ wrong => absurd rfl wrong,
        fun _ => sound.sameDisk (by rw [here]; simp), fun wrong => by cases wrong⟩
  · next here =>
    split
    · next empty => exact sound.finish here empty
    · next d rest isQueue =>
      refine ⟨sound.marks, fun x member => sound.queue x (by rw [isQueue]; exact List.mem_cons_of_mem d member), ?_,
        fun _ _ => sound.mismatch (by rw [here]; simp) (by rw [here]; simp),
        fun _ => sound.sameDisk (by rw [here]; simp), fun wrong => by cases wrong⟩
      exact sound.queue d (by rw [isQueue]; exact List.mem_cons_self)
  · next c guard here =>
    have inWalk : s.place ≠ .load ∧ s.place ≠ .failed ∧ s.place ≠ .finished := by
      rw [here]
      simp
    rw [here] at place
    split
    · next goes =>
      split
      · exact sound.at_place inWalk (by simp) ⟨goes.1, place goes.1, [], rfl, fun x wrong => by cases wrong⟩
      · exact FsckSound.back ⟨sound.marks.errors, sound.queue, placeSound_dir here place,
          sound.mismatch, sound.sameDisk, sound.written⟩ inWalk
    · exact sound.back inWalk
  · next c guard here =>
    have inWalk : s.place ≠ .load ∧ s.place ≠ .failed ∧ s.place ≠ .finished := by
      rw [here]
      simp
    rw [here] at place
    obtain ⟨inside, own, done, all, before⟩ := place
    have touched : MarksSound disk b { s.marks with touched := c :: s.marks.touched } := by
      refine sound.marks.touch fun i member => ?_
      rcases List.mem_cons.mp member with rfl | member
      · exact (inVolume_iff.mp inside).2
      · exact sound.marks.touched i member
    have visited : FsckSound disk b repair
        { s with visited := c :: s.visited, marks := { s.marks with touched := c :: s.marks.touched } } :=
      ⟨touched, sound.queue, placeSound_entries here ⟨inside, own, done, all, before⟩,
        sound.mismatch, sound.sameDisk, sound.written⟩
    split
    · exact visited.back inWalk
    · refine visited.at_place inWalk (by simp) fun nextInside => ?_
      have linked : Link disk b c (nextOf disk b c) := ⟨inside, nextInside, rfl⟩
      refine ⟨sound.marks.closed c _ own.1 linked, .next own.2 ?_ ⟨own.1, linked⟩⟩
      rintro ⟨x, member, ends⟩
      rw [← all, List.append_nil] at member
      rw [before x member] at ends
      cases ends
  · next c guard e rest here =>
    have inWalk : s.place ≠ .load ∧ s.place ≠ .failed ∧ s.place ≠ .finished := by
      rw [here]
      simp
    rw [here] at place
    obtain ⟨inside, own, done, all, before⟩ := place
    split
    · exact FsckSound.back ⟨sound.marks, sound.queue, placeSound_entries here ⟨inside, own, done,
        all, before⟩, sound.mismatch, sound.sameDisk, sound.written⟩ inWalk
    · next notEnd =>
      have open_ : e.isEnd = false := (Bool.not_eq_true _).mp notEnd
      have moved : FsckSound disk b repair { s with place := .entries c guard rest } := by
        refine sound.at_place inWalk (by simp) ⟨inside, own, done ++ [e], ?_, ?_⟩
        · rw [List.append_assoc, List.singleton_append]
          exact all
        · intro x member
          rcases List.mem_append.mp member with member | isLast
          · exact before x member
          · rw [List.mem_singleton.mp isLast]
            exact open_
      split
      · exact moved
      · next counted =>
        rw [Bool.or_eq_true, not_or] at counted
        refine moved.entry accepted rfl ⟨(Bool.not_eq_true _).mp counted.1, (Bool.not_eq_true _).mp counted.2⟩ own.2 ?_
        exact mem_liveEntries all before open_
  · exact sound
  · exact sound

theorem FsckSound.init : FsckSound disk b repair (fsckInit disk b) where
  marks :=
    { inside := fun c owned => (Bool.false_ne_true owned).elim
      touched := fun i member => (List.not_mem_nil member).elim
      closed := fun c v owned => (Bool.false_ne_true owned).elim
      led := fun c owned => (Bool.false_ne_true owned).elim }
  queue := fun d member => by cases member
  place := ⟨rfl, rfl⟩
  mismatch := fun wrong => absurd rfl wrong
  sameDisk := fun _ => rfl
  written := fun wrong => by cases wrong

end Cos.Fs
