import Cos.Fs.FatFsckSound

/-! # Everything is found when nothing fails

While every directory is read and queued, the walk comes to every cluster that an entry leads to.
-/

namespace Cos.Fs

open Cos.Lib

variable {disk : Disk} {b : Bpb} {repair ok : Bool} {s after : Fsck} {m : Marks} {c v d g : Nat}
  {e : RawEntry} {rest : List RawEntry} {live : RawEntry → Prop}

/-- A directory cluster is not read, or a directory is not queued. -/
def Fails (b : Bpb) (s : Fsck) (ok : Bool) : Prop :=
  match s.place with
  | .dir c guard => ok = false ∧ b.inVolume c = true ∧ guard ≤ b.nclusters
  | .entries _ _ (e :: _) => e.isEnd = false ∧ isWalked e ∧ e.isDir = true ∧ b.inVolume e.start = true ∧
      ¬ s.nq < s.cap ∧ ¬ (ok = true ∧ s.cap * 2 * 4 ≤ heapSize)
  | _ => False

/-- The step comes to an entry that is alive and that it passes over. -/
def PassesOver (b : Bpb) (live : RawEntry → Prop) (s : Fsck) : Prop :=
  match s.place with
  | .entries _ _ (e :: _) => e.isEnd = false ∧ live e ∧ ¬ isWalked e ∧ b.inVolume e.start = true
  | _ => False

def Fsck.InDir (s : Fsck) : Prop :=
  match s.place with
  | .dir _ _ | .entries _ _ _ => True
  | _ => False

def Fsck.Started (s : Fsck) (d : Nat) : Prop := d ∈ s.past ∨ d ∈ s.queue ∨ (d = s.current ∧ s.InDir)

/-- The cluster an entry leads to is found, and a directory is started. -/
def Fsck.Found (b : Bpb) (s : Fsck) (e : RawEntry) : Prop :=
  b.inVolume e.start = true → s.marks.owned e.start = true ∧ (e.isDir = true → s.Started e.start)

/-- The clusters of the directory in hand that are behind the walk. -/
def Fsck.Behind (disk : Disk) (b : Bpb) (s : Fsck) (g : Nat) : Prop :=
  ∀ i < g, chainAt disk b s.current i ∈ s.visited ∧ b.inVolume (chainAt disk b s.current i) = true

def Fsck.PlaceFull (disk : Disk) (b : Bpb) (live : RawEntry → Prop) (s : Fsck) : Prop :=
  match s.place with
  | .dir c g => c = chainAt disk b s.current g ∧ g ≤ b.nclusters + 1 ∧ s.Behind disk b g
  | .entries c g rest => c = chainAt disk b s.current g ∧ g ≤ b.nclusters ∧ b.inVolume c = true ∧ s.Behind disk b g ∧
      ∃ done, done ++ rest = entriesOf disk b c ∧ (∀ x ∈ done, x.isEnd = false) ∧ ∀ x ∈ done, live x → s.Found b x
  | _ => True

structure FsckFull (disk : Disk) (b : Bpb) (live : RawEntry → Prop) (s : Fsck) : Prop where
  fresh : s.place = .load ∨ s.place = .failed → s.visited = [] ∧ s.past = []
  root : s.place ≠ .load → s.place ≠ .failed →
    (b.inVolume b.root = true → s.marks.owned b.root = true) ∧ s.Started b.root
  entries : ∀ c ∈ s.visited, ∀ e ∈ liveEntries disk b c, live e → s.Found b e
  past : ∀ d ∈ s.past, ∀ c, OnDir disk b d c → c ∈ s.visited
  place : s.PlaceFull disk b live

structure Fsck.Grows (s after : Fsck) : Prop where
  owned : ∀ c, s.marks.owned c = true → after.marks.owned c = true
  started : ∀ d, s.Started d → after.Started d

theorem Fsck.Grows.found (grows : s.Grows after) (found : s.Found b e) :
    after.Found b e := fun inside =>
  ⟨grows.owned _ (found inside).1, fun isDir => grows.started _ ((found inside).2 isDir)⟩

theorem inDir_entries (here : s.place = .entries c g rest) : s.InDir := by
  unfold Fsck.InDir
  rw [here]
  trivial

theorem Fsck.back_grows (s : Fsck) : s.Grows s.back where
  owned := fun _ owned => owned
  started := by
    rintro d (past | queued | ⟨rfl, -⟩)
    · exact Or.inl (List.mem_cons_of_mem _ past)
    · exact Or.inr (Or.inl queued)
    · exact Or.inl List.mem_cons_self

theorem FsckFull.back (full : FsckFull disk b live s) (here : s.place ≠ .load ∧ s.place ≠ .failed)
    (ended : ∀ c, OnDir disk b s.current c → c ∈ s.visited) : FsckFull disk b live s.back where
  fresh := by
    rintro (wrong | wrong) <;> cases wrong
  root := fun _ _ => ⟨(full.root here.1 here.2).1,
    s.back_grows.started _ (full.root here.1 here.2).2⟩
  entries := fun c member e isEntry alive =>
    s.back_grows.found (full.entries c member e isEntry alive)
  past := by
    intro d member c on
    rcases List.mem_cons.mp member with rfl | member
    · exact ended c on
    · exact full.past d member c on
  place := trivial

theorem FsckFull.visit (full : FsckFull disk b live s) (here : s.place ≠ .load ∧ s.place ≠ .failed)
    (found : ∀ x ∈ liveEntries disk b c, live x → s.Found b x)
    (place : Fsck.PlaceFull disk b live { s with visited := c :: s.visited }) :
    FsckFull disk b live { s with visited := c :: s.visited } where
  fresh := fun wrong => absurd wrong (not_or.mpr here)
  root := full.root
  entries := by
    intro x member
    rcases List.mem_cons.mp member with rfl | member
    · exact found
    · exact full.entries x member
  past := fun d member x on => List.mem_cons_of_mem c (full.past d member x on)
  place := place

theorem placeFull_entries (here : s.place = .entries c g rest)
    (full : c = chainAt disk b s.current g ∧ g ≤ b.nclusters ∧ b.inVolume c = true ∧ s.Behind disk b g ∧
      ∃ done, done ++ rest = entriesOf disk b c ∧ (∀ x ∈ done, x.isEnd = false) ∧ ∀ x ∈ done, live x → s.Found b x) :
    s.PlaceFull disk b live := by
  unfold Fsck.PlaceFull
  rw [here]
  exact full

theorem Fsck.Behind.visit (behind : s.Behind disk b g) (v : Nat) :
    Fsck.Behind disk b { s with visited := v :: s.visited } g :=
  fun i less => ⟨List.mem_cons_of_mem v (behind i less).1, (behind i less).2⟩

theorem FsckFull.load (accepted : b.Accepted) (full : FsckFull disk b live s)
    (here : s.place = .load) : FsckFull disk b live (fsckLoad disk b s) where
  fresh := by
    rintro (wrong | wrong) <;> cases wrong
  root := fun _ _ => ⟨(walkChain_start accepted).start, Or.inr (Or.inl List.mem_cons_self)⟩
  entries := by
    intro c member
    change c ∈ s.visited at member
    rw [(full.fresh (Or.inl here)).1] at member
    cases member
  past := by
    intro d member
    change d ∈ s.past at member
    rw [(full.fresh (Or.inl here)).2] at member
    cases member
  place := trivial

theorem fsckFinish_same : (fsckFinish disk b repair s).place = .finished ∧
    (fsckFinish disk b repair s).marks.owned = s.marks.owned ∧
    (fsckFinish disk b repair s).queue = s.queue ∧
    (fsckFinish disk b repair s).visited = s.visited ∧
    (fsckFinish disk b repair s).past = s.past := by
  unfold fsckFinish
  dsimp only
  split <;> exact ⟨rfl, rfl, rfl, rfl, rfl⟩

theorem FsckFull.finish (full : FsckFull disk b live s) (here : s.place = .pop) :
    FsckFull disk b live (fsckFinish disk b repair s) := by
  obtain ⟨place, owned, queue, visited, past⟩ := @fsckFinish_same disk b repair s
  have grows : s.Grows (fsckFinish disk b repair s) := by
    refine ⟨fun c isOwned => by rw [owned]; exact isOwned, ?_⟩
    rintro d (isOver | queued | ⟨-, inDir⟩)
    · exact Or.inl (by rw [past]; exact isOver)
    · exact Or.inr (Or.inl (by rw [queue]; exact queued))
    · unfold Fsck.InDir at inDir
      rw [here] at inDir
      cases inDir
  have root := full.root (by rw [here]; simp) (by rw [here]; simp)
  refine ⟨?_, fun _ _ => ⟨fun inside => grows.owned _ (root.1 inside), grows.started _ root.2⟩, ?_,
    ?_, ?_⟩
  · rw [place]
    rintro (wrong | wrong) <;> cases wrong
  · rw [visited]
    exact fun c member e isEntry alive => grows.found (full.entries c member e isEntry alive)
  · rw [visited, past]
    exact full.past
  · unfold Fsck.PlaceFull
    rw [place]
    trivial

theorem FsckFull.take (full : FsckFull disk b live s) (here : s.place = .pop) {queue : List Nat}
    (isQueue : s.queue = d :: queue) :
    FsckFull disk b live { s with queue := queue, place := .dir d 0, current := d } := by
  have grows : s.Grows { s with queue := queue, place := .dir d 0, current := d } := by
    refine ⟨fun _ owned => owned, ?_⟩
    rintro x (isOver | queued | ⟨-, inDir⟩)
    · exact Or.inl isOver
    · rw [isQueue] at queued
      rcases List.mem_cons.mp queued with rfl | queued
      · exact Or.inr (Or.inr ⟨rfl, trivial⟩)
      · exact Or.inr (Or.inl queued)
    · unfold Fsck.InDir at inDir
      rw [here] at inDir
      cases inDir
  have root := full.root (by rw [here]; simp) (by rw [here]; simp)
  exact
    { fresh := by rintro (wrong | wrong) <;> cases wrong
      root := fun _ _ => ⟨root.1, grows.started _ root.2⟩
      entries := fun c member e isEntry alive => grows.found (full.entries c member e isEntry alive)
      past := full.past
      place := ⟨rfl, Nat.zero_le _, fun i wrong => absurd wrong (Nat.not_lt_zero i)⟩ }

theorem Fsck.place_grows {place : FsckPlace}
    (inDir : s.InDir → Fsck.InDir { s with place := place }) :
    s.Grows { s with place := place } where
  owned := fun _ owned => owned
  started := by
    rintro d (isOver | queued | ⟨same, before⟩)
    · exact Or.inl isOver
    · exact Or.inr (Or.inl queued)
    · exact Or.inr (Or.inr ⟨same, inDir before⟩)

theorem FsckFull.at_place {place : FsckPlace} (full : FsckFull disk b live s)
    (here : s.place ≠ .load ∧ s.place ≠ .failed) (there : place ≠ .load ∧ place ≠ .failed)
    (inDir : s.InDir → Fsck.InDir { s with place := place })
    (stands : Fsck.PlaceFull disk b live { s with place := place }) :
    FsckFull disk b live { s with place := place } := by
  have grows := Fsck.place_grows inDir
  exact
    { fresh := fun wrong => absurd wrong (not_or.mpr there)
      root := fun _ _ => ⟨(full.root here.1 here.2).1, grows.started _ (full.root here.1 here.2).2⟩
      entries := fun c member e isEntry alive => grows.found (full.entries c member e isEntry alive)
      past := full.past
      place := stands }

theorem Fsck.Behind.stops (behind : s.Behind disk b g)
    (out : b.inVolume (chainAt disk b s.current g) = false) :
    ∀ c, OnDir disk b s.current c → c ∈ s.visited := by
  intro c on
  cases g with
  | zero =>
    obtain ⟨i, same⟩ := on.index
    have inside : b.inVolume s.current = true := by
      clear same
      induction on with
      | start inside => exact inside
      | next on goesOn linked ih => exact ih
    change b.inVolume s.current = false at out
    rw [inside] at out
    cases out
  | succ g =>
    obtain ⟨i, upTo, rfl⟩ := on.index_le (Or.inr out)
    exact (behind i (Nat.lt_succ_of_le upTo)).1

theorem Fsck.Behind.circle (behind : s.Behind disk b (b.nclusters + 1)) :
    ∀ c, OnDir disk b s.current c → c ∈ s.visited := by
  intro c on
  obtain ⟨k, rfl⟩ := on.index
  obtain ⟨i, upTo, same⟩ := chainAt_cycle (fun i upTo => (behind i (Nat.lt_succ_of_le upTo)).2) k
  rw [same]
  exact (behind i (Nat.lt_succ_of_le upTo)).1

theorem Fsck.Behind.succ (behind : s.Behind disk b g)
    (member : chainAt disk b s.current g ∈ s.visited)
    (inside : b.inVolume (chainAt disk b s.current g) = true) : s.Behind disk b (g + 1) := by
  intro i less
  rcases Nat.lt_or_eq_of_le (Nat.le_of_lt_succ less) with before | rfl
  · exact behind i before
  · exact ⟨member, inside⟩

theorem FsckFull.entry (accepted : b.Accepted) (full : FsckFull disk b live s)
    {done : List RawEntry} (here : s.place = .entries c g (e :: rest))
    (isChain : c = chainAt disk b s.current g) (bound : g ≤ b.nclusters)
    (inside : b.inVolume c = true) (behind : s.Behind disk b g)
    (all : done ++ e :: rest = entriesOf disk b c) (before : ∀ x ∈ done, x.isEnd = false)
    (open_ : e.isEnd = false) (found : ∀ x ∈ done, live x → s.Found b x)
    (fits : e.isDir = true → b.inVolume e.start = true →
    s.nq < s.cap ∨ (ok = true ∧ s.cap * 2 * 4 ≤ heapSize)) :
    FsckFull disk b live (fsckEntry disk b { s with place := .entries c g rest } e ok) := by
  have does := @fsckEntry_done disk b ok { s with place := .entries c g rest } e
  have inDir : (fsckEntry disk b { s with place := .entries c g rest } e ok).InDir :=
    inDir_entries does.place
  have grows : s.Grows (fsckEntry disk b { s with place := .entries c g rest } e ok) := by
    constructor
    · intro x owned
      cases starts : b.inVolume e.start with
      | false =>
        rw [(does.outside starts).1]
        exact owned
      | true =>
        rw [does.inside starts]
        exact (walkChain_start accepted).keeps x owned
    · rintro d (isOver | queued | ⟨same, -⟩)
      · exact Or.inl (by rw [does.past]; exact isOver)
      · refine Or.inr (Or.inl ?_)
        rcases does.queue with same | ⟨-, -, same⟩
        · rw [same]
          exact queued
        · rw [same]
          exact List.mem_append_left _ queued
      · exact Or.inr (Or.inr ⟨same.trans does.current.symm, inDir⟩)
  have self : (fsckEntry disk b { s with place := .entries c g rest } e ok).Found b e := by
    intro starts
    constructor
    · rw [does.inside starts]
      exact (walkChain_start accepted).start starts
    · intro isDir
      refine Or.inr (Or.inl ?_)
      rcases does.pushed isDir starts with same | ⟨full, fails⟩
      · rw [same]
        exact List.mem_append_right _ (List.mem_singleton_self _)
      · rcases fits isDir starts with room | grows
        · exact absurd room full
        · exact absurd grows fails
  have root := full.root (by rw [here]; simp) (by rw [here]; simp)
  refine ⟨?_, fun _ _ => ⟨fun inside => grows.owned _ (root.1 inside), grows.started _ root.2⟩, ?_,
    ?_, ?_⟩
  · rw [does.place]
    rintro (wrong | wrong) <;> cases wrong
  · rw [does.visited]
    exact fun c member e isEntry alive => grows.found (full.entries c member e isEntry alive)
  · rw [does.visited, does.past]
    exact full.past
  · refine placeFull_entries does.place ⟨by rw [does.current]; exact isChain, bound, inside, ?_, done ++ [e], ?_, ?_, ?_⟩
    · unfold Fsck.Behind
      rw [does.current, does.visited]
      exact behind
    · rw [List.append_assoc, List.singleton_append]
      exact all
    · intro x member
      rcases List.mem_append.mp member with member | isLast
      · exact before x member
      · rw [List.mem_singleton.mp isLast]
        exact open_
    · intro x member alive
      rcases List.mem_append.mp member with member | isLast
      · exact grows.found (found x member alive)
      · rw [List.mem_singleton.mp isLast]
        exact self

theorem isEoc_outside (accepted : b.Accepted) (eoc : isEoc v = true) : b.inVolume v = false := by
  cases inside : b.inVolume v with
  | false => rfl
  | true =>
    rw [(inVolume_next accepted inside).1] at eoc
    cases eoc

theorem FsckFull.step (accepted : b.Accepted) (full : FsckFull disk b live s)
    (succeeds : ¬ Fails b s ok) (attends : ¬ PassesOver b live s) :
    FsckFull disk b live (fsckStep disk b repair s ok) := by
  have place := full.place
  unfold Fsck.PlaceFull at place
  unfold Fails at succeeds
  unfold PassesOver at attends
  unfold fsckStep
  split
  · next here =>
    split
    · exact full.load accepted here
    · exact
        { fresh := fun _ => full.fresh (Or.inl here)
          root := fun _ wrong => absurd rfl wrong
          entries := by
            intro c member
            rw [(full.fresh (Or.inl here)).1] at member
            cases member
          past := full.past
          place := trivial }
  · next here =>
    split
    · exact full.finish here
    · next d queue isQueue => exact full.take here isQueue
  · next c guard here =>
    have inWalk : s.place ≠ .load ∧ s.place ≠ .failed := by
      rw [here]
      simp
    rw [here] at place succeeds
    obtain ⟨isChain, bound, behind⟩ := place
    split
    · next goes =>
      split
      · refine full.at_place inWalk (by simp) (fun _ => trivial) ?_
        exact ⟨isChain, goes.2, goes.1, behind, [], rfl, fun x wrong =>
          (List.not_mem_nil wrong).elim, fun x wrong => (List.not_mem_nil wrong).elim⟩
      · next fails => exact absurd ⟨(Bool.not_eq_true _).mp fails, goes⟩ succeeds
    · next stops =>
      refine full.back inWalk ?_
      cases inside : b.inVolume c with
      | false =>
        rw [isChain] at inside
        exact behind.stops inside
      | true =>
        have last : guard = b.nclusters + 1 := by
          rw [inside] at stops
          simp only [true_and, Nat.not_le] at stops
          omega
        rw [last] at behind
        exact behind.circle
  · next c guard here =>
    have inWalk : s.place ≠ .load ∧ s.place ≠ .failed := by
      rw [here]
      simp
    rw [here] at place
    obtain ⟨isChain, bound, inside, behind, done, all, before, found⟩ := place
    rw [List.append_nil] at all
    have isLive : liveEntries disk b c = done := by
      rw [all]
      exact liveEntries_of_all (all ▸ before)
    have visited : FsckFull disk b live
        { s with visited := c :: s.visited, marks := { s.marks with touched := c :: s.marks.touched } } := by
      have step := full.visit inWalk (isLive ▸ found) (placeFull_entries here
        ⟨isChain, bound, inside, behind.visit c, done, by rw [List.append_nil]; exact all, before, found⟩)
      exact ⟨step.fresh, step.root, step.entries, step.past, placeFull_entries here
        ⟨isChain, bound, inside, behind.visit c, done, by rw [List.append_nil]; exact all, before, found⟩⟩
    have further : Fsck.Behind disk b
        { s with visited := c :: s.visited, marks := { s.marks with touched := c :: s.marks.touched } } (guard + 1) := by
      refine Fsck.Behind.succ (behind.visit c) ?_ ?_
      · exact List.mem_cons.mpr (Or.inl isChain.symm)
      · rw [← isChain]
        exact inside
    have isNext : nextOf disk b c = chainAt disk b s.current (guard + 1) := by rw [chainAt_succ, ← isChain]
    split
    · next eoc =>
      refine visited.back inWalk (further.stops ?_)
      rw [← isNext]
      exact isEoc_outside accepted eoc
    · refine visited.at_place inWalk (by simp) (fun _ => trivial) ?_
      exact ⟨isNext, Nat.succ_le_succ bound, further⟩
  · next c guard e rest here =>
    have inWalk : s.place ≠ .load ∧ s.place ≠ .failed := by
      rw [here]
      simp
    rw [here] at place succeeds attends
    obtain ⟨isChain, bound, inside, behind, done, all, before, found⟩ := place
    split
    · next ends =>
      have isLive := liveEntries_of_end all before ends
      have visited := full.visit inWalk (isLive ▸ found) (placeFull_entries here
        ⟨isChain, bound, inside, behind.visit c, done, all, before, found⟩)
      refine visited.back inWalk fun x on => ?_
      have hasEnd : HasEnd disk b (chainAt disk b s.current guard) := by
        rw [← isChain]
        exact ⟨e, by rw [← all]; exact List.mem_append_right done List.mem_cons_self, ends⟩
      obtain ⟨i, upTo, rfl⟩ := on.index_le (Or.inl hasEnd)
      rcases Nat.lt_or_eq_of_le upTo with less | rfl
      · exact List.mem_cons_of_mem c (behind i less).1
      · exact List.mem_cons.mpr (Or.inl isChain.symm)
    · next notEnd =>
      have open_ : e.isEnd = false := (Bool.not_eq_true _).mp notEnd
      split
      · next passed =>
        refine full.at_place inWalk (by simp) (fun _ => trivial) ?_
        refine ⟨isChain, bound, inside, behind, done ++ [e], ?_, ?_, ?_⟩
        · rw [List.append_assoc, List.singleton_append]
          exact all
        · intro x member
          rcases List.mem_append.mp member with member | isLast
          · exact before x member
          · rw [List.mem_singleton.mp isLast]
            exact open_
        · intro x member alive
          rcases List.mem_append.mp member with member | isLast
          · exact (@Fsck.place_grows s (.entries c guard rest) fun _ => trivial).found (found x member alive)
          · rw [List.mem_singleton.mp isLast] at alive ⊢
            intro starts
            refine absurd ⟨open_, alive, ?_, starts⟩ attends
            rintro ⟨counted, noDot⟩
            rw [counted, noDot] at passed
            cases passed
      · next counted =>
        rw [Bool.or_eq_true, not_or] at counted
        have walked : isWalked e := ⟨(Bool.not_eq_true _).mp counted.1, (Bool.not_eq_true _).mp counted.2⟩
        refine full.entry accepted here isChain bound inside behind all before open_ found ?_
        intro isDir starts
        by_contra fails
        rw [not_or] at fails
        exact succeeds ⟨open_, walked, isDir, starts, fails.1, fails.2⟩
  · exact full
  · exact full

theorem FsckFull.init : FsckFull disk b live (fsckInit disk b) where
  fresh := fun _ => ⟨rfl, rfl⟩
  root := fun wrong => absurd rfl wrong
  entries := fun _ member => (List.not_mem_nil member).elim
  past := fun _ member => (List.not_mem_nil member).elim
  place := trivial

theorem FsckFull.owned (full : FsckFull disk b live s) (sound : FsckSound disk b repair s)
    (ended : s.place = .finished) (led : Led disk b live (Link disk b) c) :
    s.marks.owned c = true := by
  have empty : s.queue = [] := by
    have place := sound.place
    unfold Fsck.PlaceSound at place
    rw [ended] at place
    exact place.1
  have isOver : ∀ d, s.Started d → d ∈ s.past := by
    rintro d (isOver | queued | ⟨-, inDir⟩)
    · exact isOver
    · rw [empty] at queued
      cases queued
    · unfold Fsck.InDir at inDir
      rw [ended] at inDir
      cases inDir
  have root := full.root (by rw [ended]; simp) (by rw [ended]; simp)
  have dirs : ∀ c, DirCluster disk b live (Link disk b) c → ∃ d ∈ s.past, OnDir disk b d c := by
    intro c dir
    induction dir with
    | root inside => exact ⟨b.root, isOver _ root.2, .start inside⟩
    | next dir goesOn linked ih =>
      obtain ⟨d, member, on⟩ := ih
      exact ⟨d, member, on.next goesOn linked⟩
    | sub dir member alive isDir inside ih =>
      obtain ⟨d, past, on⟩ := ih
      have found := full.entries _ (full.past d past _ on) _ member alive inside
      exact ⟨_, isOver _ (found.2 isDir), .start inside⟩
  induction led with
  | root inside => exact root.1 inside
  | start dir member alive inside =>
    obtain ⟨d, past, on⟩ := dirs _ dir
    exact (full.entries _ (full.past d past _ on) _ member alive inside).1
  | next led linked ih => exact sound.marks.closed _ _ ih linked

end Cos.Fs
