import Cos.Fs.FatFsck
import Mathlib.Data.Finset.Card
import Mathlib.Data.Finset.Interval
import Mathlib.Data.List.TakeWhile
import Mathlib.Order.Interval.Finset.Nat
import Mathlib.Combinatorics.Pigeonhole
import Mathlib.Logic.Relation
import Mathlib.Logic.Function.Iterate

/-! # What directory entries lead to

The clusters of the directories and of the files under them, and the walk along a chain.
-/

namespace Cos.Fs

open Function (update update_of_ne update_self)

variable {disk : Disk} {b : Bpb} {c v d fuel n g : Nat} {m : Marks} {e : RawEntry}
  {rest done : List RawEntry}

def Link (disk : Disk) (b : Bpb) (c v : Nat) : Prop :=
  b.inVolume c = true ∧ b.inVolume v = true ∧ nextOf disk b c = v

def liveEntries (disk : Disk) (b : Bpb) (c : Nat) : List RawEntry :=
  (entriesOf disk b c).takeWhile fun e => !e.isEnd

def HasEnd (disk : Disk) (b : Bpb) (c : Nat) : Prop := ∃ e ∈ entriesOf disk b c, e.isEnd = true

inductive DirCluster (disk : Disk) (b : Bpb) (live : RawEntry → Prop) (link : Nat → Nat → Prop) :
    Nat → Prop
  | root (inside : b.inVolume b.root = true) : DirCluster disk b live link b.root
  | next {c v : Nat} (dir : DirCluster disk b live link c) (goesOn : ¬ HasEnd disk b c)
      (linked : link c v) : DirCluster disk b live link v
  | sub {c : Nat} {e : RawEntry} (dir : DirCluster disk b live link c) (member : e ∈ liveEntries disk b c) (alive : live e)
      (isDir : e.isDir = true) (inside : b.inVolume e.start = true) : DirCluster disk b live link e.start

/-- A cluster that the root or a directory entry under it leads to. -/
inductive Led (disk : Disk) (b : Bpb) (live : RawEntry → Prop) (link : Nat → Nat → Prop) :
    Nat → Prop
  | root (inside : b.inVolume b.root = true) : Led disk b live link b.root
  | start {c : Nat} {e : RawEntry} (dir : DirCluster disk b live link c) (member : e ∈ liveEntries disk b c)
      (alive : live e) (inside : b.inVolume e.start = true) : Led disk b live link e.start
  | next {c v : Nat} (led : Led disk b live link c) (linked : link c v) : Led disk b live link v

def isEntry (e : RawEntry) : Prop := e.isNone = false ∧ e.isDotName = false

def isWalked (e : RawEntry) : Prop := e.isNone = false ∧ e.startsWithDot = false

variable {live : RawEntry → Prop} {link wider : Nat → Nat → Prop}

theorem DirCluster.mono (dir : DirCluster disk b live link c) (more : ∀ c v, link c v → wider c v) :
    DirCluster disk b live wider c := by
  induction dir with
  | root inside => exact .root inside
  | next dir goesOn linked ih => exact .next ih goesOn (more _ _ linked)
  | sub dir member alive isDir inside ih => exact .sub ih member alive isDir inside

theorem Led.mono (led : Led disk b live link c) (more : ∀ c v, link c v → wider c v) :
    Led disk b live wider c := by
  induction led with
  | root inside => exact .root inside
  | start dir member alive inside => exact .start (dir.mono more) member alive inside
  | next led linked ih => exact .next ih (more _ _ linked)

theorem mem_liveEntries (all : done ++ e :: rest = entriesOf disk b c)
    (before : ∀ x ∈ done, x.isEnd = false) (here : e.isEnd = false) : e ∈ liveEntries disk b c := by
  unfold liveEntries
  rw [← all, List.takeWhile_append_of_pos]
  · rw [List.takeWhile_cons_of_pos (by rw [here]; rfl)]
    exact List.mem_append_right done List.mem_cons_self
  · intro x member
    rw [before x member]
    rfl

theorem liveEntries_of_end (all : done ++ e :: rest = entriesOf disk b c)
    (before : ∀ x ∈ done, x.isEnd = false) (here : e.isEnd = true) :
    liveEntries disk b c = done := by
  unfold liveEntries
  rw [← all, List.takeWhile_append_of_pos]
  · rw [List.takeWhile_cons_of_neg (by rw [here]; simp), List.append_nil]
  · intro x member
    rw [before x member]
    rfl

theorem liveEntries_of_all (before : ∀ x ∈ entriesOf disk b c, x.isEnd = false) :
    liveEntries disk b c = entriesOf disk b c := by
  refine List.takeWhile_eq_self_iff.mpr fun x member => ?_
  rw [before x member]
  rfl

theorem inVolume_iff : b.inVolume c = true ↔ 2 ≤ c ∧ c < b.limit := by
  unfold Bpb.inVolume
  rw [Bool.and_eq_true, decide_eq_true_eq, decide_eq_true_eq]

theorem limit_le : b.limit ≤ b.nclusters + 2 := Nat.mod_le _ _

theorem Bpb.Accepted.small (accepted : b.Accepted) : b.limit ≤ 16777216 := by
  have memory := accepted.memory
  have fits := accepted.fits
  omega

theorem inVolume_next (accepted : b.Accepted) (inside : b.inVolume v = true) :
    isEoc v = false ∧ v ≠ 0 ∧ v ≠ badCluster := by
  have bounds := inVolume_iff.mp inside
  have small := accepted.small
  refine ⟨decide_eq_false ?_, ?_, ?_⟩
  · omega
  · omega
  · unfold badCluster
    omega

def Marks.free (b : Bpb) (m : Marks) : Finset Nat :=
  (Finset.range b.limit).filter fun c => 2 ≤ c ∧ m.owned c = false

theorem free_card_le : (m.free b).card ≤ b.nclusters := by
  have part : m.free b ⊆ Finset.Ico 2 b.limit := by
    intro c member
    obtain ⟨less, two, -⟩ := Finset.mem_filter.mp member
    exact Finset.mem_Ico.mpr ⟨two, Finset.mem_range.mp less⟩
  have bound := Finset.card_le_card part
  have limit := @limit_le b
  rw [Nat.card_Ico] at bound
  omega

theorem free_mark {other : Marks} (inside : b.inVolume c = true) (fresh : m.owned c = false)
    (isMark : other.owned = update m.owned c true) : (other.free b).card + 1 = (m.free b).card := by
  have bounds := inVolume_iff.mp inside
  have member : c ∈ m.free b :=
    Finset.mem_filter.mpr ⟨Finset.mem_range.mpr bounds.2, bounds.1, fresh⟩
  have same : other.free b = (m.free b).erase c := by
    ext x
    unfold Marks.free
    rw [Finset.mem_erase, Finset.mem_filter, Finset.mem_filter, isMark]
    by_cases isSelf : x = c
    · rw [isSelf, Function.update_self]
      simp
    · simp [isSelf]
  rw [same, Finset.card_erase_of_mem member]
  have some : 0 < (m.free b).card := Finset.card_pos.mpr ⟨c, member⟩
  omega

def OwnLink (disk : Disk) (b : Bpb) (m : Marks) (c v : Nat) : Prop :=
  m.owned c = true ∧ Link disk b c v

/-- What a walk from `c` makes of the marks. -/
structure Walked (disk : Disk) (b : Bpb) (m : Marks) (c : Nat) (after : Marks) : Prop where
  keeps : ∀ x, m.owned x = true → after.owned x = true
  start : b.inVolume c = true → after.owned c = true
  closes : ∀ x v, after.owned x = true → m.owned x = false → Link disk b x v → after.owned v = true
  only : ∀ x, after.owned x = true →
    m.owned x = true ∨ (b.inVolume c = true ∧ Relation.ReflTransGen (OwnLink disk b after) c x)
  inside : (∀ x, m.owned x = true → b.inVolume x = true) → ∀ x, after.owned x = true →
    b.inVolume x = true
  touches : (∀ i ∈ m.touched, i < b.limit) → ∀ i ∈ after.touched, i < b.limit

theorem Walked.stop {crossLinked chainErrors : Nat} {touched : List Nat}
    (start : b.inVolume c = true → m.owned c = true)
    (touches : (∀ i ∈ m.touched, i < b.limit) → ∀ i ∈ touched, i < b.limit) :
    Walked disk b m c ⟨m.owned, crossLinked, chainErrors, touched⟩ where
  keeps := fun _ owned => owned
  start := start
  closes := fun x v owned fresh => by
    rw [owned] at fresh
    cases fresh
  only := fun _ owned => Or.inl owned
  inside := fun inside => inside
  touches := touches

theorem Walked.last {chainErrors : Nat} (inside : b.inVolume c = true)
    (ends : ∀ v, ¬ Link disk b c v) :
    Walked disk b m c ⟨update m.owned c true, m.crossLinked, chainErrors, c :: c :: m.touched⟩ where
  keeps := by
    intro x owned
    change update m.owned c true x = true
    by_cases same : x = c
    · rw [same, update_self]
    · rw [update_of_ne same]
      exact owned
  start := fun _ => update_self _ _ _
  closes := by
    intro x v owned fresh linked
    change update m.owned c true x = true at owned
    by_cases same : x = c
    · rw [same] at linked
      exact absurd linked (ends v)
    · rw [update_of_ne same, fresh] at owned
      cases owned
  only := by
    intro x owned
    change update m.owned c true x = true at owned
    by_cases same : x = c
    · rw [same]
      exact Or.inr ⟨inside, .refl⟩
    · rw [update_of_ne same] at owned
      exact Or.inl owned
  inside := by
    intro before x owned
    change update m.owned c true x = true at owned
    by_cases same : x = c
    · rw [same]
      exact inside
    · rw [update_of_ne same] at owned
      exact before x owned
  touches := by
    intro before i member
    have less := (inVolume_iff.mp inside).2
    rcases List.mem_cons.mp member with rfl | member
    · exact less
    · rcases List.mem_cons.mp member with rfl | member
      · exact less
      · exact before i member

theorem Walked.goOn {after : Marks} (inside : b.inVolume c = true)
    (rest : Walked disk b ⟨update m.owned c true, m.crossLinked, m.chainErrors, c :: c :: m.touched⟩
      (nextOf disk b c) after) : Walked disk b m c after where
  keeps := fun x owned => by
    refine rest.keeps x ?_
    change update m.owned c true x = true
    by_cases same : x = c
    · rw [same, update_self]
    · rw [update_of_ne same]
      exact owned
  start := fun _ => rest.keeps c (update_self _ _ _)
  closes := by
    intro x v owned fresh linked
    by_cases same : x = c
    · rw [same] at linked
      rw [← linked.2.2]
      refine rest.start ?_
      rw [linked.2.2]
      exact linked.2.1
    · refine rest.closes x v owned ?_ linked
      change Function.update m.owned c true x = false
      rw [Function.update_of_ne same]
      exact fresh
  only := by
    intro x owned
    have self : after.owned c = true := rest.keeps c (update_self _ _ _)
    rcases rest.only x owned with before | ⟨nextInside, path⟩
    · change update m.owned c true x = true at before
      by_cases same : x = c
      · rw [same]
        exact Or.inr ⟨inside, .refl⟩
      · rw [Function.update_of_ne same] at before
        exact Or.inl before
    · exact Or.inr ⟨inside, .head ⟨self, inside, nextInside, rfl⟩ path⟩
  inside := by
    intro before
    refine rest.inside fun x owned => ?_
    change update m.owned c true x = true at owned
    by_cases same : x = c
    · rw [same]
      exact inside
    · rw [update_of_ne same] at owned
      exact before x owned
  touches := by
    intro before
    have less := (inVolume_iff.mp inside).2
    refine rest.touches fun i member => ?_
    rcases List.mem_cons.mp member with rfl | member
    · exact less
    · rcases List.mem_cons.mp member with rfl | member
      · exact less
      · exact before i member

theorem walkChain_walked (accepted : b.Accepted) (enough : (m.free b).card < fuel)
    (count : n + (m.free b).card ≤ b.nclusters) :
    Walked disk b m c (walkChain disk b fuel m c n).1 := by
  induction fuel generalizing m c n with
  | zero => exact absurd enough (Nat.not_lt_zero _)
  | succ fuel ih =>
    unfold walkChain
    by_cases inside : b.inVolume c = true
    · rw [if_pos inside]
      have less := (inVolume_iff.mp inside).2
      by_cases owned : m.owned c = true
      · rw [if_pos owned]
        refine .stop (fun _ => owned) fun before i member => ?_
        rcases List.mem_cons.mp member with rfl | member
        · exact less
        · exact before i member
      · rw [if_neg owned]
        have fresh : m.owned c = false := Bool.eq_false_iff.mpr owned
        have fewer := @free_mark b c m ⟨update m.owned c true, m.crossLinked, m.chainErrors,
          c :: c :: m.touched⟩ inside fresh rfl
        by_cases eoc : isEoc (nextOf disk b c) = true
        · rw [if_pos eoc]
          refine .last inside fun v linked => ?_
          rw [linked.2.2, (inVolume_next accepted linked.2.1).1] at eoc
          cases eoc
        · rw [if_neg eoc]
          by_cases bad : nextOf disk b c = 0 ∨ nextOf disk b c = badCluster
          · rw [if_pos bad]
            refine .last inside fun v linked => ?_
            rw [linked.2.2] at bad
            exact bad.elim (inVolume_next accepted linked.2.1).2.1 (inVolume_next accepted linked.2.1).2.2
          · rw [if_neg bad, if_neg (by omega)]
            refine .goOn inside (ih ?_ ?_)
            · omega
            · omega
    · rw [if_neg inside]
      exact .stop (fun wrong => absurd wrong inside) fun before => before

theorem walkChain_fuel (extra : Nat) (enough : (m.free b).card < fuel) :
    walkChain disk b (fuel + extra) m c n = walkChain disk b fuel m c n := by
  induction fuel generalizing m c n with
  | zero => exact absurd enough (Nat.not_lt_zero _)
  | succ fuel ih =>
    rw [Nat.succ_add]
    unfold walkChain
    by_cases inside : b.inVolume c = true
    · by_cases owned : m.owned c = true
      · rw [if_pos owned, if_pos owned]
      · have fewer := @free_mark b c m ⟨update m.owned c true, m.crossLinked, m.chainErrors,
          c :: c :: m.touched⟩ inside (Bool.eq_false_iff.mpr owned) rfl
        dsimp only
        rw [ih (by omega)]
    · rw [if_neg inside, if_neg inside]

theorem walkChain_start (accepted : b.Accepted) :
    Walked disk b m c (walkChain disk b (b.nclusters + 1) m c 0).1 := by
  have bound := @free_card_le b m
  exact walkChain_walked accepted (by omega) (by omega)

/-- The clusters that belong to the directory that starts at `d`. -/
inductive OnDir (disk : Disk) (b : Bpb) (d : Nat) : Nat → Prop
  | start (inside : b.inVolume d = true) : OnDir disk b d d
  | next {c v : Nat} (on : OnDir disk b d c) (goesOn : ¬ HasEnd disk b c)
    (linked : Link disk b c v) : OnDir disk b d v

/-- The cluster `i` links after `d`. -/
def chainAt (disk : Disk) (b : Bpb) (d i : Nat) : Nat := (nextOf disk b)^[i] d

theorem chainAt_succ (i : Nat) : chainAt disk b d (i + 1) = nextOf disk b (chainAt disk b d i) :=
  Function.iterate_succ_apply' _ _ _

theorem OnDir.index (on : OnDir disk b d c) : ∃ i, c = chainAt disk b d i := by
  induction on with
  | start inside => exact ⟨0, rfl⟩
  | next on goesOn linked ih =>
    obtain ⟨i, rfl⟩ := ih
    exact ⟨i + 1, by rw [chainAt_succ, linked.2.2]⟩

theorem OnDir.index_le (on : OnDir disk b d c)
    (stops : HasEnd disk b (chainAt disk b d g) ∨ b.inVolume (chainAt disk b d (g + 1)) = false) :
    ∃ i, i ≤ g ∧ c = chainAt disk b d i := by
  induction on with
  | start inside => exact ⟨0, Nat.zero_le g, rfl⟩
  | next on goesOn linked ih =>
    obtain ⟨i, upTo, rfl⟩ := ih
    have isNext : chainAt disk b d (i + 1) = _ := (chainAt_succ i).trans linked.2.2
    rcases Nat.lt_or_eq_of_le upTo with less | rfl
    · exact ⟨i + 1, less, isNext.symm⟩
    · rcases stops with ends | out
      · exact absurd ends goesOn
      · rw [isNext, linked.2.1] at out
        cases out

theorem chainAt_cycle (inside : ∀ i, i ≤ b.nclusters → b.inVolume (chainAt disk b d i) = true)
    (k : Nat) : ∃ i, i ≤ b.nclusters ∧ chainAt disk b d k = chainAt disk b d i := by
  have maps : ∀ i ∈ Finset.range (b.nclusters + 1), chainAt disk b d i ∈ Finset.Ico 2 b.limit := by
    intro i member
    have bounds := inVolume_iff.mp (inside i (Nat.lt_succ_iff.mp (Finset.mem_range.mp member)))
    exact Finset.mem_Ico.mpr bounds
  have fewer : (Finset.Ico 2 b.limit).card < (Finset.range (b.nclusters + 1)).card := by
    have limit := @limit_le b
    rw [Nat.card_Ico, Finset.card_range]
    omega
  obtain ⟨i, iIn, j, jIn, differ, same⟩ := Finset.exists_ne_map_eq_of_card_lt_of_maps_to fewer maps
  have cycle : ∀ i j, i < j → j ≤ b.nclusters → chainAt disk b d i = chainAt disk b d j →
      ∃ x, x ≤ b.nclusters ∧ chainAt disk b d k = chainAt disk b d x := by
    intro i j less bound same
    have shift : ∀ t, chainAt disk b d (i + t) = chainAt disk b d (j + t) := by
      intro t
      induction t with
      | zero => exact same
      | succ t ih => rw [← Nat.add_assoc, ← Nat.add_assoc, chainAt_succ, chainAt_succ, ih]
    induction k using Nat.strongRecOn with
    | _ k ih =>
      by_cases early : k ≤ b.nclusters
      · exact ⟨k, early, rfl⟩
      · have back := shift (k - j)
        rw [show j + (k - j) = k by omega] at back
        obtain ⟨x, bound, isX⟩ := ih (i + (k - j)) (by omega)
        exact ⟨x, bound, back.symm.trans isX⟩
  have iBound := Nat.lt_succ_iff.mp (Finset.mem_range.mp iIn)
  have jBound := Nat.lt_succ_iff.mp (Finset.mem_range.mp jIn)
  rcases Nat.lt_or_gt_of_ne differ with less | more
  · exact cycle i j less jBound same
  · exact cycle j i more iBound same.symm

end Cos.Fs
