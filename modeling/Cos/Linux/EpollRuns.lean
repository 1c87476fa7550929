import Cos.Linux.Epoll
import Mathlib

/-! # Runs of epoll

An edge-triggered watch tells what is new by a version of the description.  It loses nothing while
every write moves the version, and it tells of the description that was added while the descriptor
has no other one.
-/

namespace Cos.Epoll

open Cos.Lib Cos.Linux
open Function (update update_of_ne update_self update_apply)

variable {s s' : WaitState} {w : Watch} {e o q fd n : Nat} {hit : Nat → Bool}

def OfdKind.uses (kind : OfdKind) (q : Nat) : Prop :=
  match kind with
  | .pipeR p => q = p
  | .pipeW p => q = p
  | .upair r p => q = r ∨ q = p
  | _ => False

/-- A watch of its own description, that has seen no version but the present one or an older one. -/
structure WatchSound (s : WaitState) (w : Watch) : Prop where
  target : w.target < s.nofd
  slot : s.slot w.fd = none ∨ s.slot w.fd = some w.target
  seen : (s.ofd w.target).kind ≠ .none → w.lastver ≤ s.version w.target
  news : (s.ofd w.target).kind ≠ .none → w.isEdge → w.fresh = true →
    w.last.getLsbD 0 = false ∨ w.lastver < s.version w.target

structure WaitSound (s : WaitState) : Prop where
  slots : ∀ fd o, s.slot fd = some o → o < s.nofd
  pipes : ∀ o < s.nofd, ∀ q, (s.ofd o).kind.uses q → q < s.npipe
  wide : ∀ q < s.npipe, (s.pipe q).wtotal + 1 < 2 ^ 64
  watches : ∀ e < s.nofd, ∀ w ∈ (s.ofd e).ep, WatchSound s w

structure PipeGrows (p p' : UPipe) : Prop where
  wtotal : p.wtotal ≤ p'.wtotal
  writers : p.writers ≤ 0 → p'.writers ≤ 0
  wide : p'.wtotal + 1 < 2 ^ 64

/-- What any step does to the descriptions and pipes that are there: kinds stay until the
description is gone, versions only grow. -/
structure Evolves (s s' : WaitState) : Prop where
  nofd : s.nofd ≤ s'.nofd
  npipe : s.npipe ≤ s'.npipe
  kind : ∀ o < s.nofd, (s'.ofd o).kind = (s.ofd o).kind ∨ (s'.ofd o).kind = .none
  ver : ∀ o < s.nofd, (s.ofd o).ver ≤ (s'.ofd o).ver
  pipe : ∀ q < s.npipe, PipeGrows (s.pipe q) (s'.pipe q)

theorem pipeVersion_eq {p : UPipe} (wide : p.wtotal + 1 < 2 ^ 64) :
    add64 p.wtotal (if p.writers ≤ 0 then 1 else 0) = p.wtotal + if p.writers ≤ 0 then 1
    else 0 := by
  rw [add64, Nat.mod_eq_of_lt]
  split <;> omega

theorem PipeGrows.version {p p' : UPipe} (grows : PipeGrows p p') :
    add64 p.wtotal (if p.writers ≤ 0 then 1 else 0) ≤
    add64 p'.wtotal (if p'.writers ≤ 0 then 1 else 0) := by
  have more := grows.wtotal
  have wide := grows.wide
  rw [pipeVersion_eq (by omega), pipeVersion_eq wide]
  by_cases none : p.writers ≤ 0
  · rw [if_pos none, if_pos (grows.writers none)]
    omega
  · rw [if_neg none]
    omega

theorem Evolves.version (evolves : Evolves s s') (sound : WaitSound s) (inside : o < s.nofd)
    (alive : (s'.ofd o).kind ≠ .none) : s.version o ≤ s'.version o := by
  obtain same | gone := evolves.kind o inside
  · have pipes := sound.pipes o inside
    rw [WaitState.version, WaitState.version, same]
    cases isKind : (s.ofd o).kind with
    | pipeR q => exact (evolves.pipe q (pipes q (by rw [isKind]; rfl))).version
    | upair q q2 => exact (evolves.pipe q (pipes q (by rw [isKind]; exact Or.inl rfl))).version
    | event => exact evolves.ver o inside
    | none => exact Nat.le_refl _
    | pipeW q => exact Nat.le_refl _
    | epoll => exact Nat.le_refl _
  · exact absurd gone alive

theorem WatchSound.evolve (watch : WatchSound s w) (sound : WaitSound s) (evolves : Evolves s s')
    (slot : s'.slot w.fd = s.slot w.fd ∨ s'.slot w.fd = none ∨ s'.slot w.fd = some w.target) :
    WatchSound s' w := by
  have alive : (s'.ofd w.target).kind ≠ .none → (s.ofd w.target).kind ≠ .none := by
    intro alive gone
    obtain same | now := evolves.kind w.target watch.target
    · exact alive (same.trans gone)
    · exact alive now
  refine ⟨Nat.lt_of_lt_of_le watch.target evolves.nofd, ?_, fun isAlive => ?_,
    fun isAlive edge fresh => ?_⟩
  · obtain same | slot := slot
    · rw [same]
      exact watch.slot
    · exact slot
  · exact Nat.le_trans (watch.seen (alive isAlive)) (evolves.version sound watch.target isAlive)
  · obtain low | older := watch.news (alive isAlive) edge fresh
    · exact .inl low
    · exact .inr (Nat.lt_of_lt_of_le older (evolves.version sound watch.target isAlive))

theorem WaitSound.evolve (sound : WaitSound s) (evolves : Evolves s s')
    (slots : ∀ fd o, s'.slot fd = some o → o < s'.nofd)
    (pipes : ∀ o < s'.nofd, ∀ q, (s'.ofd o).kind.uses q → q < s'.npipe)
    (wide : ∀ q < s'.npipe, (s'.pipe q).wtotal + 1 < 2 ^ 64)
    (kept : ∀ e < s'.nofd, ∀ w ∈ (s'.ofd e).ep, ∃ e < s.nofd, w ∈ (s.ofd e).ep) (stays : ∀ e < s.nofd, ∀ w ∈ (s.ofd e).ep,
      s'.slot w.fd = s.slot w.fd ∨ s'.slot w.fd = none ∨ s'.slot w.fd = some w.target) : WaitSound s' := by
  refine ⟨slots, pipes, wide, fun e inside w member => ?_⟩
  obtain ⟨before, isBefore, wasMember⟩ := kept e inside w member
  exact (sound.watches before isBefore w wasMember).evolve sound evolves
    (stays before isBefore w wasMember)

def Watched (s : WaitState) (w : Watch) : Prop := ∃ e < s.nofd, w ∈ (s.ofd e).ep

def NotStale (s : WaitState) (fd o : Nat) : Prop := ∀ w, Watched s w → w.fd = fd → w.target = o

structure Keeps (s s' : WaitState) : Prop where
  sound : WaitSound s'
  watched : ∀ w, Watched s' w → Watched s w

theorem Keeps.trans {s'' : WaitState} (first : Keeps s s') (second : Keeps s' s'') : Keeps s s'' :=
  ⟨second.sound, fun w member => first.watched w (second.watched w member)⟩

theorem NotStale.keeps (right : NotStale s fd o) (keeps : Keeps s s') :
    NotStale s' fd o := fun w member isFd =>
  right w (keeps.watched w member) isFd

theorem WaitSound.keeps (sound : WaitSound s) (evolves : Evolves s s')
    (slots : ∀ fd o, s'.slot fd = some o → o < s'.nofd)
    (pipes : ∀ o < s'.nofd, ∀ q, (s'.ofd o).kind.uses q → q < s'.npipe)
    (wide : ∀ q < s'.npipe, (s'.pipe q).wtotal + 1 < 2 ^ 64)
    (watched : ∀ w, Watched s' w → Watched s w)
    (stays : ∀ w, Watched s w → s'.slot w.fd = s.slot w.fd ∨ s'.slot w.fd = none ∨
    s'.slot w.fd = some w.target) : Keeps s s' :=
  ⟨sound.evolve evolves slots pipes wide (fun e inside w member => watched w ⟨e, inside, member⟩)
    (fun e inside w member => stays w ⟨e, inside, member⟩), watched⟩

theorem PipeGrows.refl (sound : WaitSound s) (inside : q < s.npipe) :
    PipeGrows (s.pipe q) (s.pipe q) :=
  ⟨Nat.le_refl _, id, sound.wide q inside⟩

theorem WaitSound.evolves (sound : WaitSound s) : Evolves s s :=
  ⟨Nat.le_refl _, Nat.le_refl _, fun _ _ => .inl rfl, fun _ _ => Nat.le_refl _,
    fun _ inside => PipeGrows.refl sound inside⟩

theorem WaitSound.setSlot (sound : WaitSound s) {next : Option Nat}
    (inside : ∀ o, next = some o → o < s.nofd) (right : ∀ o, next = some o → NotStale s fd o) :
    Keeps s (s.setSlot fd next) := by
  have isSlot : ∀ other, (s.setSlot fd next).slot other = if other = fd
    then next else s.slot other := fun other =>
    update_apply s.slot fd next other
  have evolves := sound.evolves
  refine sound.keeps ⟨evolves.nofd, evolves.npipe, evolves.kind, evolves.ver, evolves.pipe⟩
    (fun other o taken => ?_) sound.pipes sound.wide (fun _ => id) fun w member => ?_
  · rw [isSlot] at taken
    split at taken
    · exact inside o taken
    · exact sound.slots other o taken
  · rw [isSlot]
    split
    · rename_i isFd
      cases isNext : next with
      | none => exact .inr (.inl rfl)
      | some o =>
          rw [right o isNext w member isFd]
          exact .inr (.inr rfl)
    · exact .inl rfl

theorem WaitSound.setPipe (sound : WaitSound s) {p : UPipe} (grows : PipeGrows (s.pipe q) p) :
    Keeps s (s.setPipe q p) := by
  have evolves := sound.evolves
  have each : ∀ other < s.npipe, PipeGrows (s.pipe other) ((s.setPipe q p).pipe other) := by
    intro other inside
    by_cases isPipe : other = q
    · subst isPipe
      change PipeGrows _ (update s.pipe other p other)
      rw [update_self]
      exact grows
    · change PipeGrows _ (update s.pipe q p other)
      rw [update_of_ne isPipe]
      exact PipeGrows.refl sound inside
  exact sound.keeps ⟨evolves.nofd, evolves.npipe, evolves.kind, evolves.ver, each⟩ sound.slots
    sound.pipes (fun other inside => (each other inside).wide) (fun _ => id) fun _ _ => .inl rfl

theorem WaitSound.setOfd (sound : WaitSound s) {d : WaitOfd}
    (kind : d.kind = (s.ofd o).kind ∨ d.kind = .none) (ver : (s.ofd o).ver ≤ d.ver)
    (list : d.ep = (s.ofd o).ep ∨ d.ep = []) : Keeps s (s.setOfd o d) := by
  have evolves := sound.evolves
  have isOfd : ∀ other, (s.setOfd o d).ofd other = if other = o then d
    else s.ofd other := fun other =>
    update_apply s.ofd o d other
  refine sound.keeps ⟨evolves.nofd, evolves.npipe, fun other inside => ?_, fun other inside => ?_,
    evolves.pipe⟩ sound.slots
    (fun other inside p uses => ?_) sound.wide (fun w => ?_) fun _ _ => .inl rfl
  · rw [isOfd]
    split
    · rename_i same
      exact same ▸ kind
    · exact .inl rfl
  · rw [isOfd]
    split
    · rename_i same
      exact same ▸ ver
    · exact Nat.le_refl _
  · rw [isOfd] at uses
    split at uses
    · rename_i same
      obtain isKind | gone := kind
      · exact sound.pipes other inside p (by rw [same, ← isKind]; exact uses)
      · rw [gone] at uses
        exact uses.elim
    · exact sound.pipes other inside p uses
  · rintro ⟨e, inside, member⟩
    rw [isOfd] at member
    split at member
    · rename_i same
      obtain sameList | empty := list
      · exact ⟨o, same ▸ inside, sameList ▸ member⟩
      · rw [empty] at member
        cases member
    · exact ⟨e, inside, member⟩

theorem WaitSound.pipeNew (sound : WaitSound s) (packet : Bool) : Keeps s (s.pipeNew packet) := by
  have isPipe : ∀ other, (s.pipeNew packet).pipe other = if other = s.npipe
    then Linux.pipeNew packet else s.pipe other :=
    fun other => update_apply s.pipe s.npipe (Linux.pipeNew packet) other
  have evolves := sound.evolves
  refine sound.keeps ⟨evolves.nofd, Nat.le_succ _, evolves.kind, evolves.ver,
    fun other inside => ?_⟩ sound.slots
    (fun other inside p uses => Nat.lt_succ_of_lt (sound.pipes other inside p uses))
    (fun other inside => ?_) (fun _ => id) fun _ _ => .inl rfl
  · rw [isPipe, if_neg (Nat.ne_of_lt inside)]
    exact PipeGrows.refl sound inside
  · rw [isPipe]
    split
    · exact (by decide : 0 + 1 < 2 ^ 64)
    · rename_i notNew
      exact sound.wide other (Nat.lt_of_le_of_ne (Nat.lt_succ_iff.mp inside) notNew)

theorem WaitSound.install (sound : WaitSound s) {d : WaitOfd}
    (uses : ∀ q, d.kind.uses q → q < s.npipe) (fresh : d.ep = []) (right : NotStale s fd s.nofd) :
    Keeps s (s.install fd d) := by
  have isOfd : ∀ other, (s.install fd d).ofd other = if other = s.nofd then d
    else s.ofd other := fun other =>
    update_apply s.ofd s.nofd d other
  have isSlot : ∀ other, (s.install fd d).slot other = if other = fd then some s.nofd
    else s.slot other := fun other =>
    update_apply s.slot fd (some s.nofd) other
  have old : ∀ other < s.nofd, (s.install fd d).ofd other = s.ofd other := by
    intro other inside
    rw [isOfd, if_neg (Nat.ne_of_lt inside)]
  have evolves := sound.evolves
  refine sound.keeps ⟨Nat.le_succ _, evolves.npipe, fun other inside => ?_, fun other inside => ?_,
    evolves.pipe⟩
    (fun other o taken => ?_) (fun other inside p isUsed => ?_) sound.wide (fun w => ?_)
    fun w member => ?_
  · rw [old other inside]
    exact .inl rfl
  · rw [old other inside]
  · rw [isSlot] at taken
    split at taken
    · rw [← Option.some.inj taken]
      exact Nat.lt_succ_self _
    · exact Nat.lt_succ_of_lt (sound.slots other o taken)
  · rw [isOfd] at isUsed
    split at isUsed
    · exact uses p isUsed
    · rename_i notNew
      exact sound.pipes other (Nat.lt_of_le_of_ne (Nat.lt_succ_iff.mp inside) notNew) p isUsed
  · rintro ⟨e, inside, member⟩
    rw [isOfd] at member
    split at member
    · rw [fresh] at member
      cases member
    · rename_i notNew
      exact ⟨e, Nat.lt_of_le_of_ne (Nat.lt_succ_iff.mp inside) notNew, member⟩
  · rw [isSlot]
    split
    · rename_i isFd
      rw [right w member isFd]
      exact .inr (.inr rfl)
    · exact .inl rfl

theorem Keeps.refl (sound : WaitSound s) : Keeps s s := ⟨sound, fun _ => id⟩

theorem leavePipe_keeps (sound : WaitSound s) {leave : UPipe → UPipe} (inside : q < s.npipe)
    (leaves : ∀ p, (leave p).wtotal = p.wtotal ∧ (leave p).writers ≤ p.writers) :
    Keeps s (leavePipe q leave s) := by
  refine sound.setPipe ?_
  have wide := sound.wide q inside
  obtain ⟨sameTotal, fewer⟩ := leaves (s.pipe q)
  split
  · refine ⟨Nat.le_of_eq sameTotal.symm, fun _ => Int.le_refl 0, ?_⟩
    change (leave (s.pipe q)).wtotal + 1 < 2 ^ 64
    rw [sameTotal]
    exact wide
  · exact ⟨Nat.le_of_eq sameTotal.symm, fun none => Int.le_trans fewer none, sameTotal ▸ wide⟩

theorem leaveReader_leaves (p : UPipe) :
    (leaveReader p).wtotal = p.wtotal ∧ (leaveReader p).writers ≤ p.writers :=
  ⟨rfl, Int.le_refl _⟩

theorem leaveWriter_leaves (p : UPipe) :
    (leaveWriter p).wtotal = p.wtotal ∧ (leaveWriter p).writers ≤ p.writers :=
  ⟨rfl, by rw [leaveWriter]; dsimp only; omega⟩

theorem ofdUnref_keeps (sound : WaitSound s) (inside : o < s.nofd) : Keeps s (ofdUnref o s) := by
  have counted := @WaitSound.setOfd s o sound { s.ofd o with ref := (s.ofd o).ref - 1 } (.inl rfl)
    (Nat.le_refl _) (.inl rfl)
  have same : (s.setOfd o { s.ofd o with ref := (s.ofd o).ref - 1 }).ofd o =
    { s.ofd o with ref := (s.ofd o).ref - 1 } :=
    update_self _ _ _
  rw [ofdUnref]
  split
  · exact Keeps.refl sound
  · dsimp only
    obtain ⟨s₁, isCounted⟩ : ∃ s₁, s.setOfd o { s.ofd o with ref := (s.ofd o).ref - 1 } = s₁ := ⟨_, rfl⟩
    have isNpipe : s₁.npipe = s.npipe := by rw [← isCounted]; rfl
    rw [isCounted] at counted same ⊢
    split
    · exact counted
    · have pipes := sound.pipes o inside
      have isKind : (s₁.ofd o).kind = (s.ofd o).kind := by rw [same]
      have left : Keeps s (match (s₁.ofd o).kind with
          | .pipeR q => leavePipe q leaveReader s₁
          | .pipeW q => leavePipe q leaveWriter s₁
          | .upair r w => leavePipe w leaveWriter (leavePipe r leaveReader s₁)
          | _ => s₁) := by
        rw [isKind]
        cases kind : (s.ofd o).kind with
        | pipeR q =>
            rw [kind] at pipes
            exact counted.trans (leavePipe_keeps counted.sound (isNpipe ▸ pipes q rfl) leaveReader_leaves)
        | pipeW q =>
            rw [kind] at pipes
            exact counted.trans (leavePipe_keeps counted.sound (isNpipe ▸ pipes q rfl) leaveWriter_leaves)
        | upair r q =>
            rw [kind] at pipes
            have first := leavePipe_keeps counted.sound (isNpipe ▸ pipes r (Or.inl rfl)) leaveReader_leaves
            have second := @leavePipe_keeps _ q first.sound leaveWriter (isNpipe ▸ pipes q (Or.inr rfl)) leaveWriter_leaves
            exact counted.trans (first.trans second)
        | none => exact counted
        | event => exact counted
        | epoll => exact counted
      exact left.trans (left.sound.setOfd (.inr rfl) (Nat.le_refl _) (.inr rfl))

theorem find_slot (found : s.find fd = some o) : s.slot fd = some o := by
  rw [WaitState.find] at found
  split at found
  · exact found
  · cases found

theorem WaitSound.find (sound : WaitSound s) (found : s.find fd = some o) : o < s.nofd :=
  sound.slots fd o (find_slot found)

theorem fdCloseSlot_keeps (sound : WaitSound s) : Keeps s (fdCloseSlot fd s) := by
  rw [fdCloseSlot]
  split
  · exact Keeps.refl sound
  · rename_i o found
    have released := ofdUnref_keeps sound (sound.find found)
    exact released.trans (released.sound.setSlot (fun _ same => (nomatch same)) fun _ same => (nomatch same))

theorem shareSlot_keeps (sound : WaitSound s) (inside : o < s.nofd) (right : NotStale s fd o) :
    Keeps s (shareSlot fd o s) := by
  have shared : Keeps s (s.setSlot fd (some o)) :=
    sound.setSlot (fun _ same => Option.some.inj same ▸ inside) fun _ same => Option.some.inj same ▸ right
  exact shared.trans (shared.sound.setOfd (.inl rfl) (Nat.le_refl _) (.inl rfl))

theorem ofdUnref_nofd (o : Nat) (s : WaitState) : (ofdUnref o s).nofd = s.nofd := by
  rw [ofdUnref]
  split
  · rfl
  · dsimp only
    split
    · rfl
    · cases ((s.setOfd o { s.ofd o with ref := (s.ofd o).ref - 1 }).ofd o).kind <;> rfl

theorem fdCloseSlot_nofd (fd : Nat) (s : WaitState) : (fdCloseSlot fd s).nofd = s.nofd := by
  rw [fdCloseSlot]
  split
  · rfl
  · exact ofdUnref_nofd _ _

theorem ofdRead_keeps (sound : WaitSound s) (inside : o < s.nofd) : Keeps s (ofdRead o n s) := by
  have pipes := sound.pipes o inside
  rw [ofdRead]
  cases kind : (s.ofd o).kind with
  | pipeR q =>
      rw [kind] at pipes
      exact sound.setPipe ⟨Nat.le_refl _, id, sound.wide q (pipes q rfl)⟩
  | upair q q2 =>
      rw [kind] at pipes
      refine sound.setPipe ?_
      have wide := sound.wide q (pipes q (Or.inl rfl))
      rw [recvTurn]
      split
      · exact ⟨Nat.le_refl _, id, wide⟩
      · exact ⟨Nat.le_refl _, id, wide⟩
  | event =>
      dsimp only
      split
      · exact Keeps.refl sound
      · exact sound.setOfd (.inl rfl) (Nat.le_refl _) (.inl rfl)
  | none => exact Keeps.refl sound
  | pipeW q => exact Keeps.refl sound
  | epoll => exact Keeps.refl sound

theorem WatchSound.freshen (watch : WatchSound s w)
    (new : (s.ofd w.target).kind ≠ .none → w.isEdge →
    w.last.getLsbD 0 = false ∨
    w.lastver < s.version w.target) : WatchSound s { w with fresh := true } :=
  ⟨watch.target, watch.slot, watch.seen, fun alive edge _ => new alive edge⟩

theorem WaitSound.freshen (sound : WaitSound s) (new : ∀ w, Watched s w → hit w.target = true →
    (s.ofd w.target).kind ≠ .none → w.isEdge →
    w.last.getLsbD 0 = false ∨ w.lastver < s.version w.target) : WaitSound (s.freshen hit) := by
  refine ⟨sound.slots, sound.pipes, sound.wide, fun e inside w member => ?_⟩
  obtain ⟨old, wasMember, isNew⟩ := List.mem_map.mp member
  have watch := sound.watches e inside old wasMember
  have marked : WatchSound s w := by
    rw [← isNew]
    split
    · rename_i isHit
      exact watch.freshen (new old ⟨e, inside, wasMember⟩ isHit)
    · exact watch
  exact ⟨marked.target, marked.slot, marked.seen, marked.news⟩

theorem WaitSound.fillCounted (sound : WaitSound s) (inside : q < s.npipe) {p : UPipe}
    (sameWriters : p.writers = (s.pipe q).writers)
    (counted : (s.pipe q).len < p.len → (s.pipe q).wtotal < p.wtotal ∧ p.wtotal + 1 < 2 ^ 64) :
    WaitSound (s.fillPipe q p) := by
  have wide := sound.wide q inside
  rw [WaitState.fillPipe]
  split
  · rename_i grown
    obtain ⟨more, stillWide⟩ := counted grown
    have filled : Keeps s (s.setPipe q p) :=
      sound.setPipe ⟨Nat.le_of_lt more, fun none => sameWriters ▸ none, stillWide⟩
    refine filled.sound.freshen fun w member isHit alive edge => .inr ?_
    obtain ⟨e, isInside, isMember⟩ := member
    have seen := (sound.watches e isInside w isMember).seen alive
    have isPipe : (s.setPipe q p).pipe q = p := update_self _ _ _
    refine Nat.lt_of_le_of_lt seen ?_
    rw [WaitState.reads] at isHit
    rw [WaitState.version, WaitState.version]
    have sameOfd : (s.setPipe q p).ofd = s.ofd := rfl
    rw [sameOfd]
    have moves : add64 (s.pipe q).wtotal (if (s.pipe q).writers ≤ 0 then 1 else 0) <
        add64 p.wtotal (if p.writers ≤ 0 then 1 else 0) := by
      rw [pipeVersion_eq wide, pipeVersion_eq stillWide, sameWriters]
      omega
    cases kind : (s.ofd w.target).kind with
    | pipeR r =>
        rw [kind] at isHit
        have same : r = q := eq_of_beq isHit
        subst same
        dsimp only
        rw [isPipe]
        exact moves
    | upair r r2 =>
        rw [kind] at isHit
        have same : r = q := eq_of_beq isHit
        subst same
        dsimp only
        rw [isPipe]
        exact moves
    | none => rw [kind] at isHit; cases isHit
    | pipeW r => rw [kind] at isHit; cases isHit
    | event => rw [kind] at isHit; cases isHit
    | epoll => rw [kind] at isHit; cases isHit
  · exact sound

theorem WaitSound.fillSilent (sound : WaitSound s) (inside : q < s.npipe) {p : UPipe}
    (sameWriters : p.writers = (s.pipe q).writers) (sameTotal : p.wtotal = (s.pipe q).wtotal)
    (unseen : (s.pipe q).len < p.len → ∀ w, Watched s w → w.isEdge → s.reads q w.target = true →
    w.last.getLsbD 0 = false) : WaitSound (s.fillPipe q p) := by
  have wide := sound.wide q inside
  rw [WaitState.fillPipe]
  split
  · rename_i grown
    have filled : Keeps s (s.setPipe q p) :=
      sound.setPipe ⟨Nat.le_of_eq sameTotal.symm, fun none => sameWriters ▸ none, sameTotal ▸ wide⟩
    exact filled.sound.freshen fun w member isHit _ edge => .inl (unseen grown w member edge isHit)
  · exact sound

theorem upairFill_counts (data : List UInt8) (p : UPipe) :
    upairFill data p = p ∨ ∃ bytes, bytes.length ≤ data.length + 4 ∧
    upairFill data p = p.put bytes := by
  rw [upairFill]
  split
  · exact .inl rfl
  · rw [sendTurn]
    split
    · rw [packetTurn]
      split
      · exact .inl rfl
      · split
        · exact .inr ⟨headerBytes data.length ++ data, by simp [headerBytes, wordBytes_length]; omega, rfl⟩
        · exact .inl rfl
    · rw [streamTurn]
      split
      · exact .inl rfl
      · split
        · refine .inr ⟨data.take (min data.length (p.cap - p.len)), ?_, rfl⟩
          rw [List.length_take]
          omega
        · exact .inl rfl

/-- The data of a write is counted, or nobody has seen data of the pipe before. -/
def WriteCounted (s : WaitState) (o : Nat) (data : List UInt8) : Prop :=
  match (s.ofd o).kind with
  | .pipeW q => (s.pipe q).len < (pipeFill data (s.pipe q)).len → ∀ e < s.nofd, ∀ w ∈ (s.ofd e).ep, w.isEdge →
      s.reads q w.target = true → w.last.getLsbD 0 = false
  | .upair _ q => (s.pipe q).wtotal + data.length + 5 < 2 ^ 64
  | .event => (s.ofd o).ver + 1 < 2 ^ 64
  | _ => True

theorem WaitSound.ofdWrite {data : List UInt8} (sound : WaitSound s) (inside : o < s.nofd)
    (counted : WriteCounted s o data) : WaitSound (ofdWrite o data s) := by
  have pipes := sound.pipes o inside
  rw [WriteCounted] at counted
  rw [Epoll.ofdWrite]
  cases kind : (s.ofd o).kind with
  | pipeW q =>
      rw [kind] at pipes counted
      refine sound.fillSilent (pipes q rfl) ?_ ?_ fun grown w ⟨e, isInside, member⟩ => counted grown e isInside w member
      all_goals
        rw [pipeFill]
        split <;> rfl
  | upair r q =>
      rw [kind] at pipes counted
      dsimp only at counted ⊢
      obtain same | ⟨bytes, short, isPut⟩ := upairFill_counts data (s.pipe q)
      · rw [same]
        exact sound.fillCounted (pipes q (Or.inr rfl)) rfl fun grown => absurd grown (Nat.lt_irrefl _)
      · rw [isPut]
        refine sound.fillCounted (pipes q (Or.inr rfl)) rfl fun grown => ?_
        have isLen : ((s.pipe q).put bytes).len = (s.pipe q).len + bytes.length := rfl
        have isTotal : ((s.pipe q).put bytes).wtotal = (s.pipe q).wtotal + bytes.length := by
          change add64 (s.pipe q).wtotal bytes.length = _
          rw [add64, Nat.mod_eq_of_lt (by omega)]
        omega
  | event =>
      rw [kind] at counted
      dsimp only at counted ⊢
      split
      · exact sound
      · have isVer : add64 (s.ofd o).ver 1 = (s.ofd o).ver + 1 := Nat.mod_eq_of_lt counted
        obtain ⟨next, isNext⟩ : ∃ next : WaitOfd, { s.ofd o with
          counter := add64 (s.ofd o).counter (wordValue (data.take 8)), ver := add64 (s.ofd o).ver 1 } = next := ⟨_, rfl⟩
        have sameKind : next.kind = .event := by
          rw [← isNext]
          exact kind
        have nextVer : next.ver = (s.ofd o).ver + 1 := by
          rw [← isNext]
          exact isVer
        have sameList : next.ep = (s.ofd o).ep := by rw [← isNext]
        rw [isNext]
        have written := @WaitSound.setOfd s o sound next (.inl (sameKind.trans kind.symm)) (by omega) (.inl sameList)
        refine written.sound.freshen fun w member isHit _ _ => .inr ?_
        have isTarget : w.target = o := eq_of_beq isHit
        obtain ⟨e, isInside, isMember⟩ := written.watched w member
        have seen := (sound.watches e isInside w isMember).seen (by rw [isTarget, kind]; decide)
        rw [isTarget, WaitState.version, kind] at seen
        have isOfd : (s.setOfd o next).ofd o = next := update_self _ _ _
        rw [isTarget, WaitState.version, isOfd, sameKind]
        dsimp only at seen ⊢
        omega
  | none => exact sound
  | pipeR q => exact sound
  | epoll => exact sound

theorem WaitSound.setList (sound : WaitSound s) {list : List Watch}
    (each : ∀ w ∈ list, WatchSound s w) : WaitSound (s.setOfd e { s.ofd e with ep := list }) := by
  have isOfd : ∀ other, (s.setOfd e { s.ofd e with ep := list }).ofd other =
      if other = e then { s.ofd e with ep := list } else s.ofd other := fun other => update_apply s.ofd e _ other
  have sameKind : ∀ other, ((s.setOfd e { s.ofd e with ep := list }).ofd other).kind =
    (s.ofd other).kind := by
    intro other
    rw [isOfd]
    split
    · rename_i same
      rw [same]
    · rfl
  have sameVer : ∀ other, ((s.setOfd e { s.ofd e with ep := list }).ofd other).ver =
    (s.ofd other).ver := by
    intro other
    rw [isOfd]
    split
    · rename_i same
      rw [same]
    · rfl
  have sameVersion : ∀ other, (s.setOfd e { s.ofd e with ep := list }).version other =
    s.version other := by
    intro other
    rw [WaitState.version, WaitState.version, sameKind, sameVer]
    rfl
  have kept : ∀ w, WatchSound s w → WatchSound (s.setOfd e { s.ofd e with ep := list }) w := by
    intro w watch
    refine ⟨watch.target, watch.slot, ?_, ?_⟩
    · rw [sameKind, sameVersion]
      exact watch.seen
    · rw [sameKind, sameVersion]
      exact watch.news
  refine ⟨sound.slots, fun other inside q uses => ?_, sound.wide, fun other inside w member => ?_⟩
  · rw [sameKind] at uses
    exact sound.pipes other inside q uses
  · rw [isOfd] at member
    split at member
    · exact kept w (each w member)
    · exact kept w (sound.watches other inside w member)

theorem pollIn_bit (b : BitVec 32) : (b &&& 0x3FFFFFFF = 0) → b.getLsbD 0 = false := by
  intro none
  have bit := congrArg (fun x => x.getLsbD 0) none
  simpa using bit

theorem WatchSound.tells (watch : WatchSound s w) (edge : w.isEdge) (isIn : w.ev.getLsbD 0 = true)
    (fresh : w.fresh = true) (readable : (s.ready w.target).getLsbD 0 = true) :
    (s.news w w.target).getLsbD 0 = true := by
  have alive : (s.ofd w.target).kind ≠ .none := by
    intro gone
    rw [WaitState.ready, gone] at readable
    simp at readable
  rw [WaitState.news]
  rw [if_neg (fun none => by rw [pollIn_bit _ none] at isIn; cases isIn), if_pos edge]
  obtain low | older := watch.news alive edge fresh
  · have lowBit : w.last[0] = false := by simpa using low
    simp [readable, isIn, lowBit]
  · rw [if_pos (Nat.ne_of_gt older)]
    simp [readable, isIn]

theorem edge_scanned {writable : Bool} {t : Nat} (edge : (s.scanned writable w t).isEdge) :
    w.isEdge := by
  rw [Watch.isEdge, WaitState.scanned] at edge
  split at edge
  · rw [BitVec.and_assoc] at edge
    exact edge
  · exact edge

theorem WatchSound.scanned {writable : Bool} (watch : WatchSound s w)
    (told : writable = true ∨ s.news w w.target = 0) :
    WatchSound s (s.scanned writable w w.target) := by
  refine ⟨watch.target, watch.slot, fun alive => ?_, fun alive edge fresh => ?_⟩
  · rw [WaitState.scanned]
    dsimp only
    split
    · exact Nat.le_refl _
    · exact watch.seen alive
  · have wasEdge := edge_scanned edge
    rw [WaitState.scanned] at fresh ⊢
    rw [Bool.and_eq_true, Bool.not_eq_true'] at fresh
    rw [if_pos wasEdge]
    have untold : (s.news w w.target).getLsbD 0 = false := by
      obtain isWritable | nothing := told
      · rw [isWritable, Bool.true_and] at fresh
        exact fresh.2
      · rw [nothing]
        rfl
    refine .inl ?_
    by_contra isReady
    have bits : (s.ready w.target).getLsbD 0 = true ∧ w.ev.getLsbD 0 = true := by
      simpa [pollErr, pollHup] using isReady
    rw [watch.tells wasEdge bits.2 fresh.1 bits.1] at untold
    cases untold

theorem WatchSound.found (watch : WatchSound s w) (found : s.find w.fd = some o) :
    o = w.target := by
  have isSlot := find_slot found
  obtain none | same := watch.slot
  · rw [none] at isSlot
    cases isSlot
  · rw [same] at isSlot
    exact (Option.some.inj isSlot).symm

theorem scan_reports {writable : Bool} {maxev : Nat} {list : List Watch} (count : Nat)
    (each : ∀ w ∈ list, WatchSound s w) :
    (∀ report ∈ (s.scan writable maxev list count).2, s.find report.1.fd = some report.1.target) ∧
      ∀ w ∈ list, s.find w.fd = some w.target → s.news w w.target ≠ 0 →
        (w, s.news w w.target) ∈ (s.scan writable maxev list count).2 ∨
          maxev ≤ count + (s.scan writable maxev list count).2.length := by
  induction list generalizing count with
  | nil => exact ⟨fun _ member => (nomatch member), fun _ member => (nomatch member)⟩
  | cons first rest ih =>
      have firstSound := each first List.mem_cons_self
      have restSound : ∀ w ∈ rest, WatchSound s w := fun w member => each w (List.mem_cons_of_mem first member)
      rw [WaitState.scan]
      split
      · split
        · rename_i closed
          obtain ⟨own, told⟩ := ih count restSound
          refine ⟨own, fun w member found some => ?_⟩
          obtain rfl | later := List.mem_cons.mp member
          · rw [closed] at found
            cases found
          · exact told w later found some
        · rename_i t isOpen
          have isTarget := firstSound.found isOpen
          subst isTarget
          dsimp only
          split
          · rename_i nothing
            obtain ⟨own, told⟩ := ih count restSound
            refine ⟨own, fun w member found some => ?_⟩
            obtain rfl | later := List.mem_cons.mp member
            · exact absurd nothing some
            · exact told w later found some
          · obtain ⟨own, told⟩ := ih (count + 1) restSound
            refine ⟨fun report member => ?_, fun w member found some => ?_⟩
            · obtain rfl | later := List.mem_cons.mp member
              · exact isOpen
              · exact own report later
            · obtain rfl | later := List.mem_cons.mp member
              · exact .inl List.mem_cons_self
              · obtain reported | full := told w later found some
                · exact .inl (List.mem_cons_of_mem _ reported)
                · rw [List.length_cons]
                  omega
      · refine ⟨fun _ member => (nomatch member), fun _ _ _ _ => .inr ?_⟩
        omega

theorem scan_sound {writable : Bool} {maxev : Nat} {list : List Watch} (count : Nat)
    (each : ∀ w ∈ list, WatchSound s w)
    (told : writable = true ∨ (s.scan writable maxev list count).2 = []) :
    ∀ w ∈ (s.scan writable maxev list count).1, WatchSound s w := by
  induction list generalizing count with
  | nil => exact fun _ member => (nomatch member)
  | cons first rest ih =>
      have firstSound := each first List.mem_cons_self
      have restSound : ∀ w ∈ rest, WatchSound s w := fun w member => each w (List.mem_cons_of_mem first member)
      rw [WaitState.scan] at told ⊢
      split
      case isFalse => exact each
      case isTrue room =>
        rw [if_pos room] at told
        intro w member
        cases found : s.find first.fd with
        | none =>
            rw [found] at told member
            obtain rfl | later := List.mem_cons.mp member
            · exact firstSound
            · exact ih count restSound told w later
        | some t =>
            have isTarget := firstSound.found found
            subst isTarget
            rw [found] at told member
            dsimp only at told member
            by_cases nothing : s.news first first.target = 0
            · rw [if_pos nothing] at told member
              obtain rfl | later := List.mem_cons.mp member
              · exact firstSound.scanned (.inr nothing)
              · exact ih count restSound told w later
            · rw [if_neg nothing] at told member
              have isWritable : writable = true := told.resolve_right fun empty => (nomatch empty)
              obtain rfl | later := List.mem_cons.mp member
              · exact firstSound.scanned (.inl isWritable)
              · exact ih (count + 1) restSound (.inl isWritable) w later

theorem scan_writable {maxev : Nat} (list : List Watch) (count : Nat) (writable : Bool) :
    (s.scan writable maxev list count).2 = (s.scan true maxev list count).2 := by
  induction list generalizing count with
  | nil => rfl
  | cons first rest ih =>
      rw [WaitState.scan, WaitState.scan]
      split
      · split
        · exact ih count
        · dsimp only
          split
          · exact ih count
          · exact congrArg (List.cons _) (ih (count + 1))
      · rfl

theorem epollOf_find {epfd : Nat} (isEpoll : s.epollOf epfd = some e) : s.find epfd = some e :=
  (Option.filter_eq_some_iff.mp isEpoll).1

theorem WaitSound.epollWait {epfd maxev : Nat} {writable : Bool} (sound : WaitSound s)
    (told : writable = true ∨ ∀ e, s.epollOf epfd = some e → s.reports e maxev = []) :
    WaitSound (epollWait epfd maxev writable s) := by
  rw [Epoll.epollWait]
  split
  · exact sound
  · rename_i e isEpoll
    have inside := sound.find (epollOf_find isEpoll)
    refine sound.setList (scan_sound 0 (sound.watches e inside) (told.imp_right fun nothing => ?_))
    rw [scan_writable]
    exact nothing e isEpoll

theorem mem_dropWatch {ep : List Watch} {idx : Nat} (member : w ∈ dropWatch ep idx) : w ∈ ep := by
  rw [dropWatch] at member
  split at member
  · cases member
  · rename_i last isLast
    obtain old | same := List.mem_or_eq_of_mem_set ((List.dropLast_sublist _).subset member)
    · exact old
    · exact same ▸ List.mem_of_getLast? isLast

theorem WaitSound.ctlWatches {op : CtlOp} {t : Nat} {event : Option (BitVec 32 × Nat)} {made : Bool}
    {ep : List Watch} (each : ∀ w ∈ ep, WatchSound s w) (inside : t < s.nofd)
    (isSlot : s.slot fd = some t) : ∀ w ∈ ctlWatches op fd t event made ep, WatchSound s w := by
  intro w member
  unfold Epoll.ctlWatches at member
  cases op with
  | del =>
      cases isIndex : watchIndex ep fd with
      | none =>
          rw [isIndex] at member
          exact each w member
      | some idx =>
          rw [isIndex] at member
          exact each w (mem_dropWatch member)
  | add =>
      cases isIndex : watchIndex ep fd with
      | some idx =>
          rw [isIndex] at member
          exact each w member
      | none =>
          rw [isIndex] at member
          cases event with
          | none => exact each w member
          | some event =>
              dsimp only at member
              split at member
              · obtain old | new := List.mem_append.mp member
                · exact each w old
                · rw [List.mem_singleton.mp new]
                  exact ⟨inside, .inr isSlot, fun _ => Nat.zero_le _, fun _ _ _ => .inl BitVec.getLsbD_zero⟩
              · exact each w member
  | mod =>
      cases isIndex : watchIndex ep fd with
      | none =>
          rw [isIndex] at member
          exact each w member
      | some idx =>
          rw [isIndex] at member
          cases event with
          | none => exact each w member
          | some event =>
              obtain ⟨i, isAt⟩ := List.mem_iff_getElem?.mp member
              rw [List.getElem?_modify] at isAt
              obtain ⟨old, wasAt, isNew⟩ := Option.map_eq_some_iff.mp isAt
              have watch := each old (List.mem_of_getElem? wasAt)
              split at isNew
              · rw [← isNew]
                exact ⟨watch.target, watch.slot, fun _ => Nat.zero_le _, fun _ _ _ => .inl BitVec.getLsbD_zero⟩
              · exact isNew ▸ watch

theorem WaitSound.epollCtl {epfd : Nat} {op : CtlOp} {event : Option (BitVec 32 × Nat)}
    {made : Bool} (sound : WaitSound s) : WaitSound (epollCtl epfd op fd event made s) := by
  rw [Epoll.epollCtl]
  split
  · rename_i e t isEpoll found
    exact sound.setList (WaitSound.ctlWatches (sound.watches e (sound.find (epollOf_find isEpoll))) (sound.find found)
      (find_slot found))
  · exact sound

inductive EpollCall where
  | pipe
  | socketpair (packet : Bool)
  | eventfd (counter : Nat) (semaphore : Bool)
  | epollCreate
  | close (fd : Nat)
  | dup (fd : Nat)
  | dup2 (fd fd2 : Nat)
  | write (fd : Nat) (data : List UInt8)
  | read (fd n : Nat)
  | ctl (epfd : Nat) (op : CtlOp) (fd : Nat) (event : Option (BitVec 32 × Nat)) (made : Bool)
  | wait (epfd maxev : Nat) (writable : Bool)

def epollStep (s : WaitState) : EpollCall → WaitState
  | .pipe => sysPipe s
  | .socketpair packet => sysSocketpair packet s
  | .eventfd counter semaphore => sysEventfd counter semaphore s
  | .epollCreate => epollCreate s
  | .close fd => fdCloseSlot fd s
  | .dup fd => sysDup fd s
  | .dup2 fd fd2 => sysDup2 fd fd2 s
  | .write fd data => sysWrite fd data s
  | .read fd n => sysRead fd n s
  | .ctl epfd op fd event made => epollCtl epfd op fd event made s
  | .wait epfd maxev writable => epollWait epfd maxev writable s

/-- The descriptors that a call gives out, with their descriptions. -/
def installs (s : WaitState) : EpollCall → List (Nat × Nat)
  | .pipe | .socketpair _ =>
      match s.fdAllocTwo with
      | none => []
      | some (first, second) => [(first, s.nofd), (second, s.nofd + 1)]
  | .eventfd .. | .epollCreate => s.fdAlloc.toList.map fun fd => (fd, s.nofd)
  | .dup fd =>
      match s.find fd, s.fdAlloc with
      | some o, some n => [(n, o)]
      | _, _ => []
  | .dup2 fd fd2 =>
      match s.find fd with
      | some o => if fd2 < lxMaxFd ∧ fd ≠ fd2 then [(fd2, o)] else []
      | none => []
  | _ => []

/-- No descriptor is given to a description while a list has it for another one. -/
def InstallsRight (s : WaitState) (call : EpollCall) : Prop :=
  ∀ entry ∈ installs s call, ∀ e < s.nofd, ∀ w ∈ (s.ofd e).ep, w.fd = entry.1 → w.target = entry.2

def TellsAll (s : WaitState) : EpollCall → Prop
  | .write fd data => ∀ o ∈ s.find fd, WriteCounted s o data
  | .wait epfd maxev writable => writable = true ∨ ∀ e ∈ s.epollOf epfd, s.reports e maxev = []
  | _ => True

def epollCondition (s : WaitState) (call : EpollCall) : Prop :=
  InstallsRight s call ∧ TellsAll s call

theorem InstallsRight.notStale {call : EpollCall} (right : InstallsRight s call)
    (given : (fd, o) ∈ installs s call) : NotStale s fd o :=
  fun w ⟨e, inside, member⟩ isFd => right (fd, o) given e inside w member isFd

theorem WaitSound.installTwo (sound : WaitSound s) {first second : Nat} {d d' : WaitOfd}
    (uses : ∀ q, d.kind.uses q ∨ d'.kind.uses q → q < s.npipe) (fresh : d.ep = [] ∧ d'.ep = [])
    (right : NotStale s first s.nofd) (right' : NotStale s second (s.nofd + 1)) :
    WaitSound ((s.install first d).install second d') := by
  have one := sound.install (fun q used => uses q (.inl used)) fresh.1 right
  exact (one.sound.install (fun q used => uses q (.inr used)) fresh.2 (right'.keeps one)).sound

theorem WaitSound.step (sound : WaitSound s) {call : EpollCall}
    (condition : epollCondition s call) : WaitSound (epollStep s call) := by
  obtain ⟨right, tells⟩ := condition
  cases call with
  | pipe =>
      rw [epollStep, sysPipe]
      cases found : s.fdAllocTwo with
      | none => exact sound
      | some pair =>
          have made := sound.pipeNew false
          refine made.sound.installTwo (fun q used => ?_) ⟨rfl, rfl⟩
            (NotStale.keeps (right.notStale ?_) made) (NotStale.keeps (right.notStale ?_) made)
          · obtain rfl | rfl := used <;> exact Nat.lt_succ_self _
          all_goals simp [installs, found, WaitState.pipeNew]
  | socketpair packet =>
      rw [epollStep, sysSocketpair]
      cases found : s.fdAllocTwo with
      | none => exact sound
      | some pair =>
          have made := (sound.pipeNew packet).trans ((sound.pipeNew packet).sound.pipeNew packet)
          refine made.sound.installTwo (fun q used => ?_) ⟨rfl, rfl⟩
            (NotStale.keeps (right.notStale ?_) made) (NotStale.keeps (right.notStale ?_) made)
          · change q < s.npipe + 1 + 1
            obtain (isSecond | isFirst) | (isFirst | isSecond) := used <;> omega
          all_goals simp [installs, found, WaitState.pipeNew]
  | eventfd counter semaphore =>
      rw [epollStep, sysEventfd]
      cases found : s.fdAlloc with
      | none => exact sound
      | some n =>
          refine (sound.install (fun _ used => ?_) rfl (right.notStale ?_)).sound
          · cases used
          · simp [installs, found]
  | epollCreate =>
      rw [epollStep, Epoll.epollCreate]
      cases found : s.fdAlloc with
      | none => exact sound
      | some n =>
          refine (sound.install (fun _ used => ?_) rfl (right.notStale ?_)).sound
          · cases used
          · simp [installs, found]
  | close fd => exact (fdCloseSlot_keeps sound).sound
  | dup fd =>
      rw [epollStep, sysDup]
      cases found : s.find fd with
      | none => exact sound
      | some o =>
          cases free : s.fdAlloc with
          | none => exact sound
          | some n => exact (shareSlot_keeps sound (sound.find found) (right.notStale (by simp [installs, found, free]))).sound
  | dup2 fd fd2 =>
      rw [epollStep, sysDup2]
      cases found : s.find fd with
      | none => exact sound
      | some o =>
          dsimp only
          split
          · rename_i apart
            have closed := @fdCloseSlot_keeps s fd2 sound
            have inside := sound.find found
            rw [← fdCloseSlot_nofd fd2 s] at inside
            refine (shareSlot_keeps closed.sound inside (NotStale.keeps (right.notStale ?_) closed)).sound
            simp [installs, found, apart]
          · exact sound
  | write fd data =>
      rw [epollStep, sysWrite]
      cases found : s.find fd with
      | none => exact sound
      | some o =>
          dsimp only
          split
          · exact sound
          · exact sound.ofdWrite (sound.find found) (tells o found)
  | read fd n =>
      rw [epollStep, sysRead]
      cases found : s.find fd with
      | none => exact sound
      | some o =>
          dsimp only
          split
          · exact sound
          · exact (ofdRead_keeps sound (sound.find found)).sound
  | ctl epfd op fd event made => exact sound.epollCtl
  | wait epfd maxev writable => exact sound.epollWait tells

/-- What a scan of `epoll_wait` must report, and what it may. -/
structure ScanHonest (s : WaitState) (e maxev : Nat) : Prop where
  /-- Data that was written to an `EPOLLET | EPOLLIN` watch after its last report and is there
  still. -/
  nothingLost : ∀ w ∈ (s.ofd e).ep, w.isEdge → w.ev.getLsbD 0 = true → w.fresh = true →
    s.find w.fd = some w.target → (s.ready w.target).getLsbD 0 = true →
    (∃ rd, (w, rd) ∈ s.reports e maxev ∧ rd.getLsbD 0 = true) ∨
    min maxev 128 ≤ (s.reports e maxev).length
  /-- A report is of the description that was added. -/
  nothingInvented : ∀ report ∈ s.reports e maxev, s.find report.1.fd = some report.1.target

theorem WaitSound.honest (sound : WaitSound s) (inside : e < s.nofd) (maxev : Nat) :
    ScanHonest s e maxev := by
  obtain ⟨own, told⟩ :=
    @scan_reports s true (min maxev 128) (s.ofd e).ep 0 (sound.watches e inside)
  refine ⟨fun w member edge isIn fresh found readable => ?_, own⟩
  have isNews := (sound.watches e inside w member).tells edge isIn fresh readable
  have some : s.news w w.target ≠ 0 := by
    intro nothing
    rw [nothing] at isNews
    simp at isNews
  obtain reported | full := told w member found some
  · exact .inl ⟨_, reported, isNews⟩
  · rw [Nat.zero_add] at full
    exact .inr full

def noDescriptors : WaitState where
  ofd _ := ⟨0, .none, 0, 0, false, [], true⟩
  nofd := 0
  pipe _ := Linux.pipeNew false
  npipe := 0
  slot _ := none

theorem epoll_reports_edges {epfd : Nat}
    (reached : Reaches epollStep epollCondition noDescriptors s) (isEpoll : s.epollOf epfd = some e)
    (maxev : Nat) : ScanHonest s e maxev := by
  have initially : WaitSound noDescriptors :=
    ⟨fun _ _ taken => (nomatch taken), fun _ inside => absurd inside (Nat.not_lt_zero _),
      fun _ inside => absurd inside (Nat.not_lt_zero _), fun _ inside => absurd inside (Nat.not_lt_zero _)⟩
  have sound := reached.invariant initially fun _ _ sound condition => sound.step condition
  exact sound.honest (sound.find (epollOf_find isEpoll)) maxev

instance (s : WaitState) (o : Nat) (data : List UInt8) : Decidable (WriteCounted s o data) :=
  match kind : (s.ofd o).kind with
  | .pipeW q => decidable_of_iff ((s.pipe q).len < (pipeFill data (s.pipe q)).len → ∀ e < s.nofd, ∀ w ∈ (s.ofd e).ep, w.isEdge →
      s.reads q w.target = true → w.last.getLsbD 0 = false) (by rw [WriteCounted, kind])
  | .upair _ q => decidable_of_iff ((s.pipe q).wtotal + data.length + 5 < 2 ^ 64) (by rw [WriteCounted, kind])
  | .event => decidable_of_iff ((s.ofd o).ver + 1 < 2 ^ 64) (by rw [WriteCounted, kind])
  | .none | .pipeR _ | .epoll => isTrue (by rw [WriteCounted, kind]; trivial)

instance (s : WaitState) : ∀ call, Decidable (TellsAll s call)
  | .write fd data => inferInstanceAs (Decidable (∀ o ∈ s.find fd, WriteCounted s o data))
  | .wait epfd maxev writable =>
      inferInstanceAs (Decidable (writable = true ∨ ∀ e ∈ s.epollOf epfd, s.reports e maxev = []))
  | .pipe | .socketpair .. | .eventfd .. | .epollCreate | .close .. | .dup .. | .dup2 .. | .read .. | .ctl .. => isTrue trivial

instance (s : WaitState) (call : EpollCall) : Decidable (epollCondition s call) :=
  inferInstanceAs (Decidable ((∀ entry ∈ installs s call, ∀ e < s.nofd, ∀ w ∈ (s.ofd e).ep, w.fd = entry.1 →
    w.target = entry.2) ∧ TellsAll s call))

def watchedPipe : List EpollCall := [.pipe, .epollCreate, .ctl 2 .add 0 (some (0x80000001, 7)) true]

theorem epoll_reports_edges_drained :
    ScanHonest (runSteps epollStep noDescriptors
      (watchedPipe ++ [.write 1 [1], .wait 2 8 true, .read 0 8, .wait 2 8 true, .write 1 [2]])) 2 8 ∧
    ((runSteps epollStep noDescriptors
      (watchedPipe ++ [.write 1 [1], .wait 2 8 true, .read 0 8, .wait 2 8 true,
        .write 1 [2]])).reports 2 8).map (fun report => (report.1.data, report.2)) = [(7, 1)] :=
  ⟨@epoll_reports_edges _ 2 2 (Reaches.refl.runSteps (by decide +kernel)) (by decide +kernel) 8, by decide +kernel⟩

/-- A second write to the pipe is not reported, and a descriptor that was closed and given out again
reports for the description that was there before. -/
theorem pipe_write_unreported :
    ¬ ScanHonest (runSteps epollStep noDescriptors (watchedPipe ++ [.write 1 [1], .wait 2 8 true, .write 1 [2]])) 2 8 ∧
      ¬ ScanHonest (runSteps epollStep noDescriptors (watchedPipe ++ [.close 0, .eventfd 1 false])) 2 8 := by
  refine ⟨fun honest => ?_, fun honest => ?_⟩
  · have isList : ((runSteps epollStep noDescriptors (watchedPipe ++ [.write 1 [1], .wait 2 8 true, .write 1 [2]])).ofd 2).ep =
        [⟨0, 0x80000001, 7, 1, 0, 0, true⟩] := by
      decide +kernel
    have none : (runSteps epollStep noDescriptors (watchedPipe ++ [.write 1 [1], .wait 2 8 true, .write 1 [2]])).reports 2 8 =
        [] := by
      decide +kernel
    have lost := honest.nothingLost ⟨0, 0x80000001, 7, 1, 0, 0, true⟩ (isList ▸ List.mem_singleton.mpr rfl) (by decide)
      (by decide) rfl (by decide +kernel) (by decide +kernel)
    rw [none] at lost
    obtain ⟨rd, member, isIn⟩ | full := lost
    · cases member
    · exact absurd full (by decide)
  · have isReport : (runSteps epollStep noDescriptors (watchedPipe ++ [.close 0, .eventfd 1 false])).reports 2 8 =
        [(⟨0, 0x80000001, 7, 0, 0, 0, true⟩, 1)] := by
      decide +kernel
    have own := honest.nothingInvented _ (isReport ▸ List.mem_singleton.mpr rfl)
    exact absurd own (by decide +kernel)

end Cos.Epoll
