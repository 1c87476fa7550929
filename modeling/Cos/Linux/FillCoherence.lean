import Cos.Linux.FileFill

/-! # Coherence of the cache of file pages

What a mapping of the file shows, when every page that is offered to the cache was read since the
last call that modifies the file.
-/

namespace Cos.Linux

open Cos.Lib Cos.Paging
open Function (update update_of_ne update_self update_apply)

/-- A page of a fill is offered only if no call that modifies the file is in progress or has been
since the page was read, and the file is the one that the path names. -/
def OfferFresh (s : FillWorld) (fill : Fill) : Prop :=
  ∀ frame buf epoch, fill.stage = .stored frame buf epoch → fill.offers buf = true →
    s.writers = [] ∧ epoch = s.epoch ∧ s.current = some fill.object

def fillAllowed (path : List UInt8) (s : FillWorld) : FillLabel → Prop
  | .begins t name _ _ _ count off .. => (lxmHash name = lxmHash path → name = path) ∧ s.fills t = none ∧
      off % 4096 = 0 ∧ off / 4096 + count ≤ 2 ^ 32
  | .lookup t .. => ∀ fill, s.fills t = some fill → ∀ frame, fill.mapping ∉ s.frames.mappings frame
  | .alloc _ frame => s.frames.inUse frame = false
  | .put t .. => ∀ fill, s.fills t = some fill → fill.path = path → OfferFresh s fill
  | .unmap frame mapping => mapping ∈ s.frames.mappings frame ∧ ∀ t fill, s.fills t = some fill →
      ∀ i < fill.count, mapping ≠ ⟨fill.space, fill.at_ + i⟩
  | .otherWrite object .. => s.current ≠ some object
  | .readChunk .. | .readPage .. | .reread .. | .store _ | .leave _ | .modify _ | .change _
  | .finish _ | .otherModify _ => True

def Fill.frame (fill : Fill) : Option Nat :=
  match fill.stage with
  | .read frame | .loaded frame .. | .stored frame .. => some frame
  | .lookup | .missed => none

/-- No call that modifies the file is in progress or has been since the epoch. -/
structure Quiet (s : FillWorld) (object epoch : Nat) : Prop where
  since : epoch = s.epoch
  writers : s.writers = []
  current : s.current = some object

structure BufOk (s : FillWorld) (object start foff : Nat) (buf : List UInt8) (epoch : Nat) :
    Prop where
  since : start ≤ epoch
  past : epoch ≤ s.epoch
  short : buf.length ≤ 4096
  right : Quiet s object epoch → padPage buf = filePage (s.objects object) foff

structure FillSound (path : List UInt8) (s : FillWorld) (fill : Fill) : Prop where
  distinct : lxmHash fill.path = lxmHash path → fill.path = path
  aligned : fill.off % 4096 = 0
  bounded : fill.off / 4096 + fill.count ≤ 2 ^ 32
  started : fill.start ≤ s.epoch
  chunk : ∀ chunk, fill.chunk = some chunk → fill.start ≤ chunk.epoch ∧ chunk.epoch ≤ s.epoch ∧
    (Quiet s fill.object chunk.epoch →
    ∃ n, chunk.bytes = ((s.objects fill.object).drop chunk.cstart).take n)
  inside : fill.frame.isSome → fill.page < fill.count
  loaded : ∀ frame buf again epoch, fill.stage = .loaded frame buf again epoch →
    BufOk s fill.object fill.start fill.foff buf epoch
  stored : ∀ frame buf epoch, fill.stage = .stored frame buf epoch →
    BufOk s fill.object fill.start fill.foff buf epoch ∧ s.bytes frame = padPage buf
  frame : ∀ frame, fill.frame = some frame →
    s.frames.mappings frame = {fill.mapping} ∧ s.frames.pcRev frame = 0
  mapped : ∀ i frame, (i, frame) ∈ fill.mapped → i < fill.count ∧
    ⟨fill.space, fill.at_ + i⟩ ∈ s.frames.mappings frame ∧
    (fill.path = path → Quiet s fill.object fill.start →
      s.bytes frame = filePage (s.objects fill.object) (fill.off + i * 4096))

/-- A frame that is being filled belongs to one fill and to no page that is mapped already. -/
def Apart (fills : Nat → Option Fill) : Prop :=
  ∀ t u fill other frame, fills t = some fill → fill.frame = some frame → fills u = some other →
    (other.frame = some frame → t = u) ∧ ∀ i, (i, frame) ∉ other.mapped

/-- The cached page is the file's, and no call is about to change that. -/
def PageRight (s : FillWorld) (ent : PcEnt) : Prop :=
  s.writers = [] ∧ ∃ object, s.current = some object ∧
    s.bytes ent.frame = filePage (s.objects object) (ent.pg.toNat * 4096)

structure WorldSound (path : List UInt8) (s : FillWorld) : Prop where
  named : path ≠ []
  frames : FrameInvariant s.frames
  files : FilesKnown s.frames
  right : ∀ ent, Cached s.frames ent → ent.fh = lxmHash path → PageRight s ent
  fills : ∀ t fill, s.fills t = some fill → FillSound path s fill
  apart : Apart s.fills

section Carry

variable {s after : FillWorld} {fill other : Fill} {path : List UInt8} {t u : Nat}

structure Carries (s after : FillWorld) (fill : Fill) : Prop where
  epoch : s.epoch ≤ after.epoch
  quiet : ∀ epoch ≤ s.epoch, Quiet after fill.object epoch →
    Quiet s fill.object epoch ∧ after.objects fill.object = s.objects fill.object
  frame : ∀ frame, fill.frame = some frame → after.frames.mappings frame = s.frames.mappings frame ∧
    (s.frames.pcRev frame = 0 → after.frames.pcRev frame = 0) ∧ after.bytes frame = s.bytes frame
  mapped : ∀ i frame, (i, frame) ∈ fill.mapped →
    (⟨fill.space, fill.at_ + i⟩ ∈ s.frames.mappings frame →
      ⟨fill.space, fill.at_ + i⟩ ∈ after.frames.mappings frame) ∧ after.bytes frame = s.bytes frame

theorem BufOk.carry {buf : List UInt8} {epoch : Nat}
    (ok : BufOk s fill.object fill.start fill.foff buf epoch) (carries : Carries s after fill) :
    BufOk after fill.object fill.start fill.foff buf epoch := by
  refine ⟨ok.since, Nat.le_trans ok.past carries.epoch, ok.short, fun quiet => ?_⟩
  obtain ⟨before, same⟩ := carries.quiet epoch ok.past quiet
  rw [same]
  exact ok.right before

theorem FillSound.carry (sound : FillSound path s fill) (carries : Carries s after fill) :
    FillSound path after fill where
  aligned := sound.aligned
  bounded := sound.bounded
  started := Nat.le_trans sound.started carries.epoch
  distinct := sound.distinct
  chunk := by
    intro chunk isChunk
    obtain ⟨since, past, right⟩ := sound.chunk chunk isChunk
    refine ⟨since, Nat.le_trans past carries.epoch, fun quiet => ?_⟩
    obtain ⟨before, same⟩ := carries.quiet _ past quiet
    rw [same]
    exact right before
  inside := sound.inside
  loaded := fun frame buf again epoch isStage =>
    (sound.loaded frame buf again epoch isStage).carry carries
  stored := by
    intro frame buf epoch isStage
    obtain ⟨ok, bytes⟩ := sound.stored frame buf epoch isStage
    have isFrame : fill.frame = some frame := by rw [Fill.frame, isStage]
    exact ⟨ok.carry carries, (carries.frame frame isFrame).2.2.trans bytes⟩
  frame := by
    intro frame isFrame
    obtain ⟨mappings, uncached, -⟩ := carries.frame frame isFrame
    obtain ⟨once, before⟩ := sound.frame frame isFrame
    exact ⟨mappings.trans once, uncached before⟩
  mapped := by
    intro i frame member
    obtain ⟨inside, here, right⟩ := sound.mapped i frame member
    obtain ⟨kept, bytes⟩ := carries.mapped i frame member
    refine ⟨inside, kept here, fun isPath quiet => ?_⟩
    obtain ⟨before, same⟩ := carries.quiet _ sound.started quiet
    rw [bytes, same]
    exact right isPath before

def SameFiles (s after : FillWorld) : Prop :=
  after.epoch = s.epoch ∧ after.writers = s.writers ∧ after.current = s.current ∧
    after.objects = s.objects

theorem SameFiles.quiet (same : SameFiles s after) {object epoch : Nat}
    (quiet : Quiet after object epoch) : Quiet s object epoch :=
  ⟨same.1 ▸ quiet.since, same.2.1 ▸ quiet.writers, same.2.2.1 ▸ quiet.current⟩

theorem Carries.sameFiles (same : SameFiles s after)
    (frame : ∀ frame, fill.frame = some frame →
      after.frames.mappings frame = s.frames.mappings frame ∧
      (s.frames.pcRev frame = 0 → after.frames.pcRev frame = 0) ∧ after.bytes frame = s.bytes frame)
    (mapped : ∀ i frame, (i, frame) ∈ fill.mapped →
      (⟨fill.space, fill.at_ + i⟩ ∈ s.frames.mappings frame →
        ⟨fill.space, fill.at_ + i⟩ ∈ after.frames.mappings frame) ∧ after.bytes frame = s.bytes frame) :
    Carries s after fill :=
  ⟨Nat.le_of_eq same.1.symm, fun _ _ quiet => ⟨same.quiet quiet, by rw [same.2.2.2]⟩, frame, mapped⟩

theorem Carries.same (files : SameFiles s after) (frames : after.frames = s.frames)
    (bytes : after.bytes = s.bytes) : Carries s after fill :=
  .sameFiles files (fun _ _ => ⟨by rw [frames], by rw [frames]; exact id, by rw [bytes]⟩)
    fun _ _ _ => ⟨by rw [frames]; exact id, by rw [bytes]⟩

theorem PageRight.sameFiles {ent : PcEnt} (right : PageRight s ent) (same : SameFiles s after)
    (bytes : after.bytes ent.frame = s.bytes ent.frame) : PageRight after ent := by
  obtain ⟨quiet, object, isObject, page⟩ := right
  refine ⟨same.2.1.trans quiet, object, same.2.2.1.trans isObject, ?_⟩
  rw [bytes, same.2.2.2]
  exact page

def Unknown (fills : Nat → Option Fill) (frame : Nat) : Prop :=
  ∀ u other, fills u = some other → other.frame ≠ some frame ∧ ∀ i, (i, frame) ∉ other.mapped

theorem Apart.update {fills : Nat → Option Fill} (apart : Apart fills)
    (frame : ∀ frame, fill.frame = some frame →
      (∃ before, fills t = some before ∧ before.frame = some frame) ∨ Unknown fills frame)
    (mapped : ∀ i frame, (i, frame) ∈ fill.mapped →
      (∃ before, fills t = some before ∧ (i, frame) ∈ before.mapped) ∨
      (fill.frame = none ∧ ∀ u other, u ≠ t → fills u = some other → other.frame ≠ some frame))
    (own : ∀ i frame, (i, frame) ∈ fill.mapped → fill.frame ≠ some frame) :
    Apart (update fills t (some fill)) := by
  intro u v first second f isFirst isFrame isSecond
  rw [update_apply] at isFirst isSecond
  split at isFirst
  next atT =>
    obtain rfl := Option.some.inj isFirst
    split at isSecond
    next atT' =>
      obtain rfl := Option.some.inj isSecond
      exact ⟨fun _ => atT.trans atT'.symm, fun i member => own i f member isFrame⟩
    next notT =>
      rcases frame f isFrame with ⟨before, isBefore, hadFrame⟩ | unknown
      · obtain ⟨same, outside⟩ := apart t v before second f isBefore hadFrame isSecond
        exact ⟨fun theirs => absurd (same theirs).symm notT, outside⟩
      · obtain ⟨noFrame, outside⟩ := unknown v second isSecond
        exact ⟨fun theirs => absurd theirs noFrame, outside⟩
  next notT =>
    split at isSecond
    next atT =>
      obtain rfl := Option.some.inj isSecond
      refine ⟨fun theirs => ?_, fun i member => ?_⟩
      · rcases frame f theirs with ⟨before, isBefore, hadFrame⟩ | unknown
        · have same := (apart u t first before f isFirst isFrame isBefore).1 hadFrame
          exact absurd same notT
        · exact absurd isFrame (unknown u first isFirst).1
      · rcases mapped i f member with ⟨before, isBefore, hadPage⟩ | ⟨-, others⟩
        · exact (apart u t first before f isFirst isFrame isBefore).2 i hadPage
        · exact others u first notT isFirst isFrame
    next => exact apart u v first second f isFirst isFrame isSecond

theorem WorldSound.move (sound : WorldSound path s) (frames : FrameInvariant after.frames)
    (files : FilesKnown after.frames)
    (right : ∀ ent, Cached after.frames ent → ent.fh = lxmHash path → PageRight after ent)
    (isFills : after.fills = update s.fills t (some fill)) (here : FillSound path after fill)
    (others : ∀ u other, u ≠ t → s.fills u = some other → Carries s after other)
    (apart : Apart after.fills) : WorldSound path after := by
  refine ⟨sound.named, frames, files, right, fun u other isOther => ?_, apart⟩
  rw [isFills, update_apply] at isOther
  split at isOther
  next => exact Option.some.inj isOther ▸ here
  next notT => exact (sound.fills u other isOther).carry (others u other notT isOther)

theorem WorldSound.setFill (sound : WorldSound path s) (here : FillSound path s fill)
    (frame : ∀ frame, fill.frame = some frame →
    ∃ before, s.fills t = some before ∧ before.frame = some frame)
    (mapped : ∀ page ∈ fill.mapped, ∃ before, s.fills t = some before ∧ page ∈ before.mapped) :
    WorldSound path (s.setFill t fill) := by
  have same : SameFiles s (s.setFill t fill) := ⟨rfl, rfl, rfl, rfl⟩
  refine sound.move sound.frames sound.files
    (fun ent cached isFile => (sound.right ent cached isFile).sameFiles same rfl)
    rfl (here.carry (.same same rfl rfl)) (fun _ _ _ _ => .same same rfl rfl) ?_
  refine sound.apart.update (fun f isFrame => .inl (frame f isFrame))
    (fun i f member => .inl (mapped (i, f) member)) ?_
  intro i f member isFrame
  obtain ⟨before, isBefore, hadPage⟩ := mapped (i, f) member
  obtain ⟨before', isBefore', hadFrame⟩ := frame f isFrame
  obtain rfl := Option.some.inj (isBefore.symm.trans isBefore')
  exact (sound.apart t t before before f isBefore hadFrame isBefore).2 i hadPage

theorem WorldSound.begins {name : List UInt8} {object space at_ count off : Nat} {stat : Option Nat}
    {writable shared cbuf : Bool} (sound : WorldSound path s)
    (distinct : lxmHash name = lxmHash path → name = path) (aligned : off % 4096 = 0)
    (bounded : off / 4096 + count ≤ 2 ^ 32) :
    WorldSound path (fillBegin t name object space at_ count off stat writable shared cbuf s) := by
  refine sound.setFill ?_ (fun _ isFrame => by cases isFrame) (fun _ member => by cases member)
  exact {
    distinct, aligned, bounded, started := Nat.le_refl _
    chunk := by simp
    inside := by simp [Fill.frame]
    loaded := by simp
    stored := by simp
    frame := by simp [Fill.frame]
    mapped := by simp }

theorem FillSound.foff_eq (sound : FillSound path s fill) (inside : fill.page < fill.count) :
    fill.foff = fill.off + fill.page * 4096 := by
  obtain ⟨aligned, bounded⟩ := And.intro sound.aligned sound.bounded
  rw [Fill.foff, Nat.mod_eq_of_lt]
  omega

theorem FillSound.pageNumber (sound : FillSound path s fill) (inside : fill.page < fill.count) :
    (BitVec.ofNat 32 (fill.foff / 4096)).toNat * 4096 = fill.foff := by
  obtain ⟨aligned, bounded⟩ := And.intro sound.aligned sound.bounded
  have isOff := sound.foff_eq inside
  rw [BitVec.toNat_ofNat, Nat.mod_eq_of_lt (by omega)]
  omega

theorem filePread_some {contents buf : List UInt8} {foff len : Nat} {ok : Bool}
    (read : filePread contents foff len ok = some buf) :
    buf = (contents.drop foff).take (min len ioChunk) := by
  rw [filePread] at read
  split at read
  · exact (Option.some.inj read).symm
  · cases read

theorem WorldSound.readChunk {frame : Nat} {ok : Bool} (sound : WorldSound path s)
    (here : s.fills t = some fill) (isStage : fill.stage = .read frame) :
    WorldSound path (fillReadChunk t ok fill s) := by
  have before := sound.fills t fill here
  rw [fillReadChunk]
  split
  next =>
    refine sound.setFill { before with
      chunk := ?_, loaded := ?_, stored := ?_ } (fun f isFrame => ⟨fill, here, isFrame⟩)
      (fun page member => ⟨fill, here, member⟩)
    · intro chunk isChunk
      obtain rfl := Option.some.inj isChunk
      refine ⟨before.started, Nat.le_refl _, fun _ => ?_⟩
      cases read : filePread (s.objects fill.object) fill.foff (min ((fill.count - fill.page) * 4096) ioChunk) ok with
      | none => exact ⟨0, by simp⟩
      | some got => exact ⟨_, filePread_some read⟩
    · intro frame buf again epoch stage
      exact absurd (isStage.symm.trans stage) (by simp)
    · intro frame buf epoch stage
      exact absurd (isStage.symm.trans stage) (by simp)
  next => exact sound

theorem WorldSound.load {frame again epoch : Nat} {buf : List UInt8} (sound : WorldSound path s)
    (here : s.fills t = some fill) (isFrame : fill.frame = some frame)
    (ok : BufOk s fill.object fill.start fill.foff buf epoch) :
    WorldSound path (s.setFill t { fill with stage := .loaded frame buf again epoch }) := by
  have before := sound.fills t fill here
  refine sound.setFill { before with
    inside := fun _ => before.inside (by rw [isFrame]; rfl), loaded := ?_, stored := ?_,
      frame := ?_ } ?_
    (fun page member => ⟨fill, here, member⟩)
  · intro other got round when stage
    obtain ⟨rfl, rfl, rfl, rfl⟩ := FillStage.loaded.inj stage
    exact ok
  · intro other got when stage
    cases stage
  · intro other isOther
    obtain rfl := Option.some.inj isOther
    exact before.frame frame isFrame
  · intro other isOther
    obtain rfl := Option.some.inj isOther
    exact ⟨fill, here, isFrame⟩

theorem BufOk.read {buf : List UInt8} {ok : Bool} (started : fill.start ≤ s.epoch)
    (read : filePread (s.objects fill.object) fill.foff 4096 ok = some buf) :
    BufOk s fill.object fill.start fill.foff buf s.epoch := by
  obtain rfl := filePread_some read
  refine ⟨started, Nat.le_refl _, ?_, fun _ => rfl⟩
  rw [List.length_take]
  exact Nat.le_trans (Nat.min_le_left _ _) (Nat.min_le_left _ _)

theorem take_chunk {contents bytes : List UInt8} {cstart d n : Nat}
    (isPiece : bytes = (contents.drop cstart).take n)
    (whole : d + 4096 ≤ bytes.length) :
    (bytes.drop d).take 4096 = (contents.drop (cstart + d)).take 4096 := by
  rw [isPiece, List.length_take] at whole
  rw [isPiece, List.drop_take, List.take_take, List.drop_drop, Nat.min_eq_left (by omega)]

theorem WorldSound.readPage {frame : Nat} {ok : Bool} (sound : WorldSound path s)
    (here : s.fills t = some fill) (isStage : fill.stage = .read frame) :
    WorldSound path (fillReadPage t frame ok fill s) := by
  have before := sound.fills t fill here
  have isFrame : fill.frame = some frame := by rw [Fill.frame, isStage]
  rw [fillReadPage]
  split
  next => exact sound
  next =>
    split
    next buf epoch fromChunk =>
      refine sound.load here isFrame ?_
      have isChunk : fill.fromChunk = some (buf, epoch) := by
        split at fromChunk
        · exact fromChunk
        · cases fromChunk
      rw [Fill.fromChunk] at isChunk
      split at isChunk
      next => cases isChunk
      next chunk found =>
        split at isChunk
        next whole =>
          obtain ⟨rfl, rfl⟩ := Prod.mk.inj (Option.some.inj isChunk)
          obtain ⟨since, past, right⟩ := before.chunk chunk found
          refine ⟨since, past, ?_, fun quiet => ?_⟩
          · rw [List.length_take]
            exact Nat.min_le_left _ _
          · obtain ⟨n, isPiece⟩ := right quiet
            rw [filePage, take_chunk isPiece whole.2, Nat.add_sub_cancel' whole.1]
        next => cases isChunk
    next =>
      split
      next buf read => exact sound.load here isFrame (.read before.started read)
      next => exact sound

theorem padPage_append_zeros {bytes : List UInt8} (n : Nat) (short : bytes.length + n ≤ 4096) :
    padPage (bytes ++ List.replicate n 0) = padPage bytes := by
  rw [padPage, padPage, List.append_assoc, List.length_append, List.length_replicate,
    List.replicate_append_replicate]
  congr 2
  omega

theorem WorldSound.reread {frame again epoch : Nat} {buf : List UInt8} {ok : Bool}
    (sound : WorldSound path s) (here : s.fills t = some fill)
    (isStage : fill.stage = .loaded frame buf again epoch) :
    WorldSound path (fillReread t frame again epoch buf ok fill s) := by
  have before := (sound.fills t fill here).loaded frame buf again epoch isStage
  have isFrame : fill.frame = some frame := by rw [Fill.frame, isStage]
  rw [fillReread]
  split
  next doubts =>
    split
    next => exact sound.load here isFrame before
    next got read =>
      have started := (sound.fills t fill here).started
      have fresh := BufOk.read started read
      simp only [Fill.doubts, Bool.and_eq_true, decide_eq_true_eq] at doubts
      obtain ⟨⟨⟨full, -⟩, zeros⟩, -⟩ := doubts
      have allZero : buf = List.replicate buf.length 0 :=
        List.eq_replicate_iff.mpr ⟨rfl, fun byte member => by
          have zero := List.all_eq_true.mp zeros byte member
          simpa using zero⟩
      -- what a shorter read leaves of the buffer are the zeros that were there
      have rest : buf.drop got.length = List.replicate (4096 - got.length) 0 := by
        rw [allZero, List.drop_replicate, full]
      have short := fresh.short
      refine sound.load here isFrame ⟨started, Nat.le_refl _, ?_, fun quiet => ?_⟩
      · rw [rest, List.length_append, List.length_replicate]
        omega
      · rw [rest, padPage_append_zeros _ (by omega)]
        exact fresh.right quiet
  next => exact sound

theorem FillSound.idle {stage : FillStage} (sound : FillSound path s fill)
    (noFrame : ({ fill with stage := stage } : Fill).frame = none) :
    FillSound path s { fill with stage := stage } :=
  { sound with
    inside := by simp [noFrame]
    loaded := by
      rintro frame buf again epoch isStage
      rw [Fill.frame, isStage] at noFrame
      cases noFrame
    stored := by
      rintro frame buf epoch isStage
      rw [Fill.frame, isStage] at noFrame
      cases noFrame
    frame := by
      intro frame isFrame
      exact absurd (noFrame.symm.trans isFrame) (by simp) }

theorem FillSound.next {frame : Nat} (sound : FillSound path s { fill with stage := .lookup })
    (inside : fill.page < fill.count) (here : fill.mapping ∈ s.frames.mappings frame)
    (right : fill.path = path → Quiet s fill.object fill.start →
      s.bytes frame = filePage (s.objects fill.object) (fill.off + fill.page * 4096)) :
    FillSound path s (fill.next frame) :=
  { sound with
    inside := by simp [Fill.frame, Fill.next]
    loaded := by simp [Fill.next]
    stored := by simp [Fill.next]
    frame := by simp [Fill.frame, Fill.next]
    mapped := by
      intro i other member
      rcases List.mem_cons.mp member with new | old
      · obtain ⟨rfl, rfl⟩ := Prod.mk.inj new
        exact ⟨inside, here, right⟩
      · exact sound.mapped i other old }

theorem Carries.shrinks (same : SameFiles s after) (bytes : after.bytes = s.bytes)
    (frames : FrameInvariant s.frames) (kept : FrameInvariant after.frames)
    (shrinks : CacheShrinks s.frames after.frames)
    (more : ∀ frame, s.frames.mappings frame ⊆ after.frames.mappings frame)
    (own : ∀ frame, fill.frame = some frame →
    after.frames.mappings frame = s.frames.mappings frame) : Carries s after fill :=
  .sameFiles same
    (fun frame isFrame =>
    ⟨own frame isFrame, shrinks.uncached frames.cache kept.cache, by rw [bytes]⟩)
    fun _ frame _ => ⟨fun member => more frame member, by rw [bytes]⟩

theorem WorldSound.lookupMiss {frames : FrameState} (sound : WorldSound path s)
    (here : s.fills t = some fill) (kept : FrameInvariant frames)
    (shrinks : CacheShrinks s.frames frames) (mappings : frames.mappings = s.frames.mappings) :
    WorldSound path ((s.setFrames frames).setFill t { fill with stage := .missed }) := by
  have carries (other : Fill) :
    Carries s ((s.setFrames frames).setFill t { fill with stage := .missed }) other :=
    .shrinks ⟨rfl, rfl, rfl, rfl⟩ rfl sound.frames kept shrinks
      (fun frame => by rw [show ((s.setFrames frames).setFill t { fill with stage := .missed }).frames.mappings =
        s.frames.mappings from mappings]) (fun frame _ => congrFun mappings frame)
  refine sound.move kept (sound.files.shrinks shrinks) (fun ent cached isFile =>
    (sound.right ent (shrinks.pages ent cached) isFile).sameFiles ⟨rfl, rfl, rfl, rfl⟩ rfl) rfl
    (((sound.fills t fill here).idle rfl).carry (carries _)) (fun _ other _ _ => carries other) ?_
  refine sound.apart.update (fun f isFrame => by cases isFrame)
    (fun i f member => .inl ⟨fill, here, member⟩) ?_
  intro i f member isFrame
  cases isFrame

theorem WorldSound.lookupHit {frames : FrameState} {frame : Nat} (sound : WorldSound path s)
    (here : s.fills t = some fill) (inside : fill.page < fill.count)
    (kept : FrameInvariant (addMapping frame fill.mapping frames))
    (shrinks : CacheShrinks s.frames frames) (mappings : frames.mappings = s.frames.mappings)
    (isCached : s.frames.pcRev frame ≠ 0)
      (right : fill.path = path → Quiet s fill.object fill.start →
      s.bytes frame = filePage (s.objects fill.object) (fill.off + fill.page * 4096)) :
    WorldSound path ((s.setFrames (addMapping frame fill.mapping frames)).setFill t (fill.next frame)) := by
  have shrinks' : CacheShrinks s.frames (addMapping frame fill.mapping frames) :=
    shrinks.trans (.same rfl rfl rfl)
  have same : SameFiles s
    ((s.setFrames (addMapping frame fill.mapping frames)).setFill t (fill.next frame)) :=
    ⟨rfl, rfl, rfl, rfl⟩
  have more : ∀ other,
    s.frames.mappings other ⊆ (addMapping frame fill.mapping frames).mappings other := by
    intro other
    rw [← mappings]
    exact addMapping_subset frames other
  have notOwn (u : Nat) (other : Fill) (isOther : s.fills u = some other) :
    other.frame ≠ some frame := fun isFrame =>
    isCached ((sound.fills u other isOther).frame frame isFrame).2
  refine sound.move kept (sound.files.shrinks shrinks') (fun ent cached isFile =>
    (sound.right ent (shrinks'.pages ent cached) isFile).sameFiles same
      rfl) rfl ?_ (fun u other _ isOther => ?_) ?_
  · refine FillSound.next (((sound.fills t fill here).idle rfl).carry
      (.shrinks same rfl sound.frames kept shrinks' more fun f isFrame => by cases isFrame)) inside ?_
      (fun isPath quiet => right isPath (same.quiet quiet))
    change fill.mapping ∈ update frames.mappings frame (insert fill.mapping (frames.mappings frame))
      frame
    rw [update_self]
    exact Finset.mem_insert_self _ _
  · refine .shrinks same rfl sound.frames kept shrinks' more fun f isFrame => ?_
    have different : f ≠ frame := fun clash => notOwn u other isOther (clash ▸ isFrame)
    change update frames.mappings frame _ f = _
    rw [update_of_ne different, mappings]
  · refine sound.apart.update (fun f isFrame => by cases isFrame) (fun i f member => ?_)
      (fun i f _ isFrame => by cases isFrame)
    rcases List.mem_cons.mp member with new | old
    · obtain ⟨rfl, rfl⟩ := Prod.mk.inj new
      exact .inr ⟨rfl, fun u other _ isOther => notOwn u other isOther⟩
    · exact .inl ⟨fill, here, old⟩

theorem WorldSound.lookup {totalMemory : Nat} {memory tables mapped : Bool}
    (sound : WorldSound path s) (here : s.fills t = some fill) (inside : fill.page < fill.count)
    (unmapped : ∀ frame, fill.mapping ∉ s.frames.mappings frame) :
    WorldSound path (fillLookup totalMemory t memory tables mapped fill s) := by
  have before := sound.fills t fill here
  rw [fillLookup]
  split
  next =>
    obtain ⟨pg, isPg⟩ : ∃ pg, BitVec.ofNat 32 (fill.foff / 4096) = pg := ⟨_, rfl⟩
    obtain ⟨fsz, isFsz⟩ : ∃ fsz, BitVec.ofNat 64 fill.fsz = fsz := ⟨_, rfl⟩
    obtain ⟨fh, isFh⟩ : ∃ fh, lxmHash fill.path = fh := ⟨_, rfl⟩
    rw [isPg, isFsz, isFh]
    obtain ⟨-, mappings⟩ :=
      @pagingPcacheGet_frame s.frames totalMemory memory tables fh fsz pg sound.frames
    have shrinks := @pagingPcacheGet_shrinks s.frames totalMemory memory tables fh fsz pg
    have kept := @get_invariant s.frames totalMemory fill.mapping memory tables fh fsz pg
      sound.frames unmapped
    rw [get_eq] at kept
    dsimp only
    split
    next miss =>
      rw [if_pos miss] at kept
      exact sound.lookupMiss here kept shrinks mappings
    next hit =>
      rw [if_neg hit] at kept
      split
      next =>
        obtain ⟨ent, cached, isFile, isPage, isPhys⟩ := pagingPcacheGet_cached sound.frames hit
        obtain ⟨frame, isFrame⟩ : ∃ frame, ent.frame = frame := ⟨_, rfl⟩
        have found : (pagingPcacheGet totalMemory memory tables fh fsz pg s.frames).1 / 4096 = frame := by
          rw [isPhys, ← isFrame]
          rfl
        rw [found] at kept ⊢
        have isCached := cached.frame sound.frames.cache
        rw [isFrame] at isCached
        refine sound.lookupHit here inside kept shrinks mappings isCached fun isPath quiet => ?_
        obtain ⟨-, object, isObject, page⟩ := sound.right ent cached (isFile.trans (isFh.symm.trans (by rw [isPath])))
        obtain rfl := Option.some.inj (isObject.symm.trans quiet.current)
        rw [← isFrame, page, isPage, ← isPg, before.pageNumber inside, before.foff_eq inside]
      next =>
        obtain ⟨dropped, same⟩ := getDrop_invariant sound.frames hit
        exact sound.lookupMiss here dropped (shrinks.trans (pagingCowDrop_shrinks _ _)) same
  next => exact sound.setFill (before.idle rfl) (fun f isFrame => by cases isFrame) (fun page member => ⟨fill, here, member⟩)

theorem WorldSound.alloc {totalMemory frame : Nat} (sound : WorldSound path s)
    (here : s.fills t = some fill) (inside : fill.page < fill.count)
    (free : s.frames.inUse frame = false) :
    WorldSound path (fillAlloc totalMemory t frame fill s) := by
  have before := sound.fills t fill here
  obtain ⟨unmapped, uncached, -⟩ := sound.frames.unused free
  obtain ⟨frames, isFrames⟩ :
    ∃ frames, frameStep totalMemory (frameStep totalMemory s.frames (.alloc frame))
    (.mapFrame frame fill.mapping) = frames := ⟨_, rfl⟩
  have kept : FrameInvariant frames := isFrames ▸ mapFrame_invariant (alloc_invariant sound.frames)
    (update_self _ _ _) unmapped
  have shrinks : CacheShrinks s.frames frames := isFrames ▸ .same rfl rfl rfl
  have mappings : frames.mappings = update s.frames.mappings frame {fill.mapping} := by
    rw [← isFrames]
    change update s.frames.mappings frame (insert fill.mapping (s.frames.mappings frame)) = _
    rw [unmapped]
    rfl
  have unknown : Unknown s.fills frame := by
    intro u other isOther
    have theirs := sound.fills u other isOther
    refine ⟨fun isFrame => ?_, fun i member => ?_⟩
    · have once := (theirs.frame frame isFrame).1
      rw [unmapped] at once
      exact absurd once.symm (Finset.singleton_ne_empty _)
    · have page := (theirs.mapped i frame member).2.1
      rw [unmapped] at page
      exact absurd page (Finset.notMem_empty _)
  rw [fillAlloc, isFrames]
  obtain ⟨after, isAfter⟩ : ∃ after, ((s.setFrames frames).setBytes frame (padPage [])).setFill t
    { fill with stage := .read frame } = after := ⟨_, rfl⟩
  have same : SameFiles s after := isAfter ▸ ⟨rfl, rfl, rfl, rfl⟩
  have sameFrames : after.frames = frames := isAfter ▸ rfl
  have bytes : after.bytes = update s.bytes frame (padPage []) := isAfter ▸ rfl
  have fills : after.fills = update s.fills t (some { fill with stage := .read frame }) :=
    isAfter ▸ rfl
  have carries (other : Fill)
      (known : ∀ f, other.frame = some f ∨ (∃ i, (i, f) ∈ other.mapped) → f ≠ frame) :
      Carries s after other := by
    refine .sameFiles same (fun f isFrame => ?_) fun i f member => ?_
    · have different := known f (.inl isFrame)
      rw [sameFrames, mappings, bytes, update_of_ne different, update_of_ne different]
      exact ⟨rfl, shrinks.uncached sound.frames.cache kept.cache, rfl⟩
    · have different := known f (.inr ⟨i, member⟩)
      rw [sameFrames, mappings, bytes, update_of_ne different, update_of_ne different]
      exact ⟨id, rfl⟩
  have others (u : Nat) (other : Fill) (isOther : s.fills u = some other) :
    Carries s after other := by
    refine carries other fun f known => ?_
    rintro rfl
    obtain ⟨noFrame, noPage⟩ := unknown u other isOther
    rcases known with isFrame | ⟨i, member⟩
    · exact noFrame isFrame
    · exact noPage i member
  rw [isAfter]
  refine sound.move (t := t) (by rw [sameFrames]; exact kept)
    (by rw [sameFrames]; exact sound.files.shrinks shrinks)
    (fun ent cached isFile => ?_) fills ?_ (fun u other _ isOther => others u other isOther) ?_
  · rw [sameFrames] at cached
    have old := shrinks.pages ent cached
    refine (sound.right ent old isFile).sameFiles same ?_
    have different : ent.frame ≠ frame :=
      fun clash => old.frame sound.frames.cache (clash ▸ uncached)
    rw [bytes, update_of_ne different]
  · have carried := before.carry (others t fill here)
    exact { carried with
      inside := fun _ => inside
      loaded := by simp
      stored := by simp
      frame := by
        intro f isFrame
        obtain rfl := Option.some.inj isFrame
        rw [sameFrames, mappings, update_self]
        exact ⟨rfl, shrinks.uncached sound.frames.cache kept.cache uncached⟩ }
  · rw [fills]
    refine sound.apart.update (fun f isFrame => .inr ?_)
      (fun i f member => .inl ⟨fill, here, member⟩) ?_
    · exact Option.some.inj isFrame ▸ unknown
    · intro i f member isFrame
      obtain rfl := Option.some.inj isFrame
      exact (unknown t fill here).2 i member

theorem WorldSound.leave (sound : WorldSound path s) :
    WorldSound path { s with fills := update s.fills t none } := by
  have same : SameFiles s { s with fills := update s.fills t none } := ⟨rfl, rfl, rfl, rfl⟩
  have old (u : Nat) (other : Fill) (isOther : update s.fills t none u = some other) :
    s.fills u = some other := by
    rw [update_apply] at isOther
    split at isOther
    · cases isOther
    · exact isOther
  refine ⟨sound.named, sound.frames, sound.files,
    fun ent cached isFile => (sound.right ent cached isFile).sameFiles same rfl,
    fun u other isOther => (sound.fills u other (old u other isOther)).carry (.same same rfl rfl),
    ?_⟩
  intro u v fill other frame isFill isFrame isOther
  exact sound.apart u v fill other frame (old u fill isFill) isFrame (old v other isOther)

theorem WorldSound.store {frame again epoch : Nat} {buf : List UInt8} (sound : WorldSound path s)
    (here : s.fills t = some fill) (isStage : fill.stage = .loaded frame buf again epoch) :
    WorldSound path (fillStore t frame again epoch buf fill s) := by
  have before := sound.fills t fill here
  have isFrame : fill.frame = some frame := by rw [Fill.frame, isStage]
  obtain ⟨once, uncached⟩ := before.frame frame isFrame
  rw [fillStore]
  split
  next => exact sound
  next =>
    split
    next => exact sound.leave
    next =>
      obtain ⟨after, isAfter⟩ : ∃ after, (s.setBytes frame (padPage buf)).setFill t
        { fill with stage := .stored frame buf epoch } = after := ⟨_, rfl⟩
      have same : SameFiles s after := isAfter ▸ ⟨rfl, rfl, rfl, rfl⟩
      have frames : after.frames = s.frames := isAfter ▸ rfl
      have bytes : after.bytes = update s.bytes frame (padPage buf) := isAfter ▸ rfl
      have fills : after.fills = update s.fills t (some { fill with stage := .stored frame buf epoch }) :=
        isAfter ▸ rfl
      have pages (u : Nat) (other : Fill) (isOther : s.fills u = some other) (i f : Nat)
          (member : (i, f) ∈ other.mapped) : after.bytes f = s.bytes f := by
        have different : f ≠ frame := fun clash =>
          (sound.apart t u fill other frame here isFrame isOther).2 i (clash ▸ member)
        rw [bytes, update_of_ne different]
      rw [isAfter]
      refine sound.move (t := t) (by rw [frames]; exact sound.frames) (by rw [frames]; exact sound.files)
        (fun ent cached isFile => ?_) fills ?_ (fun u other notT isOther => ?_) ?_
      · rw [frames] at cached
        refine (sound.right ent cached isFile).sameFiles same ?_
        have different : ent.frame ≠ frame := fun clash => cached.frame sound.frames.cache (clash ▸ uncached)
        rw [bytes, update_of_ne different]
      · have carried : FillSound path after { fill with stage := .lookup } := by
          refine (before.idle rfl).carry (.sameFiles same (fun f noFrame => by cases noFrame) fun i f member => ?_)
          rw [frames]
          exact ⟨id, pages t fill here i f member⟩
        exact { carried with
          inside := fun _ => before.inside (by rw [isFrame]; rfl)
          loaded := by simp
          stored := by
            intro f got when stage
            obtain ⟨rfl, rfl, rfl⟩ := FillStage.stored.inj stage
            have ok := before.loaded frame buf again epoch isStage
            refine ⟨⟨ok.since, same.1 ▸ ok.past, ok.short, fun quiet => ?_⟩, ?_⟩
            · rw [same.2.2.2]
              exact ok.right (same.quiet quiet)
            · rw [bytes, update_self]
          frame := by
            intro f isF
            obtain rfl := Option.some.inj isF
            rw [frames]
            exact ⟨once, uncached⟩ }
      · refine .sameFiles same (fun f isF => ?_) fun i f member => ?_
        · have different : f ≠ frame := fun clash =>
            notT ((sound.apart t u fill other frame here isFrame isOther).1 (clash ▸ isF)).symm
          rw [frames, bytes, update_of_ne different]
          exact ⟨rfl, id, rfl⟩
        · rw [frames]
          exact ⟨id, pages u other isOther i f member⟩
      · rw [fills]
        refine sound.apart.update (fun f isF => .inl ⟨fill, here, ?_⟩) (fun i f member => .inl ⟨fill, here, member⟩) ?_
        · exact Option.some.inj isF ▸ isFrame
        · intro i f member isF
          obtain rfl := Option.some.inj isF
          exact (sound.apart t t fill fill frame here isFrame here).2 i member

theorem FillSound.storedPage {frame epoch : Nat} {buf : List UInt8} (sound : FillSound path s fill)
    (inside : fill.page < fill.count) (isStage : fill.stage = .stored frame buf epoch)
    (quiet : Quiet s fill.object fill.start) :
    s.bytes frame = filePage (s.objects fill.object) (fill.off + fill.page * 4096) := by
  obtain ⟨ok, bytes⟩ := sound.stored frame buf epoch isStage
  have since := ok.since
  have past := ok.past
  have same : epoch = s.epoch := by
    have := quiet.since
    omega
  rw [bytes, ok.right ⟨same, quiet.writers, quiet.current⟩, sound.foff_eq inside]

theorem WorldSound.complete {frames : FrameState} {frame epoch : Nat} {buf : List UInt8}
    (sound : WorldSound path s) (here : s.fills t = some fill) (inside : fill.page < fill.count)
    (isStage : fill.stage = .stored frame buf epoch) (kept : FrameInvariant frames)
    (files : FilesKnown frames) (mappings : frames.mappings = s.frames.mappings)
    (uncached : ∀ f ≠ frame, s.frames.pcRev f = 0 → frames.pcRev f = 0)
    (right : ∀ ent, Cached frames ent → ent.fh = lxmHash path → PageRight s ent) :
    WorldSound path ((s.setFrames frames).setFill t (fill.next frame)) := by
  have before := sound.fills t fill here
  have isFrame : fill.frame = some frame := by rw [Fill.frame, isStage]
  have same : SameFiles s ((s.setFrames frames).setFill t (fill.next frame)) := ⟨rfl, rfl, rfl, rfl⟩
  have sameMappings : ((s.setFrames frames).setFill t (fill.next frame)).frames.mappings =
    s.frames.mappings := mappings
  have carries (other : Fill) (notOwn : other.frame ≠ some frame) :
      Carries s ((s.setFrames frames).setFill t (fill.next frame)) other := by
    refine .sameFiles same (fun f isF => ⟨congrFun mappings f, uncached f ?_, rfl⟩) fun i f _ =>
      ⟨?_, rfl⟩
    · rintro rfl
      exact notOwn isF
    · rw [sameMappings]
      exact id
  refine sound.move kept files
    (fun ent cached isFile => (right ent cached isFile).sameFiles same rfl) rfl ?_
    (fun u other notT isOther => carries other fun theirs =>
      notT ((sound.apart t u fill other frame here isFrame isOther).1 theirs).symm) ?_
  · refine FillSound.next ((before.idle rfl).carry (carries _ (by simp [Fill.frame]))) inside ?_
      fun _ quiet =>
      before.storedPage inside isStage (same.quiet quiet)
    rw [sameMappings, (before.frame frame isFrame).1]
    exact Finset.mem_singleton_self _
  · refine sound.apart.update (fun f isF => by cases isF) (fun i f member => ?_)
      (fun i f _ isF => by cases isF)
    rcases List.mem_cons.mp member with new | old
    · obtain ⟨rfl, rfl⟩ := Prod.mk.inj new
      exact .inr ⟨rfl, fun u other notT isOther theirs =>
        notT ((sound.apart t u fill other f here isFrame isOther).1 theirs).symm⟩
    · exact .inl ⟨fill, here, old⟩

theorem WorldSound.put {totalMemory frame epoch : Nat} {buf : List UInt8} {memory tables : Bool}
    (sound : WorldSound path s) (here : s.fills t = some fill) (inside : fill.page < fill.count)
    (isStage : fill.stage = .stored frame buf epoch)
    (fresh : fill.path = path → OfferFresh s fill) :
    WorldSound path (fillPut totalMemory t frame buf memory tables fill s) := by
  have before := sound.fills t fill here
  have isFrame : fill.frame = some frame := by rw [Fill.frame, isStage]
  rw [fillPut]
  split
  next offers =>
    obtain ⟨pg, isPg⟩ : ∃ pg, BitVec.ofNat 32 (fill.foff / 4096) = pg := ⟨_, rfl⟩
    obtain ⟨fsz, isFsz⟩ : ∃ fsz, BitVec.ofNat 64 fill.fsz = fsz := ⟨_, rfl⟩
    obtain ⟨fh, isFh⟩ : ∃ fh, lxmHash fill.path = fh := ⟨_, rfl⟩
    rw [isPg, isFsz, isFh]
    have once : (s.frames.mappings (frame * 4096 / 4096)).card = 1 := by
      rw [Nat.mul_div_cancel _ (by decide), (before.frame frame isFrame).1]
      rfl
    have kept := @put_invariant s.frames (frame * 4096) totalMemory memory tables fh fsz pg
      sound.frames once
    have pages := fun ent =>
      @put_cached s.frames (frame * 4096) totalMemory memory tables fh fsz pg ent sound.frames
    refine sound.complete here inside isStage kept (put_files sound.files sound.frames)
      (put_frame sound.frames).2 ?_ ?_
    · intro f different old
      by_contra cached
      obtain ⟨stored, ofFrame⟩ := kept.cache.reverse cached
      rcases pages _ ⟨_, stored, rfl⟩ with known | new
      · have isCached := known.frame sound.frames.cache
        rw [ofFrame] at isCached
        exact isCached old
      · rw [new] at ofFrame
        exact different (ofFrame.symm.trans (Nat.mul_div_cancel _ (by decide)))
    · intro ent cached isFile
      rcases pages ent cached with known | rfl
      · exact sound.right ent known isFile
      · obtain ⟨quiet, since, current⟩ := fresh (before.distinct (isFh.trans isFile)) frame buf epoch isStage offers
        obtain ⟨ok, bytes⟩ := before.stored frame buf epoch isStage
        refine ⟨quiet, fill.object, current, ?_⟩
        have isF : (PcEnt.mk fh fsz (frame * 4096) pg).frame = frame := Nat.mul_div_cancel _ (by decide)
        rw [isF, bytes, ok.right ⟨since, quiet, current⟩]
        rw [← isPg, before.pageNumber inside]
  next =>
    exact sound.complete here inside isStage sound.frames sound.files rfl (fun _ _ => id)
      sound.right

theorem WorldSound.unmap {totalMemory frame : Nat} {mapping : Mapping} (sound : WorldSound path s)
    (there : mapping ∈ s.frames.mappings frame) (outside : ∀ t fill, s.fills t = some fill →
      ∀ i < fill.count, mapping ≠ ⟨fill.space, fill.at_ + i⟩) :
    WorldSound path (s.setFrames (frameStep totalMemory s.frames (.drop (frame * 4096) mapping))) := by
  have isFrame : frame * 4096 / 4096 = frame := Nat.mul_div_cancel _ (by decide)
  have spec := @drop_spec s.frames (frame * 4096) totalMemory mapping sound.frames
    (by rw [isFrame]; exact there)
  have shrinks := @drop_shrinks totalMemory mapping (frame * 4096) s.frames
  rw [isFrame] at spec
  obtain ⟨frames, isFrames⟩ :
    ∃ frames, frameStep totalMemory s.frames (.drop (frame * 4096) mapping) = frames :=
    ⟨_, rfl⟩
  rw [isFrames] at spec shrinks ⊢
  obtain ⟨kept, mappings, -⟩ := spec
  have same : SameFiles s (s.setFrames frames) := ⟨rfl, rfl, rfl, rfl⟩
  -- only the mapping itself goes
  have others (m : Mapping) (different : m ≠ mapping) (f : Nat) : m ∈ frames.mappings f ↔
    m ∈ s.frames.mappings f := by
    rw [mappings]
    change m ∈ update s.frames.mappings frame ((s.frames.mappings frame).erase mapping) f ↔ _
    by_cases isF : f = frame
    · rw [isF, update_self, Finset.mem_erase]
      exact ⟨fun both => both.2, fun member => ⟨different, member⟩⟩
    · rw [update_of_ne isF]
  refine ⟨sound.named, kept, sound.files.shrinks shrinks, fun ent cached isFile =>
    (sound.right ent (shrinks.pages ent cached) isFile).sameFiles same rfl, fun t fill isFill => ?_,
      sound.apart⟩
  have before := sound.fills t fill isFill
  refine before.carry (.sameFiles same (fun f isF => ?_) fun i f member => ?_)
  · refine ⟨?_, shrinks.uncached sound.frames.cache kept.cache, rfl⟩
    obtain ⟨once, -⟩ := before.frame f isF
    have own := outside t fill isFill fill.page (before.inside (by rw [isF]; rfl))
    change frames.mappings f = _
    rw [mappings]
    change update s.frames.mappings frame ((s.frames.mappings frame).erase mapping) f = _
    by_cases isHere : f = frame
    · rw [isHere] at once
      rw [once, Finset.mem_singleton] at there
      exact absurd there own
    · rw [update_of_ne isHere]
  · obtain ⟨inside, -, -⟩ := before.mapped i f member
    exact ⟨(others _ (outside t fill isFill i inside).symm f).mpr, rfl⟩

theorem uncached_of {frames before : FrameState} (kept : FrameInvariant frames)
    (was : FrameInvariant before) (shrinks : ∀ ent, Cached frames ent → Cached before ent)
    {frame : Nat} (old : before.pcRev frame = 0) : frames.pcRev frame = 0 := by
  by_contra cached
  obtain ⟨stored, ofFrame⟩ := kept.cache.reverse cached
  have known := (shrinks _ ⟨_, stored, rfl⟩).frame was.cache
  rw [ofFrame] at known
  exact known old

theorem WorldSound.disturb {frames : FrameState} (sound : WorldSound path s)
    (kept : FrameInvariant frames) (shrinks : ∀ ent, Cached frames ent → Cached s.frames ent)
    (files : FilesKnown frames) (mappings : frames.mappings = s.frames.mappings)
    (isFrames : after.frames = frames) (isFills : after.fills = s.fills)
    (bytes : after.bytes = s.bytes) (epoch : s.epoch ≤ after.epoch)
    (disturbed : after.epoch ≠ s.epoch ∨ after.writers ≠ [])
    (right : ∀ ent, Cached frames ent → ent.fh = lxmHash path → PageRight after ent) :
    WorldSound path after := by
  subst isFrames
  refine ⟨sound.named, kept, files, right, fun t fill isFill => ?_, isFills ▸ sound.apart⟩
  rw [isFills] at isFill
  refine (sound.fills t fill isFill).carry ⟨epoch, fun when past quiet => ?_,
    fun f _ => ⟨by rw [mappings], fun old => ?_, by rw [bytes]⟩, fun i f _ =>
    ⟨by rw [mappings]; exact id, by rw [bytes]⟩⟩
  · rcases disturbed with later | busy
    · have := quiet.since
      omega
    · exact absurd quiet.writers busy
  · exact uncached_of kept sound.frames shrinks old

theorem WorldSound.forgotten (sound : WorldSound path s) (busy : s.writers ≠ []) {ent : PcEnt}
    (cached : Cached s.frames ent) : ent.fh ≠ lxmHash path :=
  fun isFile => busy (sound.right ent cached isFile).1

theorem pcachePathChanged_spec (name : List UInt8) (sound : WorldSound path s) :
    ∃ frames, pcachePathChanged name s = s.setFrames frames ∧ FrameInvariant frames ∧
      FilesKnown frames ∧ frames.mappings = s.frames.mappings ∧
      (∀ ent, Cached frames ent → Cached s.frames ent) ∧
      (name ≠ [] → ∀ ent, Cached frames ent → ent.fh ≠ lxmHash name) := by
  rw [pcachePathChanged]
  split
  next none_ =>
    refine ⟨s.frames, rfl, sound.frames, sound.files, rfl, fun _ => id, fun named ent cached => ?_⟩
    have known := sound.files.known ent cached
    rw [none_.resolve_left named] at known
    cases known
  next =>
    obtain ⟨kept, mappings, -⟩ := @invalidate_spec s.frames (lxmHash name) sound.frames
    have gone := fun ent => @invalidate_cached s.frames (lxmHash name) ent sound.files sound.frames
    exact ⟨_, rfl, kept, invalidate_files sound.files sound.frames, mappings,
      fun ent cached => (gone ent cached).1, fun _ ent cached => (gone ent cached).2⟩

theorem WorldSound.modify {call : FileModify} (sound : WorldSound path s) :
    WorldSound path { pcachePathChanged path s with writers := s.writers ++ [call.changes], epoch := s.epoch + 1 } := by
  obtain ⟨frames, isFrames, kept, files, mappings, shrinks, gone⟩ :=
    pcachePathChanged_spec path sound
  rw [isFrames]
  exact sound.disturb kept shrinks files mappings rfl rfl rfl (Nat.le_succ _)
    (.inl (Nat.succ_ne_self _)) fun ent cached isFile => absurd isFile (gone sound.named ent cached)

theorem WorldSound.otherModify (name : List UInt8) (sound : WorldSound path s) :
    WorldSound path (pcachePathChanged name s) := by
  obtain ⟨frames, isFrames, kept, files, mappings, shrinks, -⟩ := pcachePathChanged_spec name sound
  rw [isFrames]
  have same : SameFiles s (s.setFrames frames) := ⟨rfl, rfl, rfl, rfl⟩
  refine ⟨sound.named, kept, files,
    fun ent cached isFile => (sound.right ent (shrinks ent cached) isFile).sameFiles same rfl,
    fun t fill isFill =>
      (sound.fills t fill isFill).carry (.sameFiles same (fun f _ => ⟨congrFun mappings f, fun old => ?_, rfl⟩)
      fun i f _ => ⟨?_, rfl⟩), sound.apart⟩
  · exact uncached_of kept sound.frames shrinks old
  · change _ → _ ∈ frames.mappings f
    rw [mappings]
    exact id

theorem WorldSound.change {w : Nat} {change : FileChange} {rest : List FileChange}
    (sound : WorldSound path s) (here : s.writers[w]? = some (change :: rest)) :
    WorldSound path { applyChange s change with writers := s.writers.set w rest } := by
  obtain ⟨inside, -⟩ := List.getElem?_eq_some_iff.mp here
  have busy : s.writers ≠ [] := List.length_pos_iff.mp (by omega)
  have still : s.writers.set w rest ≠ [] := by
    rw [← List.length_pos_iff, List.length_set]
    omega
  have kept : (applyChange s change).frames = s.frames ∧ (applyChange s change).fills = s.fills ∧
      (applyChange s change).bytes = s.bytes ∧ (applyChange s change).epoch = s.epoch := by
    cases change with
    | bytes => exact ⟨rfl, rfl, rfl, rfl⟩
    | name => exact ⟨rfl, rfl, rfl, rfl⟩
    | openCreate empties =>
        rw [applyChange]
        cases s.current with
        | none => exact ⟨rfl, rfl, rfl, rfl⟩
        | some object => cases empties <;> exact ⟨rfl, rfl, rfl, rfl⟩
  obtain ⟨frames, fills, bytes, epoch⟩ := kept
  exact sound.disturb sound.frames (fun _ => id) sound.files rfl frames fills bytes
    (Nat.le_of_eq epoch.symm) (.inr still) fun ent cached isFile =>
    absurd isFile (sound.forgotten busy cached)

theorem WorldSound.finish {w : Nat} (sound : WorldSound path s) :
    WorldSound path { s with writers := s.writers.eraseIdx w, epoch := s.epoch + 1 } := by
  refine sound.disturb sound.frames (fun _ => id) sound.files rfl rfl rfl rfl (Nat.le_succ _)
    (.inl (Nat.succ_ne_self _)) fun ent cached isFile => ?_
  obtain ⟨quiet, right⟩ := sound.right ent cached isFile
  exact ⟨by rw [quiet]; rfl, right⟩

theorem WorldSound.otherWrite {object at_ : Nat} {data : List UInt8} (sound : WorldSound path s)
    (other : s.current ≠ some object) :
    WorldSound path (applyChange s (.bytes object at_ data)) := by
  have kept (o : Nat) (isCurrent : s.current = some o) :
      (applyChange s (.bytes object at_ data)).objects o = s.objects o := by
    refine update_of_ne ?_ _ _
    rintro rfl
    exact other isCurrent
  refine ⟨sound.named, sound.frames, sound.files, fun ent cached isFile => ?_,
    fun t fill isFill => ?_, sound.apart⟩
  · obtain ⟨quiet, o, isCurrent, page⟩ := sound.right ent cached isFile
    exact ⟨quiet, o, isCurrent, by rw [kept o isCurrent]; exact page⟩
  · refine (sound.fills t fill isFill).carry ⟨Nat.le_refl _, fun epoch _ quiet => ?_,
      fun _ _ => ⟨rfl, id, rfl⟩, fun _ _ _ => ⟨id, rfl⟩⟩
    exact ⟨⟨quiet.since, quiet.writers, quiet.current⟩, kept _ quiet.current⟩

end Carry

section Runs

variable {path : List UInt8} {totalMemory : Nat} {s : FillWorld}

theorem WorldSound.atStage {t : Nat} {step : Fill → FillWorld} (sound : WorldSound path s)
    (steps : ∀ fill, s.fills t = some fill → fill.page < fill.count → WorldSound path (step fill)) :
    WorldSound path (atStage s t step) := by
  rw [Cos.Linux.atStage]
  split
  next => exact sound
  next fill isFill =>
    split
    next inside => exact steps fill isFill inside
    next => exact sound

theorem fillStep_sound (label : FillLabel) (sound : WorldSound path s)
    (allowed : fillAllowed path s label) : WorldSound path (fillStep path totalMemory s label) := by
  cases label with
  | begins t name object space at_ count off stat writable shared cbuf =>
      exact sound.begins allowed.1 allowed.2.2.1 allowed.2.2.2
  | lookup t memory tables mapped =>
      refine sound.atStage fun fill isFill inside => ?_
      split
      next => exact sound.lookup isFill inside (allowed fill isFill)
      next => exact sound
  | alloc t frame =>
      refine sound.atStage fun fill isFill inside => ?_
      split
      next => exact sound.alloc isFill inside allowed
      next => exact sound
  | readChunk t ok =>
      refine sound.atStage fun fill isFill _ => ?_
      split
      next isStage => exact sound.readChunk isFill isStage
      next => exact sound
  | readPage t ok =>
      refine sound.atStage fun fill isFill _ => ?_
      split
      next isStage => exact sound.readPage isFill isStage
      next => exact sound
  | reread t ok =>
      refine sound.atStage fun fill isFill _ => ?_
      split
      next isStage => exact sound.reread isFill isStage
      next => exact sound
  | store t =>
      refine sound.atStage fun fill isFill _ => ?_
      split
      next isStage => exact sound.store isFill isStage
      next => exact sound
  | put t memory tables =>
      refine sound.atStage fun fill isFill inside => ?_
      split
      next isStage => exact sound.put isFill inside isStage (allowed fill isFill)
      next => exact sound
  | leave t => exact sound.leave
  | unmap frame mapping => exact sound.unmap allowed.1 allowed.2
  | modify call => exact sound.modify
  | change w =>
      rw [fillStep]
      split
      next here => exact sound.change here
      next => exact sound
  | finish w => exact sound.finish
  | otherModify name => exact sound.otherModify name
  | otherWrite object at_ data => exact sound.otherWrite allowed

/-- Before the first mapping: nothing is cached and no call is in progress. -/
def fillBoot (used : Nat → Bool) (current : Option Nat) (objects : Nat → List UInt8) (next : Nat) :
    FillWorld where
  frames := frameBoot used
  bytes := fun _ => []
  current := current
  objects := objects
  next := next
  fills := fun _ => none
  writers := []
  epoch := 0

theorem fillBoot_sound (named : path ≠ []) (used : Nat → Bool) (current : Option Nat)
    (objects : Nat → List UInt8) (next : Nat) :
    WorldSound path (fillBoot used current objects next) where
  named := named
  frames := frameBoot_invariant used
  files := by
    refine ⟨fun ent cached => ?_, List.nodup_nil⟩
    obtain ⟨idx, ⟨nonzero, inside, -⟩, -⟩ := cached
    exact absurd (Nat.le_zero.mp inside) nonzero
  right := by
    rintro ent ⟨idx, ⟨nonzero, inside, -⟩, -⟩
    exact absurd (Nat.le_zero.mp inside) nonzero
  fills := fun _ _ wrong => by cases wrong
  apart := fun _ _ _ _ _ wrong => by cases wrong

end Runs

/-- `/f` and `/g`. -/
def pathF : List UInt8 := [47, 102]
def pathG : List UInt8 := [47, 103]

/-- A mapping of the first page of a file of one byte, up to the offer of the page. -/
def mapsOnce (t : Nat) (name : List UInt8) (object frame : Nat) : List FillLabel :=
  [.begins t name object t 16 1 0 (some 1) false false false, .lookup t true true true,
    .alloc t frame, .readPage t true, .store t]

/-- `/f` has the byte 1 and `/g` the byte 7. -/
def oneByte : FillWorld :=
  fillBoot (fun _ => false) (some 0) (fun object => if object = 0 then [1] else [7]) 2

/-- Both files are mapped and their pages cached. -/
def mapsBoth : List FillLabel :=
  mapsOnce 3 pathG 1 4 ++ [.put 3 true true] ++ mapsOnce 1 pathF 0 5 ++
    [.otherModify [47], .put 1 true true]

/-- `/g` is mapped and cached, and `/f` is about to be looked up. -/
def otherMapped : List FillLabel :=
  mapsOnce 3 pathG 1 4 ++ [.put 3 true true, .begins 1 pathF 0 1 16 1 0 (some 1) false false false]

theorem otherMapped_mappings :
    (runSteps (fillStep pathF (2 ^ 30)) oneByte otherMapped).frames.mappings =
    update (fun _ => ∅) 4 {⟨3, 16⟩} := rfl

end Cos.Linux
