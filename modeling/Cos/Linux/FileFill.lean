import Cos.Linux.FileDescriptors
import Cos.Paging.CacheFiles

/-! # Filling file mappings

The steps of `sys_mmap` on a file: for each page a lookup in the cache of file pages, or a new
frame that is filled from the file and offered to the cache.  They interleave with the calls that
modify the file, which make the cache forget the path before they do.  One path is followed;
`current` is the file that it names.  The other paths are filled and forgotten in the same cache,
which compares only their hashes.
-/

namespace Cos.Linux

open Cos.Lib Cos.Paging
open Function (update)

def lxmHash (s : List UInt8) : BitVec 64 :=
  s.foldl (fun h c => (h ^^^ BitVec.ofNat 64 c.toNat) * 1099511628211#64) 1469598103934665603#64 |||
    1#64

def padPage (bytes : List UInt8) : List UInt8 := bytes ++ List.replicate (4096 - bytes.length) 0

def filePage (contents : List UInt8) (foff : Nat) : List UInt8 :=
  padPage ((contents.drop foff).take 4096)

/-- A piece of the file that was read at once; `epoch` says when. -/
structure Chunk where
  cstart : Nat
  creq : Nat
  bytes : List UInt8
  epoch : Nat
deriving DecidableEq, Repr

/-- Where the fill is with its page: the lookup, the page to be made, the frame to be loaded, the
bytes that were read (with the number of times a page of zeros was read again), the frame that has
them. -/
inductive FillStage where
  | lookup
  | missed
  | read (frame : Nat)
  | loaded (frame : Nat) (buf : List UInt8) (again epoch : Nat)
  | stored (frame : Nat) (buf : List UInt8) (epoch : Nat)
deriving DecidableEq, Repr

/-- A fill of `sys_mmap` through a descriptor of `object`, opened under `path`.  `start` is the
epoch it began in and `mapped` the frames of the pages it has mapped. -/
structure Fill where
  path : List UInt8
  object : Nat
  space : Nat
  at_ : Nat
  count : Nat
  off : Nat
  fsz : Nat
  usePc : Bool
  cbuf : Bool
  page : Nat
  chunk : Option Chunk
  stage : FillStage
  start : Nat
  mapped : List (Nat × Nat)
deriving DecidableEq, Repr

def Fill.foff (fill : Fill) : Nat := (fill.off + fill.page * 4096) % 2 ^ 64

def Fill.mapping (fill : Fill) : Mapping := ⟨fill.space, fill.at_ + fill.page⟩

def Fill.next (fill : Fill) (frame : Nat) : Fill :=
  { fill with page := fill.page + 1, stage := .lookup, mapped := (fill.page, frame) :: fill.mapped }

inductive FileChange where
  | bytes (object at_ : Nat) (data : List UInt8)
  | openCreate (empties : Bool)
  | name (object : Option Nat)
deriving DecidableEq, Repr

inductive FileModify where
  | write (object at_ : Nat) (data : List UInt8)
  | ftruncate (object : Nat) (pieces : List (Nat × Nat))
  | unlink
  | renameAway
  | renameOver (object : Nat)
  | openWrite (empties : Bool)
deriving DecidableEq, Repr

def FileModify.changes : FileModify → List FileChange
  | .write object at_ data => [.bytes object at_ data]
  | .ftruncate object pieces => pieces.map fun (at_, n) => .bytes object at_ (List.replicate n 0)
  | .unlink => [.name none]
  | .renameAway => [.name none]
  -- the file that is there is removed first
  | .renameOver object => [.name none, .name (some object)]
  | .openWrite empties => [.openCreate empties]

/-- The frames and their bytes, the file that the path names, the files' bytes, the fills by thread
and, for every call in progress, the changes it has still to make.  `epoch` counts the beginnings
and ends of such calls. -/
structure FillWorld where
  frames : FrameState
  bytes : Nat → List UInt8
  current : Option Nat
  objects : Nat → List UInt8
  next : Nat
  fills : Nat → Option Fill
  writers : List (List FileChange)
  epoch : Nat

def FillWorld.setFill (s : FillWorld) (t : Nat) (fill : Fill) : FillWorld :=
  { s with fills := update s.fills t (some fill) }

def FillWorld.setFrames (s : FillWorld) (frames : FrameState) : FillWorld :=
  { s with frames := frames }

def FillWorld.setBytes (s : FillWorld) (frame : Nat) (bytes : List UInt8) : FillWorld :=
  { s with bytes := update s.bytes frame bytes }

section Steps

variable (path : List UInt8) (totalMemory : Nat)

def fillBegin (t : Nat) (name : List UInt8) (object space at_ count off : Nat) (stat : Option Nat)
    (writable shared cbuf : Bool) (s : FillWorld) : FillWorld :=
  let fsz := stat.getD (2 ^ 64 - 1)
  s.setFill t {
    path := name, object, space, at_, count, off, fsz, cbuf
    usePc := !writable && !shared && fsz != 2 ^ 64 - 1 && decide (0 < fsz)
    page := 0, chunk := none, stage := .lookup, start := s.epoch, mapped := [] }

/-- The lookup in the cache; `mapped` says whether `paging_map_page` maps what is found. -/
def fillLookup (t : Nat) (memory tables mapped : Bool) (fill : Fill) (s : FillWorld) : FillWorld :=
  if fill.usePc ∧ fill.foff < fill.fsz then
    let pg := BitVec.ofNat 32 (fill.foff / 4096)
    let found := pagingPcacheGet totalMemory memory tables (lxmHash fill.path) (BitVec.ofNat 64 fill.fsz) pg s.frames
    if found.1 = 0 then (s.setFrames found.2).setFill t { fill with stage := .missed }
    else if mapped then
      (s.setFrames (addMapping (found.1 / 4096) fill.mapping found.2)).setFill t (fill.next (found.1 / 4096))
    else (s.setFrames (pagingCowDrop found.1 found.2).2).setFill t { fill with stage := .missed }
  else s.setFill t { fill with stage := .missed }

/-- `task_alloc_page`. -/
def fillAlloc (t frame : Nat) (fill : Fill) (s : FillWorld) : FillWorld :=
  let frames := frameStep totalMemory (frameStep totalMemory s.frames (.alloc frame)) (.mapFrame frame fill.mapping)
  ((s.setFrames frames).setBytes frame (padPage [])).setFill t { fill with stage := .read frame }

/-- `cos_fd_pread` of the file; `ok` is whether the medium can be read. -/
def filePread (contents : List UInt8) (foff len : Nat) (ok : Bool) : Option (List UInt8) :=
  if ok ∧ foff < 2 ^ 63 then some ((contents.drop foff).take (min len ioChunk)) else none

def Fill.needsChunk (fill : Fill) : Bool :=
  fill.cbuf && match fill.chunk with
    | none => true
    | some chunk => decide (fill.foff < chunk.cstart ∨ chunk.cstart + chunk.creq ≤ fill.foff)

def fillReadChunk (t : Nat) (ok : Bool) (fill : Fill) (s : FillWorld) : FillWorld :=
  if fill.needsChunk then
    let want := min ((fill.count - fill.page) * 4096) ioChunk
    let got := (filePread (s.objects fill.object) fill.foff want ok).getD []
    s.setFill t { fill with chunk := some ⟨fill.foff, want, got, s.epoch⟩ }
  else s

def Fill.fromChunk (fill : Fill) : Option (List UInt8 × Nat) :=
  match fill.chunk with
  | none => none
  | some chunk =>
      if chunk.cstart ≤ fill.foff ∧ fill.foff - chunk.cstart + 4096 ≤ chunk.bytes.length then
        some ((chunk.bytes.drop (fill.foff - chunk.cstart)).take 4096, chunk.epoch)
      else none

/-- The page comes from the piece, or is read alone; a read that fails is made again. -/
def fillReadPage (t frame : Nat) (ok : Bool) (fill : Fill) (s : FillWorld) : FillWorld :=
  if fill.needsChunk then s
  else
    match (if fill.cbuf then fill.fromChunk else none) with
    | some (buf, epoch) => s.setFill t { fill with stage := .loaded frame buf 0 epoch }
    | none =>
        match filePread (s.objects fill.object) fill.foff 4096 ok with
        | some buf => s.setFill t { fill with stage := .loaded frame buf 0 s.epoch }
        | none => s

/-- A full page of zeros before the end of the file is read up to three times more. -/
def Fill.doubts (fill : Fill) (buf : List UInt8) (again : Nat) : Bool :=
  decide (buf.length = 4096) && decide (fill.foff < fill.fsz) && buf.all (· == 0) &&
    decide (again < 3)

def fillReread (t frame again epoch : Nat) (buf : List UInt8) (ok : Bool) (fill : Fill)
    (s : FillWorld) : FillWorld :=
  if fill.doubts buf again then
    match filePread (s.objects fill.object) fill.foff 4096 ok with
    | none => s.setFill t { fill with stage := .loaded frame buf 3 epoch }
    | some got =>
        let again := if got.length = 4096 then again + 1 else 3
        s.setFill t { fill with stage := .loaded frame (got ++ buf.drop got.length) again s.epoch }
  else s

/-- The page is stored; one without bytes before the end of the file is an error. -/
def fillStore (t frame again epoch : Nat) (buf : List UInt8) (fill : Fill) (s : FillWorld) :
    FillWorld :=
  if fill.doubts buf again then s
  else if buf = [] ∧ fill.foff < fill.fsz then { s with fills := update s.fills t none }
  else (s.setBytes frame (padPage buf)).setFill t { fill with stage := .stored frame buf epoch }

/-- The page holds what the file has: it is offered to the other processes. -/
def Fill.offers (fill : Fill) (buf : List UInt8) : Bool :=
  fill.usePc && decide (fill.foff < fill.fsz) &&
    (decide (buf.length = 4096) ||
    (decide (0 < buf.length) && decide (fill.fsz ≤ fill.foff + buf.length)))

def fillPut (t frame : Nat) (buf : List UInt8) (memory tables : Bool) (fill : Fill)
    (s : FillWorld) : FillWorld :=
  let pg := BitVec.ofNat 32 (fill.foff / 4096)
  let frames := if fill.offers buf then
      frameStep totalMemory s.frames (.put (lxmHash fill.path) (BitVec.ofNat 64 fill.fsz) pg (frame * 4096) memory tables)
    else s.frames
  (s.setFrames frames).setFill t (fill.next frame)

def pcachePathChanged (s : FillWorld) : FillWorld :=
  if path = [] ∨ s.frames.pcFiles = [] then s
    else s.setFrames (pagingPcacheInvalidateFile (lxmHash path) s.frames)

def applyChange (s : FillWorld) : FileChange → FillWorld
  | .bytes object at_ data =>
      { s with objects := update s.objects object (writeAt (s.objects object) at_ data) }
  | .openCreate empties =>
      match s.current with
      | none => { s with current := some s.next, objects := update s.objects s.next [], next := s.next + 1 }
      | some object => if empties then { s with objects := update s.objects object [] } else s
  | .name object => { s with current := object }

inductive FillLabel where
  | begins (t : Nat) (name : List UInt8) (object space at_ count off : Nat) (stat : Option Nat)
      (writable shared cbuf : Bool)
  | lookup (t : Nat) (memory tables mapped : Bool)
  | alloc (t frame : Nat)
  | readChunk (t : Nat) (ok : Bool)
  | readPage (t : Nat) (ok : Bool)
  | reread (t : Nat) (ok : Bool)
  | store (t : Nat)
  | put (t : Nat) (memory tables : Bool)
  /-- The call returns, with its pages or with an error. -/
  | leave (t : Nat)
  | unmap (frame : Nat) (mapping : Mapping)
  /-- A call that modifies the file begins: its path is forgotten. -/
  | modify (call : FileModify)
  | change (w : Nat)
  | finish (w : Nat)
  /-- A call that modifies what another path names begins: that path is forgotten. -/
  | otherModify (name : List UInt8)
  /-- A write through a descriptor that has another path. -/
  | otherWrite (object at_ : Nat) (data : List UInt8)

def atStage (s : FillWorld) (t : Nat) (step : Fill → FillWorld) : FillWorld :=
  match s.fills t with
  | none => s
  | some fill => if fill.page < fill.count then step fill else s

def fillStep (s : FillWorld) : FillLabel → FillWorld
  | .begins t name object space at_ count off stat writable shared cbuf =>
      fillBegin t name object space at_ count off stat writable shared cbuf s
  | .lookup t memory tables mapped => atStage s t fun fill =>
      match fill.stage with
      | .lookup => fillLookup totalMemory t memory tables mapped fill s
      | _ => s
  | .alloc t frame => atStage s t fun fill =>
      match fill.stage with
      | .missed => fillAlloc totalMemory t frame fill s
      | _ => s
  | .readChunk t ok => atStage s t fun fill =>
      match fill.stage with
      | .read _ => fillReadChunk t ok fill s
      | _ => s
  | .readPage t ok => atStage s t fun fill =>
      match fill.stage with
      | .read frame => fillReadPage t frame ok fill s
      | _ => s
  | .reread t ok => atStage s t fun fill =>
      match fill.stage with
      | .loaded frame buf again epoch => fillReread t frame again epoch buf ok fill s
      | _ => s
  | .store t => atStage s t fun fill =>
      match fill.stage with
      | .loaded frame buf again epoch => fillStore t frame again epoch buf fill s
      | _ => s
  | .put t memory tables => atStage s t fun fill =>
      match fill.stage with
      | .stored frame buf _ => fillPut totalMemory t frame buf memory tables fill s
      | _ => s
  | .leave t => { s with fills := update s.fills t none }
  | .unmap frame mapping =>
    s.setFrames (frameStep totalMemory s.frames (.drop (frame * 4096) mapping))
  | .modify call =>
      { pcachePathChanged path s with writers := s.writers ++ [call.changes], epoch := s.epoch + 1 }
  | .change w =>
      match s.writers[w]? with
      | some (change :: rest) => { applyChange s change with writers := s.writers.set w rest }
      | _ => s
  | .finish w => { s with writers := s.writers.eraseIdx w, epoch := s.epoch + 1 }
  | .otherModify name => pcachePathChanged name s
  | .otherWrite object at_ data => applyChange s (.bytes object at_ data)

end Steps

end Cos.Linux
