import Cos.Lib.Simulation
import Mathlib

/-! # Descriptors of a regular file

The Linux layer's descriptors of one file: open descriptions with an offset of their own, over
native descriptors that have another one.  The native calls read and write the bytes of the file;
the size in the directory is brought up to date only when a native descriptor is synced.
-/

namespace Cos.Linux

open Cos.Lib

inductive Access where
  | rdonly
  | wronly
  | rdwr
deriving DecidableEq, Repr

/-- The modes of `cos_fd_open`. -/
inductive CosMode where
  | rdonly
  | wronlyCreate
  | wronlyAppend
  | rdwrCreate
deriving DecidableEq, Repr

def CosMode.reads : CosMode → Bool
  | .rdonly | .rdwrCreate => true
  | .wronlyCreate | .wronlyAppend => false

def CosMode.writes : CosMode → Bool
  | .rdonly => false
  | .wronlyCreate | .wronlyAppend | .rdwrCreate => true

structure NativeFd where
  mode : CosMode
  fptr : Nat
deriving DecidableEq, Repr

/-- `ofd_t` of kind `FD_FILE`. -/
structure FileOfd where
  cosfd : Nat
  pos : Nat
  acc : Access
  append : Bool
deriving DecidableEq, Repr

/-- The file, the size its directory entry has, the native descriptors, the open descriptions and
the descriptor slots of the process. -/
structure FileState where
  contents : List UInt8
  dirSize : Nat
  natives : List NativeFd
  ofds : List FileOfd
  slots : List (Option Nat)
deriving DecidableEq, Repr

def writeAt (contents : List UInt8) (at_ : Nat) (data : List UInt8) : List UInt8 :=
  contents.take at_ ++
    (List.replicate (at_ - contents.length) 0 ++ (data ++ contents.drop (at_ + data.length)))

/-- `COS_FD_IO_CHUNK_MAX`, also the piece of `user_read` and `user_write`. -/
def ioChunk : Nat := 65536

/-- `cos_fd_pread`; `none` is the error. -/
def cosFdPread (fd at_ len : Nat) (s : FileState) : Option (List UInt8) × FileState :=
  match (s.natives[fd]?).filter fun native => native.mode.reads && decide (at_ < 2 ^ 63) with
  | none => (none, s)
  | some native =>
      let got := (s.contents.drop at_).take (min len ioChunk)
      (some got, { s with natives := s.natives.set fd { native with fptr := at_ + got.length } })

/-- The bytes go to an offset; an append-mode descriptor is synced at once. -/
def nativePut (fd at_ : Nat) (native : NativeFd) (data : List UInt8) (s : FileState) : FileState :=
  let contents := writeAt s.contents at_ data
  { s with
    contents := contents
    dirSize := if native.mode = .wronlyAppend then contents.length else s.dirSize
    natives := s.natives.set fd { native with fptr := at_ + data.length } }

/-- `cos_fd_pwrite`, with the number of bytes written. -/
def cosFdPwrite (fd at_ : Nat) (data : List UInt8) (s : FileState) : Option Nat × FileState :=
  match (s.natives[fd]?).filter fun native => native.mode.writes && decide (at_ < 2 ^ 63) with
  | none => (none, s)
  | some native => (some (data.take ioChunk).length, nativePut fd at_ native (data.take ioChunk) s)

/-- `cos_fd_write`: at the end of the file in append mode, else at the native offset. -/
def cosFdWrite (fd : Nat) (data : List UInt8) (s : FileState) : Option Nat × FileState :=
  match (s.natives[fd]?).filter fun native => native.mode.writes with
  | none => (none, s)
  | some native =>
      let at_ := if native.mode = .wronlyAppend then s.contents.length else native.fptr
      (some (data.take ioChunk).length, nativePut fd at_ native (data.take ioChunk) s)

def cosFdLseek (fd at_ : Nat) (s : FileState) : FileState :=
  { s with natives := s.natives.modify fd fun native => { native with fptr := at_ } }

def ofdRead (k n : Nat) (pos : Option Nat) (s : FileState) : Option (List UInt8) × FileState :=
  match s.ofds[k]? with
  | none => (none, s)
  | some o =>
      let read := cosFdPread o.cosfd (pos.getD o.pos) n s
      match read.1 with
      | none => (none, read.2)
      | some got =>
          (some got, if pos.isSome then read.2
            else { read.2 with ofds := read.2.ofds.set k { o with pos := o.pos + got.length } })

def ofdWrite (k : Nat) (data : List UInt8) (pos : Option Nat) (s : FileState) :
    Option Nat × FileState :=
  match s.ofds[k]? with
  | none => (none, s)
  | some o =>
      let written := if o.append then cosFdWrite o.cosfd data s else cosFdPwrite o.cosfd (pos.getD o.pos) data s
      match written.1 with
      | none => (none, written.2)
      | some n =>
          (some n, if pos.isSome then written.2
            else { written.2 with ofds := written.2.ofds.set k { o with pos := o.pos + n } })

/-- Whether the buffer of a piece can be allocated and the user's memory be reached. -/
structure PieceLuck where
  memory : Nat → Bool
  access : Nat → Bool

structure FileResult where
  value : Int
  data : List UInt8
deriving DecidableEq, Repr

def FileResult.error (code : Int) : FileResult := ⟨code, []⟩

/-- The loop of `user_read`, from piece `i` with the bytes read so far. -/
def readLoop (luck : PieceLuck) (k len : Nat) (pos : Option Nat) :
    Nat → Nat → List UInt8 → FileState → FileResult × FileState
  | 0, _, done, s => (⟨done.length, done⟩, s)
  | rounds + 1, i, done, s =>
      if len ≤ done.length then (⟨done.length, done⟩, s)
      else
        let n := min (len - done.length) ioChunk
        if luck.memory i = false then (if done = [] then .error (-12) else ⟨done.length, done⟩, s)
        else
          let read := ofdRead k n (pos.map (· + done.length)) s
          match (read.1).filter fun got => got = [] ∨ luck.access i with
          | none => (if done = [] then .error (if read.1.isSome then -14 else -9) else ⟨done.length, done⟩, read.2)
          | some got =>
              if got.length < n then (⟨(done ++ got).length, done ++ got⟩, read.2)
              else readLoop luck k len pos rounds (i + 1) (done ++ got) read.2

/-- The loop of `user_write`, with the number of bytes written so far. -/
def writeLoop (luck : PieceLuck) (k : Nat) (data : List UInt8) (pos : Option Nat) :
    Nat → Nat → Nat → FileState → FileResult × FileState
  | 0, _, done, s => (⟨done, []⟩, s)
  | rounds + 1, i, done, s =>
      if data.length ≤ done then (⟨done, []⟩, s)
      else
        let n := min (data.length - done) ioChunk
        if luck.memory i = false then (if done = 0 then .error (-12) else ⟨done, []⟩, s)
        else if luck.access i = false then (if done = 0 then .error (-14) else ⟨done, []⟩, s)
        else
          let written := ofdWrite k ((data.drop done).take n) (pos.map (· + done)) s
          match written.1 with
          | none => (if done = 0 then .error (-9) else ⟨done, []⟩, written.2)
          | some w =>
              if w < n then (⟨done + w, []⟩, written.2)
              else writeLoop luck k data pos rounds (i + 1) (done + w) written.2

def FileState.find (s : FileState) (fd : Nat) : Option (Nat × FileOfd) :=
  match (s.slots[fd]?).join with
  | none => none
  | some k => (s.ofds[k]?).map fun o => (k, o)

def userRead (luck : PieceLuck) (fd len : Nat) (pos : Option Nat) (s : FileState) :
    FileResult × FileState :=
  match s.find fd with
  | none => (.error (-9), s)
  | some (k, o) =>
      if len = 0 then (⟨0, []⟩, s)
      else if o.acc = .wronly then (.error (-9), s)
      else readLoop luck k len pos len 0 [] s

def userWrite (luck : PieceLuck) (fd : Nat) (data : List UInt8) (pos : Option Nat) (s : FileState) :
    FileResult × FileState :=
  match s.find fd with
  | none => (.error (-9), s)
  | some (k, o) =>
      if data.length = 0 then (⟨0, []⟩, s)
      else if o.acc = .rdonly then (.error (-9), s)
      else writeLoop luck k data pos data.length 0 0 s

/-- The native mode `do_open` chooses for a file that exists. -/
def openMode (acc : Access) (append trunc creat : Bool) : CosMode :=
  if acc ≠ .rdonly ∨ creat then
    if append then .wronlyAppend
    else if trunc then if acc = .rdwr then .rdwrCreate else .wronlyCreate
    else .rdwrCreate
  else .rdonly

/-- `cos_fd_open`: only the write-only creating mode empties the file. -/
def cosFdOpen (mode : CosMode) (s : FileState) : FileState :=
  let contents := if mode = .wronlyCreate then [] else s.contents
  -- every open syncs all descriptors first
  { s with
    contents := contents
    dirSize := contents.length
    natives := s.natives ++ [⟨mode, if mode = .wronlyAppend then contents.length else 0⟩] }

/-- `fd_alloc_from`. -/
def fdAlloc (slots : List (Option Nat)) : Option Nat := slots.findIdx? Option.isNone

/-- `do_open`; `opened` says whether the native descriptor could be opened, `memory` whether there
is memory for the description. -/
def doOpen (acc : Access) (append trunc creat opened memory : Bool) (s : FileState) :
    FileResult × FileState :=
  match fdAlloc s.slots with
  | none => (.error (-24), s)
  | some slot =>
      if opened = false then (.error (-2), { s with dirSize := s.contents.length })
      else
        let s := cosFdOpen (openMode acc append trunc creat) s
        if memory = false then (.error (-12), s)
        else
          (⟨slot, []⟩, { s with
            ofds := s.ofds ++ [⟨s.natives.length - 1, 0, acc, append⟩]
            slots := s.slots.set slot (some s.ofds.length) })

/-- `dup`. -/
def fileDup (fd : Nat) (s : FileState) : FileResult × FileState :=
  match (s.slots[fd]?).join with
  | none => (.error (-9), s)
  | some k =>
      match fdAlloc s.slots with
      | none => (.error (-24), s)
      | some slot => (⟨slot, []⟩, { s with slots := s.slots.set slot (some k) })

/-- The offset of an `lseek`; a sum that leaves the range of a signed word is negative. -/
def seekTo (pos size : Nat) (off : Int) (whence : Nat) : Option Nat :=
  let np := match whence with
    | 0 => some off
    | 1 => some (pos + off)
    | 2 => some (size + off)
    | _ => none
  (np.filter fun np => 0 ≤ np ∧ np < 2 ^ 63).map Int.toNat

/-- `lseek`; the size is the one in the directory. -/
def fileLseek (fd : Nat) (off : Int) (whence : Nat) (s : FileState) : FileResult × FileState :=
  match s.find fd with
  | none => (.error (-9), s)
  | some (k, o) =>
      match seekTo o.pos s.dirSize off whence with
      | none => (.error (-22), s)
      | some np => (⟨np, []⟩, { s with ofds := s.ofds.set k { o with pos := np } })

/-- `fcntl(F_SETFL)`. -/
def fileSetfl (fd : Nat) (append : Bool) (s : FileState) : FileResult × FileState :=
  match s.find fd with
  | none => (.error (-9), s)
  | some (k, o) => (⟨0, []⟩, { s with ofds := s.ofds.set k { o with append := append } })

/-- The loop of `ftruncate` that writes zeros up to the new size. -/
def zeroLoop (cosfd nsz : Nat) : Nat → Nat → FileState → FileResult × FileState
  | 0, _, s => (⟨0, []⟩, s)
  | rounds + 1, at_, s =>
      if nsz ≤ at_ then (⟨0, []⟩, s)
      else
        let m := min (nsz - at_) 4096
        let written := cosFdWrite cosfd (List.replicate m 0) s
        match written.1 with
        | none => (.error (-12), written.2)
        | some _ => zeroLoop cosfd nsz rounds (at_ + m) written.2

/-- `ftruncate`. -/
def fileTruncate (fd nsz : Nat) (s : FileState) : FileResult × FileState :=
  match s.find fd with
  | none => (.error (-9), s)
  | some (_, o) =>
      if s.dirSize < nsz then zeroLoop o.cosfd nsz nsz s.dirSize (cosFdLseek o.cosfd s.dirSize s) else (⟨0, []⟩, s)

inductive FileOp where
  | open (acc : Access) (append trunc creat opened memory : Bool)
  | dup (fd : Nat)
  | read (luck : PieceLuck) (fd len : Nat)
  | pread (luck : PieceLuck) (fd len pos : Nat)
  | write (luck : PieceLuck) (fd : Nat) (data : List UInt8)
  | pwrite (luck : PieceLuck) (fd : Nat) (data : List UInt8) (pos : Nat)
  | lseek (fd : Nat) (off : Int) (whence : Nat)
  | setfl (fd : Nat) (append : Bool)
  | ftruncate (fd nsz : Nat)

def fileStep (s : FileState) : FileOp → FileResult × FileState
  | .open acc append trunc creat opened memory => doOpen acc append trunc creat opened memory s
  | .dup fd => fileDup fd s
  | .read luck fd len => userRead luck fd len none s
  | .pread luck fd len pos => userRead luck fd len (some pos) s
  | .write luck fd data => userWrite luck fd data none s
  | .pwrite luck fd data pos => userWrite luck fd data (some pos) s
  | .lseek fd off whence => fileLseek fd off whence s
  | .setfl fd append => fileSetfl fd append s
  | .ftruncate fd nsz => fileTruncate fd nsz s

end Cos.Linux
