import Cos.Lib.Run
import Mathlib.Logic.Function.Basic
import Mathlib.Algebra.Group.Nat.Defs

/-! # The FAT32 checker

`fat_fsck.c` on a disk of sectors.  The walk goes cluster by cluster and entry by entry; each step
is given whether the disk read or the allocation it makes succeeds.
-/

namespace Cos.Fs

open Cos.Lib

abbrev Disk := Nat → Nat → UInt8

def le16 (bytes : Nat → UInt8) (offset : Nat) : Nat :=
  (bytes offset).toNat + (bytes (offset + 1)).toNat * 256

def le32 (bytes : Nat → UInt8) (offset : Nat) : Nat :=
  le16 bytes offset + le16 bytes (offset + 2) * 65536

/-- `EOC(v)`. -/
def isEoc (v : Nat) : Bool := 0x0ffffff8 ≤ v

/-- `BADC`. -/
def badCluster : Nat := 0x0ffffff7

/-- `bpb_t`, with the volume's first sector. -/
structure Bpb where
  base : Nat
  spc : Nat
  reserved : Nat
  nfats : Nat
  fatsz : Nat
  root : Nat
  total : Nat
deriving DecidableEq

namespace Bpb

variable (b : Bpb)

def dataStart : Nat := (b.reserved + b.nfats * b.fatsz) % 2 ^ 32

def nclusters : Nat := (b.total - b.dataStart) / b.spc

/-- `nclusters + 2`. -/
def limit : Nat := (b.nclusters + 2) % 2 ^ 32

def cbytes : Nat := b.spc * 512

def fatBytes : Nat := b.fatsz * 512

def inVolume (c : Nat) : Bool := 2 ≤ c && c < b.limit

end Bpb

def fatFsckBase (disk : Disk) : Nat :=
  if le16 (disk 0) 510 ≠ 0xaa55 then 0
  else if le16 (disk 0) 11 = 512 ∧ 1 ≤ (disk 0 16).toNat then 0
  else if disk 0 450 = 0x0b ∨ disk 0 450 = 0x0c then le32 (disk 0) 454
  else 0

def bpbAt (base : Nat) (sector : Nat → UInt8) : Bpb where
  base := base
  spc := (sector 13).toNat
  reserved := le16 sector 14
  nfats := (sector 16).toNat
  fatsz := le32 sector 36
  root := le32 sector 44
  total := le32 sector 32

structure Bpb.Accepted (b : Bpb) : Prop where
  spc : b.spc ≠ 0
  fatsz : b.fatsz ≠ 0
  nfats : 1 ≤ b.nfats ∧ b.nfats ≤ 2
  root : 2 ≤ b.root
  total : b.dataStart < b.total
  memory : b.fatBytes ≤ 67108864
  fits : b.limit * 4 ≤ b.fatBytes

instance (b : Bpb) : Decidable b.Accepted :=
  decidable_of_iff (b.spc ≠ 0 ∧ b.fatsz ≠ 0 ∧ (1 ≤ b.nfats ∧ b.nfats ≤ 2) ∧ 2 ≤ b.root ∧
      b.dataStart < b.total ∧ b.fatBytes ≤ 67108864 ∧ b.limit * 4 ≤ b.fatBytes)
    ⟨fun ⟨spc, fatsz, nfats, root, total, memory, fits⟩ => ⟨spc, fatsz, nfats, root, total, memory,
      fits⟩, fun ok => ⟨ok.spc, ok.fatsz, ok.nfats, ok.root, ok.total, ok.memory, ok.fits⟩⟩

def readBpb (disk : Disk) : Option Bpb :=
  let base := fatFsckBase disk
  let sector := disk base
  if le16 sector 510 ≠ 0xaa55 ∨ le16 sector 11 ≠ 512 then none
  else if (bpbAt base sector).Accepted then some (bpbAt base sector)
  else none

section

variable (disk : Disk) (b : Bpb)

/-- Byte `i` of copy `k` of the FAT. -/
def fatByte (k i : Nat) : UInt8 :=
  disk ((b.base + b.reserved + k * b.fatsz + i / 512) % 2 ^ 32) (i % 512)

/-- `fat[c] & 0x0FFFFFFF`. -/
def fatAt (fat : Nat → UInt8) (c : Nat) : Nat := le32 fat (4 * c) % 2 ^ 28

def nextOf (c : Nat) : Nat := fatAt (fatByte disk b 0) c

/-- Byte `i` of a cluster. -/
def clusterByte (c i : Nat) : UInt8 :=
  disk ((b.base + b.dataStart + (c - 2) * b.spc + i / 512) % 2 ^ 32) (i % 512)

end

abbrev RawEntry := Nat → UInt8

namespace RawEntry

variable (e : RawEntry)

def isEnd : Bool := e 0 = 0

def isNone : Bool := e 0 = 0xe5 || e 11 &&& 0x3f = 0x0f || e 11 &&& 0x08 ≠ 0

def startsWithDot : Bool := e 0 = 0x2e

def start : Nat := le16 e 20 * 65536 + le16 e 26

def size : Nat := le32 e 28

def isDir : Bool := e 11 &&& 0x10 ≠ 0

def isDotName : Bool :=
  e 0 = 0x2e && (e 1 = 0x20 || e 1 = 0x2e) && (List.range 9).all fun i => e (i + 2) = 0x20

end RawEntry

def entriesOf (disk : Disk) (b : Bpb) (c : Nat) : List RawEntry :=
  (List.range (b.cbytes / 32)).map fun k i => if i < 32 then clusterByte disk b c (32 * k + i)
    else 0

structure Marks where
  owned : Nat → Bool
  crossLinked : Nat
  chainErrors : Nat
  /-- Auxiliary: every index into the FAT or the bitmap. -/
  touched : List Nat

def walkChain (disk : Disk) (b : Bpb) : Nat → Marks → Nat → Nat → Marks × Nat
  | 0, m, _, n => (m, n)
  | fuel + 1, m, c, n =>
      if b.inVolume c then
        if m.owned c then ({ m with crossLinked := m.crossLinked + 1, touched := c :: m.touched }, n)
        else
          let marked := { m with owned := Function.update m.owned c true, touched := c :: c :: m.touched }
          let next := nextOf disk b c
          if isEoc next then (marked, n + 1)
          else if next = 0 ∨ next = badCluster then ({ marked with chainErrors := m.chainErrors + 1 }, n + 1)
          else if b.nclusters < n + 1 then ({ marked with chainErrors := m.chainErrors + 1 }, n + 1)
          else walkChain disk b fuel marked next (n + 1)
      else ({ m with chainErrors := m.chainErrors + 1 }, n)

structure FsckReport where
  usedClusters : Nat
  files : Nat
  dirs : Nat
  badStart : Nat
  truncated : Nat
  sizeMismatch : Nat
  leakedClusters : Nat
  fatMismatch : Nat
  repaired : Nat
deriving DecidableEq

inductive FsckPlace
  | load
  | pop
  | dir (c guard : Nat)
  | entries (c guard : Nat) (rest : List RawEntry)
  | finished
  | failed

structure Fsck where
  marks : Marks
  report : FsckReport
  /-- `queue[qi..nq)`. -/
  queue : List Nat
  nq : Nat
  cap : Nat
  place : FsckPlace
  disk : Disk
  /-- Auxiliary: where the directory in hand starts, the clusters read to their end, and the
  directories that are over. -/
  current : Nat
  visited : List Nat
  past : List Nat

/-- `HEAP_SIZE`: no block of the kernel heap is larger. -/
def heapSize : Nat := 0x20000000

section

variable (disk : Disk) (b : Bpb) (repair : Bool)

def mismatched (c : Nat) : Bool :=
  1 < b.nfats && fatAt (fatByte disk b 0) c ≠ fatAt (fatByte disk b 1) c

def fsckInit : Fsck where
  marks := ⟨fun _ => false, 0, 0, []⟩
  report := ⟨0, 0, 0, 0, 0, 0, 0, 0, 0⟩
  queue := []
  nq := 0
  cap := 256
  place := .load
  disk := disk
  current := b.root
  visited := []
  past := []

def fsckLoad (s : Fsck) : Fsck :=
  { s with
    marks := (walkChain disk b (b.nclusters + 1) { s.marks with touched := List.range b.limit } b.root 0).1
    report := { s.report with fatMismatch := ((List.range b.limit).filter (mismatched disk b)).length }
    queue := [b.root]
    nq := 1
    place := .pop }

/-- `queue[nq++] = start`, in a larger block when the block is full. -/
def fsckPush (s : Fsck) (start : Nat) (ok : Bool) : Fsck :=
  if s.nq < s.cap then { s with queue := s.queue ++ [start], nq := s.nq + 1 }
  else if ok ∧ s.cap * 2 * 4 ≤ heapSize then
    { s with queue := s.queue ++ [start], nq := s.nq + 1, cap := s.cap * 2 }
  else s

def fsckEntry (s : Fsck) (e : RawEntry) (ok : Bool) : Fsck :=
  let report := if e.isDir then { s.report with dirs := s.report.dirs + 1 } else { s.report with files := s.report.files + 1 }
  if e.start = 0 then
    { s with report := if !e.isDir && e.size ≠ 0 then { report with truncated := report.truncated + 1 } else report }
  else if b.inVolume e.start = false
    then { s with report := { report with badStart := report.badStart + 1 } }
  else
    let walked := walkChain disk b (b.nclusters + 1) s.marks e.start 0
    let s := { s with marks := walked.1 }
    if e.isDir then fsckPush { s with report := report } e.start ok
    else
      let need := (e.size + b.cbytes - 1) / b.cbytes
      { s with
        report :=
          if walked.2 < need then { report with truncated := report.truncated + 1 }
          else if need < walked.2 then { report with sizeMismatch := report.sizeMismatch + 1 }
          else report }

def leaked (owned : Nat → Bool) (c : Nat) : Bool :=
  2 ≤ c && nextOf disk b c ≠ 0 && nextOf disk b c ≠ badCluster && !owned c

/-- `fat[c] = 0` for every leaked cluster. -/
def repairedFat (owned : Nat → Bool) (i : Nat) : UInt8 :=
  if i / 4 < b.limit ∧ leaked disk b owned (i / 4) then 0 else fatByte disk b 0 i

def writeFats (fat : Nat → UInt8) : Disk := fun sector offset =>
  let place := (sector + 2 ^ 32 - (b.base + b.reserved) % 2 ^ 32) % 2 ^ 32
  if place < b.nfats * b.fatsz then fat (place % b.fatsz * 512 + offset) else disk sector offset

def fsckFinish (s : Fsck) : Fsck :=
  let lost := ((List.range b.limit).filter (leaked disk b s.marks.owned)).length
  let report : FsckReport := { s.report with
    usedClusters := ((List.range b.limit).filter fun c => 2 ≤ c && nextOf disk b c ≠ 0).length
    leakedClusters := lost }
  let s := { s with
    place := .finished
    marks := { s.marks with touched := List.range b.limit ++ s.marks.touched } }
  if repair ∧ (lost ≠ 0 ∨ report.fatMismatch ≠ 0) then
    { s with
      report := { report with repaired := lost + report.fatMismatch }
      disk := writeFats disk b (repairedFat disk b s.marks.owned) }
  else { s with report := report }

def Fsck.back (s : Fsck) : Fsck := { s with place := .pop, past := s.current :: s.past }

/-- One step of `fat_fsck` on a volume whose boot sector was accepted. -/
def fsckStep (s : Fsck) (ok : Bool) : Fsck :=
  match s.place with
  | .load => if ok then fsckLoad disk b s else { s with place := .failed }
  | .pop =>
      match s.queue with
      | [] => fsckFinish disk b repair s
      | c :: rest => { s with queue := rest, place := .dir c 0, current := c }
  | .dir c guard =>
      if b.inVolume c ∧ guard ≤ b.nclusters then
        if ok then { s with place := .entries c guard (entriesOf disk b c) }
        else Fsck.back { s with marks := { s.marks with chainErrors := s.marks.chainErrors + 1 } }
      else s.back
  | .entries c guard [] =>
      let s := { s with visited := c :: s.visited, marks := { s.marks with touched := c :: s.marks.touched } }
      if isEoc (nextOf disk b c) then s.back else { s with place := .dir (nextOf disk b c) (guard + 1) }
  | .entries c guard (e :: rest) =>
      if e.isEnd then Fsck.back { s with visited := c :: s.visited }
      else
        let s := { s with place := .entries c guard rest }
        if e.isNone || e.startsWithDot then s else fsckEntry disk b s e ok
  | .finished => s
  | .failed => s

end

end Cos.Fs
