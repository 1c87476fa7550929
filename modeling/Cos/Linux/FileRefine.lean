import Cos.Linux.FileDescriptors

/-! # Files behave as byte arrays

The byte-array file of POSIX, with one offset for each open description, and the runs in which the
Linux layer's descriptors cannot be told from it.
-/

namespace Cos.Linux

open Cos.Lib

structure PosixDesc where
  pos : Nat
  acc : Access
  append : Bool
deriving DecidableEq, Repr

structure PosixState where
  contents : List UInt8
  descs : List PosixDesc
  slots : List (Option Nat)
deriving DecidableEq, Repr

def PosixState.find (s : PosixState) (fd : Nat) : Option (Nat × PosixDesc) :=
  match (s.slots[fd]?).join with
  | none => none
  | some k => (s.descs[k]?).map fun d => (k, d)

def posixOpen (acc : Access) (append trunc opened memory : Bool) (s : PosixState) :
    FileResult × PosixState :=
  match fdAlloc s.slots with
  | none => (.error (-24), s)
  | some slot =>
      if opened = false then (.error (-2), s)
      else if memory = false then (.error (-12), s)
      else
        (⟨slot, []⟩, { s with
          contents := if trunc ∧ acc ≠ .rdonly then [] else s.contents
          descs := s.descs ++ [⟨0, acc, append⟩]
          slots := s.slots.set slot (some s.descs.length) })

def posixDup (fd : Nat) (s : PosixState) : FileResult × PosixState :=
  match (s.slots[fd]?).join with
  | none => (.error (-9), s)
  | some k =>
      match fdAlloc s.slots with
      | none => (.error (-24), s)
      | some slot => (⟨slot, []⟩, { s with slots := s.slots.set slot (some k) })

def posixRead (fd len : Nat) (pos : Option Nat) (s : PosixState) : FileResult × PosixState :=
  match s.find fd with
  | none => (.error (-9), s)
  | some (k, d) =>
      if len = 0 then (⟨0, []⟩, s)
      else if d.acc = .wronly then (.error (-9), s)
      else
        let got := (s.contents.drop (pos.getD d.pos)).take len
        (⟨got.length, got⟩,
          if pos.isSome then s else { s with descs := s.descs.set k { d with pos := d.pos + got.length } })

def posixWrite (fd : Nat) (data : List UInt8) (pos : Option Nat) (s : PosixState) :
    FileResult × PosixState :=
  match s.find fd with
  | none => (.error (-9), s)
  | some (k, d) =>
      if data.length = 0 then (⟨0, []⟩, s)
      else if d.acc = .rdonly then (.error (-9), s)
      else
        let at_ := pos.getD (if d.append then s.contents.length else d.pos)
        (⟨data.length, []⟩, { s with
          contents := writeAt s.contents at_ data
          descs := if pos.isSome then s.descs else s.descs.set k { d with pos := at_ + data.length } })

def posixLseek (fd : Nat) (off : Int) (whence : Nat) (s : PosixState) : FileResult × PosixState :=
  match s.find fd with
  | none => (.error (-9), s)
  | some (k, d) =>
      match seekTo d.pos s.contents.length off whence with
      | none => (.error (-22), s)
      | some np => (⟨np, []⟩, { s with descs := s.descs.set k { d with pos := np } })

def posixSetfl (fd : Nat) (append : Bool) (s : PosixState) : FileResult × PosixState :=
  match s.find fd with
  | none => (.error (-9), s)
  | some (k, d) => (⟨0, []⟩, { s with descs := s.descs.set k { d with append := append } })

def posixTruncate (fd nsz : Nat) (s : PosixState) : FileResult × PosixState :=
  match s.find fd with
  | none => (.error (-9), s)
  | some (_, d) =>
      if d.acc = .rdonly then (.error (-22), s)
      else
        (⟨0, []⟩,
          { s with contents := s.contents.take nsz ++ List.replicate (nsz - s.contents.length) 0 })

def posixStep (s : PosixState) : FileOp → FileResult × PosixState
  | .open acc append trunc _ opened memory => posixOpen acc append trunc opened memory s
  | .dup fd => posixDup fd s
  | .read _ fd len => posixRead fd len none s
  | .pread _ fd len pos => posixRead fd len (some pos) s
  | .write _ fd data => posixWrite fd data none s
  | .pwrite _ fd data pos => posixWrite fd data (some pos) s
  | .lseek fd off whence => posixLseek fd off whence s
  | .setfl fd append => posixSetfl fd append s
  | .ftruncate fd nsz => posixTruncate fd nsz s

def FileOfd.desc (o : FileOfd) : PosixDesc := ⟨o.pos, o.acc, o.append⟩

def FileState.posix (s : FileState) : PosixState := ⟨s.contents, s.ofds.map FileOfd.desc, s.slots⟩

def PieceLuck.Good (luck : PieceLuck) : Prop := ∀ i, luck.memory i = true ∧ luck.access i = true

/-- A write that goes to the end of the file finds the offset and the native descriptor there. -/
def AppendReady (s : FileState) (o : FileOfd) (at_ : Nat) : Prop :=
  o.append = true → at_ = s.contents.length ∧
    ∀ native, s.natives[o.cosfd]? = some native →
    native.mode = .wronlyAppend ∨ native.fptr = s.contents.length

def writeAllowed (luck : PieceLuck) (fd : Nat) (data : List UInt8) (pos : Option Nat)
    (s : FileState) : Prop :=
  ∀ k o, s.find fd = some (k, o) →
    luck.Good ∧ pos.getD o.pos + data.length ≤ 2 ^ 63 ∧ AppendReady s o (pos.getD o.pos)

def readAllowed (luck : PieceLuck) (fd : Nat) (pos : Option Nat) (s : FileState) : Prop :=
  ∀ k o, s.find fd = some (k, o) → luck.Good ∧ pos.getD o.pos < 2 ^ 63 ∧ s.contents.length < 2 ^ 63

def fileAllowed (s : FileState) : FileOp → Prop
  | .open acc append trunc creat _ memory =>
      (append = true → acc = .wronly ∨ (acc = .rdonly ∧ creat = false)) ∧
        (acc = .rdonly → creat = true → trunc = false) ∧
        (trunc = true → acc ≠ .rdonly → s.contents ≠ [] → acc = .wronly ∧ append = false ∧ memory = true)
  | .read luck fd _ => readAllowed luck fd none s
  | .pread luck fd _ pos => readAllowed luck fd (some pos) s
  | .write luck fd data => writeAllowed luck fd data none s
  | .pwrite luck fd data pos => writeAllowed luck fd data (some pos) s
  | .lseek _ _ whence => whence = 2 → s.dirSize = s.contents.length
  | .ftruncate fd nsz => ∀ k o, s.find fd = some (k, o) →
      o.acc ≠ .rdonly ∧ s.dirSize = s.contents.length ∧ s.contents.length ≤ nsz
  | .dup _ | .setfl .. => True

theorem writeAt_length (contents data : List UInt8) (at_ : Nat) :
    (writeAt contents at_ data).length = max contents.length (at_ + data.length) := by
  simp only [writeAt, List.length_append, List.length_take, List.length_replicate, List.length_drop]
  omega

theorem writeAt_end (contents data : List UInt8) :
    writeAt contents contents.length data = contents ++ data := by
  simp [writeAt]

theorem writeAt_append (contents first second : List UInt8) (at_ : Nat) :
    writeAt (writeAt contents at_ first) (at_ + first.length) second =
    writeAt contents at_ (first ++ second) := by
  have front : (writeAt contents at_ first).take (at_ + first.length) =
      contents.take at_ ++ (List.replicate (at_ - contents.length) 0 ++ first) := by
    rw [writeAt, ← List.append_assoc, ← List.append_assoc, ← List.append_assoc]
    apply List.take_left'
    simp only [List.length_append, List.length_take, List.length_replicate]
    omega
  have back : (writeAt contents at_ first).drop (at_ + first.length + second.length) =
      contents.drop (at_ + (first.length + second.length)) := by
    rw [writeAt, ← List.append_assoc, ← List.append_assoc, ← List.drop_drop]
    rw [List.drop_left' (by
      simp only [List.length_append, List.length_take, List.length_replicate]
      omega), List.drop_drop]
    congr 1
    omega
  have full : at_ + first.length - (writeAt contents at_ first).length = 0 := by
    rw [writeAt_length]
    omega
  rw [writeAt, front, back, full, writeAt, List.length_append]
  simp [List.append_assoc]

section Native

variable {s : FileState} {o : FileOfd} {native : NativeFd} {k n at_ : Nat} {pos : Option Nat}

/-- Descriptions and slots refer to what there is, with the rights they were opened with. -/
structure FilesSound (s : FileState) : Prop where
  natives : ∀ o ∈ s.ofds, ∃ native, s.natives[o.cosfd]? = some native ∧
    (o.acc ≠ .wronly → native.mode.reads = true) ∧ (o.acc ≠ .rdonly → native.mode.writes = true)
  slots : ∀ k, some k ∈ s.slots → k < s.ofds.length

def SameModes (natives others : List NativeFd) : Prop :=
  ∀ i : Nat, (others[i]?).map NativeFd.mode = (natives[i]?).map NativeFd.mode

theorem SameModes.refl (natives : List NativeFd) : SameModes natives natives := fun _ => rfl

theorem SameModes.trans {natives others last : List NativeFd} (first : SameModes natives others)
    (second : SameModes others last) : SameModes natives last := fun i => (second i).trans (first i)

theorem sameModes_set {natives : List NativeFd} {i : Nat} (here : natives[i]? = some native)
    (fptr : Nat) : SameModes natives (natives.set i { native with fptr := fptr }) := by
  intro j
  rcases eq_or_ne i j with rfl | other
  · rw [List.getElem?_set_self (List.getElem?_eq_some_iff.mp here).1, here]
    rfl
  · rw [List.getElem?_set_ne other]

theorem SameModes.find {natives others : List NativeFd} (same : SameModes natives others)
    (here : natives[k]? = some native) :
    ∃ other, others[k]? = some other ∧ other.mode = native.mode := by
  have mode := same k
  rw [here, Option.map_some] at mode
  obtain ⟨other, found, isMode⟩ := Option.map_eq_some_iff.mp mode
  exact ⟨other, found, isMode⟩

theorem FilesSound.congr {t : FileState} (sound : FilesSound s)
    (modes : SameModes s.natives t.natives) (slots : t.slots = s.slots)
    (length : t.ofds.length = s.ofds.length)
    (ofds : ∀ o ∈ t.ofds, ∃ before ∈ s.ofds, o.cosfd = before.cosfd ∧ o.acc = before.acc) :
    FilesSound t := by
  refine ⟨fun o member => ?_, fun k member => ?_⟩
  · obtain ⟨before, old, isFd, isAcc⟩ := ofds o member
    obtain ⟨native, here, reads, writes⟩ := sound.natives before old
    obtain ⟨other, found, isMode⟩ := modes.find here
    rw [isFd, isAcc]
    exact ⟨other, found, isMode ▸ reads, isMode ▸ writes⟩
  · rw [slots] at member
    rw [length]
    exact sound.slots k member

theorem FilesSound.setPos {t : FileState} (sound : FilesSound s)
    (modes : SameModes s.natives t.natives) (slots : t.slots = s.slots) (here : s.ofds[k]? = some o)
    (p : Nat) (ofds : t.ofds = s.ofds ∨ t.ofds = s.ofds.set k { o with pos := p }) :
    FilesSound t := by
  rcases ofds with same | moved
  · exact sound.congr modes slots (by rw [same]) fun o member => ⟨o, same ▸ member, rfl, rfl⟩
  · refine sound.congr modes slots (by rw [moved, List.length_set]) fun other member => ?_
    rw [moved] at member
    rcases List.mem_or_eq_of_mem_set member with old | rfl
    · exact ⟨other, old, rfl, rfl⟩
    · exact ⟨o, List.mem_of_getElem? here, rfl, rfl⟩

theorem posix_setPos (p : Nat) :
    (s.ofds.set k { o with pos := p }).map FileOfd.desc =
    (s.ofds.map FileOfd.desc).set k { o.desc with pos := p } := by
  rw [List.map_set]
  rfl

/-- A call that moved the offset of description `k` to `p`, and otherwise only wrote bytes. -/
structure Moved (s : FileState) (k : Nat) (o : FileOfd) (p : Nat) (t : FileState) : Prop where
  slots : t.slots = s.slots
  ofds : t.ofds = s.ofds.set k { o with pos := p }
  modes : SameModes s.natives t.natives

theorem Moved.refl (here : s.ofds[k]? = some o) : Moved s k o o.pos s := by
  refine ⟨rfl, ?_, SameModes.refl _⟩
  obtain ⟨inside, isOfd⟩ := List.getElem?_eq_some_iff.mp here
  rw [← isOfd, List.set_getElem_self]

theorem Moved.sound {t : FileState} {p : Nat} (moved : Moved s k o p t) (sound : FilesSound s)
    (here : s.ofds[k]? = some o) : FilesSound t :=
  sound.setPos moved.modes moved.slots here p (.inr moved.ofds)

theorem Moved.here {t : FileState} {p : Nat} (moved : Moved s k o p t)
    (here : s.ofds[k]? = some o) : t.ofds[k]? = some { o with pos := p } := by
  rw [moved.ofds, List.getElem?_set_self (List.getElem?_eq_some_iff.mp here).1]

theorem Moved.posix {t : FileState} {p : Nat} (moved : Moved s k o p t) :
    t.posix = ⟨t.contents, s.posix.descs.set k { o.desc with pos := p }, s.slots⟩ := by
  rw [FileState.posix, moved.ofds, posix_setPos, moved.slots]
  rfl

/-- The offset after `n` more bytes; positioned calls leave it. -/
def posAfter (o : FileOfd) (pos : Option Nat) (n : Nat) : Nat :=
  if pos.isSome then o.pos else o.pos + n

theorem posAfter_zero : posAfter o pos 0 = o.pos := by
  cases pos <;> rfl

theorem Moved.next {t u : FileState} {m : Nat} (moved : Moved s k o (posAfter o pos m) t)
    (slots : u.slots = t.slots) (modes : SameModes t.natives u.natives)
    (ofds : u.ofds = if pos.isSome then t.ofds
      else t.ofds.set k { o with pos := posAfter o pos m + n }) :
    Moved s k o (posAfter o pos (m + n)) u := by
  refine ⟨slots.trans moved.slots, ?_, moved.modes.trans modes⟩
  cases pos with
  | none =>
      rw [ofds, moved.ofds]
      simp [posAfter, List.set_set, Nat.add_assoc]
  | some p =>
      rw [ofds, moved.ofds]
      rfl

theorem pieceOffset {p m : Nat} (isPos : p = posAfter o pos m) :
    (pos.map (· + m)).getD p = pos.getD o.pos + m := by
  cases pos <;> simp [isPos, posAfter]

theorem ofdRead_some {p : Nat} (here : s.ofds[k]? = some { o with pos := p })
    (readable : ∃ native, s.natives[o.cosfd]? = some native ∧ native.mode.reads = true)
    (inside : pos.getD p < 2 ^ 63) :
    ∃ t, ofdRead k n pos s = (some ((s.contents.drop (pos.getD p)).take (min n ioChunk)), t) ∧
      t.contents = s.contents ∧ t.slots = s.slots ∧ SameModes s.natives t.natives ∧
      t.ofds = if pos.isSome then s.ofds
        else s.ofds.set k { o with pos := p + ((s.contents.drop (pos.getD p)).take (min n ioChunk)).length } := by
  obtain ⟨native, isNative, reads⟩ := readable
  have open_ : (s.natives[o.cosfd]?).filter
      (fun native => native.mode.reads && decide (pos.getD p < 2 ^ 63)) = some native := by
    rw [isNative]
    exact Option.filter_eq_some_iff.mpr ⟨rfl, by rw [reads, decide_eq_true inside]; rfl⟩
  simp only [ofdRead, here, cosFdPread, open_]
  refine ⟨_, rfl, ?_⟩
  cases pos with
  | none => exact ⟨rfl, rfl, sameModes_set isNative _, rfl⟩
  | some _ => exact ⟨rfl, rfl, sameModes_set isNative _, rfl⟩

theorem take_append_take (bytes : List UInt8) (base have_ more : Nat) :
    (bytes.drop base).take have_ ++ (bytes.drop (base + have_)).take more =
    (bytes.drop base).take (have_ + more) := by
  rw [← List.drop_drop, List.take_add]

theorem readLoop_spec {luck : PieceLuck} {len base : Nat} (good : luck.Good) (sound : FilesSound s)
    (here : s.ofds[k]? = some o) (readable : o.acc ≠ .wronly) (isBase : base = pos.getD o.pos)
    (inside : base < 2 ^ 63) (short : s.contents.length < 2 ^ 63) (rounds i have_ : Nat)
    (t : FileState) (enough : len ≤ have_ + rounds) (within : have_ ≤ len)
    (full : have_ = 0 ∨ base + have_ ≤ s.contents.length)
    (moved : Moved s k o (posAfter o pos have_) t) (contents : t.contents = s.contents) :
    ∃ u, readLoop luck k len pos rounds i ((s.contents.drop base).take have_) t =
        (⟨((s.contents.drop base).take len).length, (s.contents.drop base).take len⟩, u) ∧
      u.contents = s.contents ∧
      Moved s k o (posAfter o pos ((s.contents.drop base).take len).length) u := by
  have count : ((s.contents.drop base).take have_).length = have_ := by
    rw [List.length_take, List.length_drop]
    omega
  induction rounds generalizing i have_ t with
  | zero =>
      obtain rfl : have_ = len := by omega
      exact ⟨t, rfl, contents, count.symm ▸ moved⟩
  | succ rounds ih =>
      rw [readLoop, count]
      split
      next done =>
        obtain rfl : have_ = len := by omega
        exact ⟨t, by rw [count], contents, count.symm ▸ moved⟩
      next more =>
        rw [if_neg (by simp [(good i).1])]
        obtain ⟨native, isNative, reads, -⟩ := (moved.sound sound here).natives _
          (List.mem_of_getElem? (moved.here here))
        have offset : (pos.map (· + have_)).getD (posAfter o pos have_) = pos.getD o.pos + have_ := pieceOffset rfl
        have at_ : base + have_ < 2 ^ 63 := by omega
        have reached : (pos.map (· + have_)).getD (posAfter o pos have_) < 2 ^ 63 := by
          rw [offset, ← isBase]
          exact at_
        obtain ⟨u, isRead, sameBytes, slots, modes, ofds⟩ := ofdRead_some
          (n := min (len - have_) ioChunk) (moved.here here) ⟨native, isNative, reads readable⟩ reached
        rw [offset, ← isBase, contents, Nat.min_assoc, Nat.min_self] at isRead ofds
        simp only [isRead]
        rw [Option.filter_some, if_pos (by simp [(good i).2])]
        have next := moved.next slots modes
          (n := ((s.contents.drop (base + have_)).take (min (len - have_) ioChunk)).length) (by simpa using ofds)
        have bytes := sameBytes.trans contents
        dsimp only
        rw [take_append_take]
        rw [List.length_take, List.length_drop] at next ⊢
        split
        next last =>
          -- the end of the file
          have all : (s.contents.drop base).take (have_ + min (len - have_) ioChunk) = (s.contents.drop base).take len := by
            rw [List.take_of_length_le (by rw [List.length_drop]; omega),
              List.take_of_length_le (by rw [List.length_drop]; omega)]
          refine ⟨u, by rw [all], bytes, ?_⟩
          rw [List.length_take, List.length_drop]
          rwa [show have_ + min (min (len - have_) ioChunk) (s.contents.length - (base + have_)) =
            min len (s.contents.length - base) by omega] at next
        next whole =>
          refine ih (i + 1) _ u ?_ ?_ ?_ ?_ bytes ?_
          · have : 0 < ioChunk := by decide
            omega
          · omega
          · omega
          · rwa [show min (min (len - have_) ioChunk) (s.contents.length - (base + have_)) =
              min (len - have_) ioChunk by omega] at next
          · rw [List.length_take, List.length_drop]
            omega

/-- A native descriptor that an append finds at the end of the file. -/
def AtEnd (s : FileState) (cosfd : Nat) : Prop :=
  ∀ native, s.natives[cosfd]? = some native →
    native.mode = .wronlyAppend ∨ native.fptr = s.contents.length

structure Put (s : FileState) (cosfd at_ : Nat) (piece : List UInt8) (t : FileState) : Prop where
  contents : t.contents = writeAt s.contents at_ piece
  slots : t.slots = s.slots
  ofds : t.ofds = s.ofds
  modes : SameModes s.natives t.natives
  moved : ∀ native, t.natives[cosfd]? = some native → native.fptr = at_ + piece.length

theorem nativePut_spec {cosfd : Nat} (isNative : s.natives[cosfd]? = some native)
    (piece : List UInt8) : Put s cosfd at_ piece (nativePut cosfd at_ native piece s) where
  contents := rfl
  slots := rfl
  ofds := rfl
  modes := sameModes_set isNative _
  moved := by
    intro other found
    dsimp only [nativePut] at found
    rw [List.getElem?_set_self (List.getElem?_eq_some_iff.mp isNative).1] at found
    obtain rfl := Option.some.inj found
    rfl

theorem Put.atEnd {cosfd : Nat} {piece : List UInt8} {t : FileState} (put : Put s cosfd at_ piece t)
    (last : s.contents.length ≤ at_) : AtEnd t cosfd := by
  intro native found
  rw [put.moved native found, put.contents, writeAt_length]
  omega

theorem cosFdWrite_atEnd {cosfd : Nat} {piece : List UInt8}
    (isNative : s.natives[cosfd]? = some native) (writes : native.mode.writes = true)
    (atEnd : AtEnd s cosfd) (short : piece.length ≤ ioChunk) :
    ∃ t, cosFdWrite cosfd piece s = (some piece.length, t) ∧
    Put s cosfd s.contents.length piece t := by
  have isEnd : (if native.mode = .wronlyAppend then s.contents.length else native.fptr) =
    s.contents.length := by
    rcases atEnd native isNative with mode | fptr
    · rw [if_pos mode]
    · rw [fptr, ite_self]
  have open_ : (s.natives[cosfd]?).filter (fun native => native.mode.writes) = some native := by
    rw [isNative]
    simp [writes]
  simp only [cosFdWrite, open_, isEnd, List.take_of_length_le short]
  exact ⟨_, rfl, nativePut_spec isNative piece⟩

theorem cosFdPwrite_spec {cosfd : Nat} {piece : List UInt8}
    (isNative : s.natives[cosfd]? = some native) (writes : native.mode.writes = true)
    (inside : at_ < 2 ^ 63) (short : piece.length ≤ ioChunk) :
    ∃ t, cosFdPwrite cosfd at_ piece s = (some piece.length, t) ∧ Put s cosfd at_ piece t := by
  have open_ : (s.natives[cosfd]?).filter
      (fun native => native.mode.writes && decide (at_ < 2 ^ 63)) = some native := by
    rw [isNative]
    exact Option.filter_eq_some_iff.mpr ⟨rfl, by rw [writes, decide_eq_true inside]; rfl⟩
  simp only [cosFdPwrite, open_, List.take_of_length_le short]
  exact ⟨_, rfl, nativePut_spec isNative piece⟩

theorem ofdWrite_some {p : Nat} {piece : List UInt8} (here : s.ofds[k]? = some { o with pos := p })
    (isNative : s.natives[o.cosfd]? = some native) (writes : native.mode.writes = true)
    (inside : pos.getD p < 2 ^ 63) (short : piece.length ≤ ioChunk)
    (ready : o.append = true → pos.getD p = s.contents.length ∧ AtEnd s o.cosfd) :
    ∃ t, ofdWrite k piece pos s = (some piece.length, t) ∧
      t.contents = writeAt s.contents (pos.getD p) piece ∧ t.slots = s.slots ∧
      SameModes s.natives t.natives ∧ (o.append = true → AtEnd t o.cosfd) ∧
      t.ofds = if pos.isSome then s.ofds else s.ofds.set k { o with pos := p + piece.length } := by
  have wrote : ∃ t, (if o.append then cosFdWrite o.cosfd piece s else cosFdPwrite o.cosfd (pos.getD p) piece s) =
      (some piece.length, t) ∧ Put s o.cosfd (pos.getD p) piece t := by
    cases append : o.append with
    | false => exact cosFdPwrite_spec isNative writes inside short
    | true =>
        obtain ⟨isEnd, atEnd⟩ := ready append
        rw [isEnd]
        exact cosFdWrite_atEnd isNative writes atEnd short
  obtain ⟨t, isWrite, put⟩ := wrote
  have atEnd : o.append = true → AtEnd t o.cosfd :=
    fun append => put.atEnd (Nat.le_of_eq (ready append).1.symm)
  simp only [ofdWrite, here, isWrite]
  refine ⟨_, rfl, ?_⟩
  cases pos with
  | none => exact ⟨put.contents, put.slots, put.modes, atEnd, by rw [put.ofds]; rfl⟩
  | some _ => exact ⟨put.contents, put.slots, put.modes, atEnd, put.ofds⟩

theorem writeLoop_spec {luck : PieceLuck} {data : List UInt8} {base : Nat} (good : luck.Good)
    (sound : FilesSound s) (here : s.ofds[k]? = some o) (writable : o.acc ≠ .rdonly)
    (isBase : base = pos.getD o.pos) (inside : base + data.length ≤ 2 ^ 63) (rounds i done : Nat)
    (t : FileState) (enough : data.length ≤ done + rounds) (more : done < data.length)
    (moved : Moved s k o (posAfter o pos done) t)
    (ready : o.append = true → base + done = t.contents.length ∧ AtEnd t o.cosfd) :
    ∃ u, writeLoop luck k data pos rounds i done t = (⟨data.length, []⟩, u) ∧
      u.contents = writeAt t.contents (base + done) (data.drop done) ∧
      Moved s k o (posAfter o pos data.length) u := by
  induction rounds generalizing i done t with
  | zero => omega
  | succ rounds ih =>
      rw [writeLoop, if_neg (by omega), if_neg (by simp [(good i).1]), if_neg (by simp [(good i).2])]
      obtain ⟨native, isNative, -, writes⟩ := (moved.sound sound here).natives _
        (List.mem_of_getElem? (moved.here here))
      have offset : (pos.map (· + done)).getD (posAfter o pos done) = pos.getD o.pos + done := pieceOffset rfl
      rw [← isBase] at offset
      obtain ⟨n, isN⟩ : ∃ n, min (data.length - done) ioChunk = n := ⟨_, rfl⟩
      have chunk : 0 < ioChunk := by decide
      have length : ((data.drop done).take n).length = n := by
        rw [List.length_take, List.length_drop]
        omega
      have reached : (pos.map (· + done)).getD (posAfter o pos done) < 2 ^ 63 := by
        omega
      have short : ((data.drop done).take n).length ≤ ioChunk := by omega
      obtain ⟨u, isWrite, bytes, slots, modes, atEnd, ofds⟩ := ofdWrite_some (moved.here here)
        isNative (writes writable) reached short (by rw [offset]; exact ready)
      rw [offset] at bytes
      rw [length] at isWrite ofds
      simp only [isN, isWrite, Nat.lt_irrefl, if_false]
      have next := moved.next slots modes (n := n) (by simpa using ofds)
      rcases Nat.lt_or_ge (done + n) data.length with left | finished
      · obtain ⟨v, isLoop, later, last⟩ := ih (i + 1) (done + n) u (by omega) left next (by
          intro append
          refine ⟨?_, atEnd append⟩
          rw [bytes, writeAt_length, length, ← (ready append).1]
          omega)
        refine ⟨v, isLoop, ?_, last⟩
        have joined := writeAt_append t.contents ((data.drop done).take n) ((data.drop done).drop n) (base + done)
        rw [length, List.take_append_drop, List.drop_drop] at joined
        rw [later, bytes, ← Nat.add_assoc, joined]
      · obtain rfl : n = data.length - done := by omega
        have all : done + (data.length - done) = data.length := by omega
        rw [all] at next ⊢
        refine ⟨u, ?_, ?_, next⟩
        · cases rounds with
          | zero => rw [writeLoop]
          | succ rounds => rw [writeLoop, if_pos (Nat.le_refl _)]
        · rw [bytes, List.take_of_length_le (Nat.le_of_eq List.length_drop)]

theorem zeroLoop_spec {cosfd nsz : Nat} (rounds at_ : Nat) (t : FileState)
    (enough : nsz ≤ at_ + rounds) (isEnd : at_ = t.contents.length)
    (isNative : t.natives[cosfd]? = some native) (writes : native.mode.writes = true)
    (atEnd : AtEnd t cosfd) : ∃ u, zeroLoop cosfd nsz rounds at_ t = (⟨0, []⟩, u) ∧
      u.contents = t.contents ++ List.replicate (nsz - at_) 0 ∧ u.slots = t.slots ∧
      u.ofds = t.ofds ∧ SameModes t.natives u.natives := by
  induction rounds generalizing at_ t native with
  | zero =>
      rw [zeroLoop, Nat.sub_eq_zero_of_le (by omega)]
      exact ⟨t, rfl, by simp, rfl, rfl, SameModes.refl _⟩
  | succ rounds ih =>
      rw [zeroLoop]
      split
      next done =>
        rw [Nat.sub_eq_zero_of_le done]
        exact ⟨t, rfl, by simp, rfl, rfl, SameModes.refl _⟩
      next more =>
        have chunk : 4096 ≤ ioChunk := by decide
        obtain ⟨m, isM⟩ : ∃ m, min (nsz - at_) 4096 = m := ⟨_, rfl⟩
        have short : (List.replicate m (0 : UInt8)).length ≤ ioChunk := by
          rw [List.length_replicate]
          omega
        obtain ⟨u, isWrite, put⟩ := cosFdWrite_atEnd isNative writes atEnd short
        simp only [isM, isWrite]
        obtain ⟨other, found, mode⟩ := put.modes.find isNative
        have bytes := put.contents
        rw [writeAt_end] at bytes
        obtain ⟨v, isLoop, contents, slots, ofds, modes⟩ := ih (at_ + m) u (by omega)
          (by rw [bytes, List.length_append, List.length_replicate, isEnd]) found
          (by rw [mode]; exact writes) (put.atEnd (Nat.le_refl _))
        refine ⟨v, isLoop, ?_, slots.trans put.slots, ofds.trans put.ofds, put.modes.trans modes⟩
        rw [contents, bytes, List.append_assoc, List.replicate_append_replicate]
        congr 2
        omega

theorem find_posix (s : FileState) (fd : Nat) :
    s.posix.find fd = (s.find fd).map fun (k, o) => (k, o.desc) := by
  rw [PosixState.find, FileState.find]
  dsimp only [FileState.posix]
  cases (s.slots[fd]?).join with
  | none => rfl
  | some k =>
      dsimp only
      rw [List.getElem?_map]
      cases s.ofds[k]? <;> rfl

theorem find_here {fd : Nat} (found : s.find fd = some (k, o)) : s.ofds[k]? = some o := by
  rw [FileState.find] at found
  split at found
  · cases found
  next j _ =>
    obtain ⟨here, isHere, same⟩ := Option.map_eq_some_iff.mp found
    cases same
    exact isHere

/-- The answers are the same, and so is what a program can see afterwards. -/
def Agrees (done : FileResult × FileState) (model : FileResult × PosixState) : Prop :=
  done.1 = model.1 ∧ done.2.posix = model.2 ∧ FilesSound done.2

theorem descs_set_self (here : s.ofds[k]? = some o) :
    s.posix.descs.set k o.desc = s.posix.descs := by
  have same := (Moved.refl here).ofds
  have map := posix_setPos (s := s) (k := k) (o := o) o.pos
  rw [← same] at map
  exact map.symm

theorem Moved.desc {t : FileState} (moved : Moved s k o (posAfter o pos n) t)
    (here : s.ofds[k]? = some o) : t.posix = ⟨t.contents,
      if pos.isSome then s.posix.descs else s.posix.descs.set k { o.desc with pos := o.pos + n }, s.slots⟩ := by
  rw [moved.posix]
  cases pos with
  | none => rfl
  | some _ =>
      exact congrArg (fun descs => PosixState.mk t.contents descs s.slots) (descs_set_self here)

theorem userRead_agrees {luck : PieceLuck} {fd len : Nat} (sound : FilesSound s)
    (allowed : readAllowed luck fd pos s) :
    Agrees (userRead luck fd len pos s) (posixRead fd len pos s.posix) := by
  rw [userRead, posixRead, find_posix]
  cases found : s.find fd with
  | none => exact ⟨rfl, rfl, sound⟩
  | some entry =>
      obtain ⟨k, o⟩ := entry
      obtain ⟨good, inside, short⟩ := allowed k o found
      have here := find_here found
      have acc : o.desc.acc = o.acc := rfl
      dsimp only [Option.map_some]
      rw [acc]
      split
      next => exact ⟨rfl, rfl, sound⟩
      next =>
        split
        next => exact ⟨rfl, rfl, sound⟩
        next readable =>
          obtain ⟨u, isLoop, contents, moved⟩ := readLoop_spec good sound here readable rfl inside short
            len 0 0 s (Nat.le_add_left len 0) (Nat.zero_le len) (.inl rfl) (by rw [posAfter_zero]; exact .refl here) rfl
          rw [List.take_zero] at isLoop
          rw [isLoop]
          refine ⟨rfl, ?_, moved.sound sound here⟩
          rw [moved.desc here, contents]
          cases pos <;> rfl

theorem userWrite_agrees {luck : PieceLuck} {fd : Nat} {data : List UInt8} (sound : FilesSound s)
    (allowed : writeAllowed luck fd data pos s) :
    Agrees (userWrite luck fd data pos s) (posixWrite fd data pos s.posix) := by
  rw [userWrite, posixWrite, find_posix]
  cases found : s.find fd with
  | none => exact ⟨rfl, rfl, sound⟩
  | some entry =>
      obtain ⟨k, o⟩ := entry
      obtain ⟨good, inside, ready⟩ := allowed k o found
      have here := find_here found
      have acc : o.desc.acc = o.acc := rfl
      dsimp only [Option.map_some]
      rw [acc]
      split
      next => exact ⟨rfl, rfl, sound⟩
      next some_ =>
        split
        next => exact ⟨rfl, rfl, sound⟩
        next writable =>
          obtain ⟨u, isLoop, contents, moved⟩ := writeLoop_spec good sound here writable rfl inside
            data.length 0 0 s (Nat.le_add_left _ 0) (by omega) (by rw [posAfter_zero]; exact .refl here) ready
          rw [isLoop]
          refine ⟨rfl, ?_, moved.sound sound here⟩
          have offset : pos.getD (if o.desc.append then s.posix.contents.length else o.desc.pos) = pos.getD o.pos := by
            cases pos with
            | some _ => rfl
            | none =>
                split
                next append => exact (ready append).1.symm
                next => rfl
          rw [moved.desc here, contents, offset]
          cases pos <;> rfl

theorem FilesSound.cosFdOpen {mode : CosMode} (sound : FilesSound s) :
    FilesSound (cosFdOpen mode s) := by
  refine ⟨fun o member => ?_, sound.slots⟩
  obtain ⟨native, here, rights⟩ := sound.natives o member
  exact ⟨native, (List.getElem?_append_left (List.getElem?_eq_some_iff.mp here).1).trans here,
    rights⟩

theorem openMode_rights {acc : Access} {append trunc creat : Bool}
    (appends : append = true → acc = .wronly ∨ (acc = .rdonly ∧ creat = false))
    (plain : acc = .rdonly → creat = true → trunc = false) :
    (acc ≠ .wronly → (openMode acc append trunc creat).reads = true) ∧
      (acc ≠ .rdonly → (openMode acc append trunc creat).writes = true) := by
  cases acc <;> cases append <;> cases trunc <;> cases creat <;>
    simp_all [openMode, CosMode.reads, CosMode.writes]

theorem openMode_empties {acc : Access} {append trunc creat : Bool}
    (plain : acc = .rdonly → creat = true → trunc = false) :
    openMode acc append trunc creat = .wronlyCreate ↔
    trunc = true ∧ acc = .wronly ∧ append = false := by
  cases acc <;> cases append <;> cases trunc <;> cases creat <;> simp_all [openMode]

theorem doOpen_agrees {acc : Access} {append trunc creat opened memory : Bool}
    (sound : FilesSound s) (allowed : fileAllowed s (.open acc append trunc creat opened memory)) :
    Agrees (doOpen acc append trunc creat opened memory s)
    (posixOpen acc append trunc opened memory s.posix) := by
  obtain ⟨appends, plain, empties⟩ := allowed
  obtain ⟨mode, isMode⟩ : ∃ mode, openMode acc append trunc creat = mode := ⟨_, rfl⟩
  have emptied := @openMode_empties _ append _ _ plain
  obtain ⟨reads, writes⟩ := openMode_rights appends plain
  rw [isMode] at emptied reads writes
  rw [doOpen, posixOpen, isMode]
  dsimp only [FileState.posix]
  cases fdAlloc s.slots with
  | none => exact ⟨rfl, rfl, sound⟩
  | some slot =>
      cases opened with
      | false => exact ⟨rfl, rfl, ⟨sound.natives, sound.slots⟩⟩
      | true =>
          cases memory with
          | false =>
              refine ⟨rfl, ?_, sound.cosFdOpen⟩
              -- an open that fails here may have emptied the file, if there was something in it
              have kept : (cosFdOpen mode s).contents = s.contents := by
                dsimp only [cosFdOpen]
                split
                next create =>
                  obtain ⟨isTrunc, isAcc, -⟩ := emptied.mp create
                  by_contra bytes
                  exact absurd (empties isTrunc (by simp [isAcc]) (Ne.symm bytes)).2.2 (by decide)
                next => rfl
              exact congrArg (fun contents => PosixState.mk contents (s.ofds.map FileOfd.desc) s.slots) kept
          | true =>
              refine ⟨rfl, ?_, ?_, ?_⟩
              · have bytes : (cosFdOpen mode s).contents = if trunc ∧ acc ≠ .rdonly then [] else s.contents := by
                  dsimp only [cosFdOpen]
                  by_cases empty : s.contents = []
                  · rw [empty, ite_self, ite_self]
                  · have same : mode = .wronlyCreate ↔ trunc ∧ acc ≠ .rdonly := by
                      refine emptied.trans ⟨fun h => ⟨h.1, by simp [h.2.1]⟩, fun h => ⟨h.1, ?_⟩⟩
                      obtain ⟨isAcc, noAppend, -⟩ := empties h.1 h.2 empty
                      exact ⟨isAcc, noAppend⟩
                    rw [if_congr same rfl rfl]
                rw [← bytes]
                simp [FileState.posix, FileOfd.desc, cosFdOpen]
              · intro o member
                rcases List.mem_append.mp member with old | new
                · exact sound.cosFdOpen.natives o old
                · obtain rfl := List.mem_singleton.mp new
                  refine ⟨⟨mode, if mode = .wronlyAppend then (cosFdOpen mode s).contents.length else 0⟩, ?_, reads, writes⟩
                  simp [cosFdOpen]
              · intro k member
                change k < (s.ofds ++ [_]).length
                rw [List.length_append]
                rcases List.mem_or_eq_of_mem_set member with old | new
                · exact Nat.lt_succ_of_lt (sound.slots k old)
                · obtain rfl := Option.some.inj new
                  exact Nat.lt_succ_self _

theorem fileDup_agrees {fd : Nat} (sound : FilesSound s) :
    Agrees (fileDup fd s) (posixDup fd s.posix) := by
  rw [fileDup, posixDup]
  dsimp only [FileState.posix]
  cases found : (s.slots[fd]?).join with
  | none => exact ⟨rfl, rfl, sound⟩
  | some k =>
      cases fdAlloc s.slots with
      | none => exact ⟨rfl, rfl, sound⟩
      | some slot =>
          refine ⟨rfl, rfl, sound.natives, fun j member => ?_⟩
          rcases List.mem_or_eq_of_mem_set member with old | new
          · exact sound.slots j old
          · obtain rfl := Option.some.inj new
            exact sound.slots j (List.mem_of_getElem? (Option.join_eq_some_iff.mp found))

theorem fileLseek_agrees {fd whence : Nat} {off : Int} (sound : FilesSound s)
    (allowed : whence = 2 → s.dirSize = s.contents.length) :
    Agrees (fileLseek fd off whence s) (posixLseek fd off whence s.posix) := by
  rw [fileLseek, posixLseek, find_posix]
  cases found : s.find fd with
  | none => exact ⟨rfl, rfl, sound⟩
  | some entry =>
      obtain ⟨k, o⟩ := entry
      have same : seekTo o.desc.pos s.posix.contents.length off whence = seekTo o.pos s.dirSize off whence := by
        by_cases isEnd : whence = 2
        · rw [allowed isEnd]
          rfl
        · unfold seekTo
          split <;> first | rfl | contradiction
      dsimp only [Option.map_some]
      rw [same]
      cases seekTo o.pos s.dirSize off whence with
      | none => exact ⟨rfl, rfl, sound⟩
      | some np =>
          refine ⟨rfl, ?_, sound.setPos (.refl _) rfl (find_here found) np (.inr rfl)⟩
          dsimp only [FileState.posix]
          rw [posix_setPos]

theorem fileSetfl_agrees {fd : Nat} {append : Bool} (sound : FilesSound s) :
    Agrees (fileSetfl fd append s) (posixSetfl fd append s.posix) := by
  rw [fileSetfl, posixSetfl, find_posix]
  cases found : s.find fd with
  | none => exact ⟨rfl, rfl, sound⟩
  | some entry =>
      obtain ⟨k, o⟩ := entry
      refine ⟨rfl, ?_, sound.congr (.refl _) rfl List.length_set fun other member => ?_⟩
      · dsimp only [FileState.posix, Option.map_some]
        rw [List.map_set]
        rfl
      · rcases List.mem_or_eq_of_mem_set member with old | rfl
        · exact ⟨other, old, rfl, rfl⟩
        · exact ⟨o, List.mem_of_getElem? (find_here found), rfl, rfl⟩

theorem sameModes_lseek (natives : List NativeFd) (cosfd at_ : Nat) :
    SameModes natives (natives.modify cosfd fun native => { native with fptr := at_ }) := by
  intro i
  rw [List.getElem?_modify]
  cases natives[i]? with
  | none => rfl
  | some native => by_cases isFd : cosfd = i <;> simp [isFd]

theorem fileTruncate_agrees {fd nsz : Nat} (sound : FilesSound s)
    (allowed : fileAllowed s (.ftruncate fd nsz)) :
    Agrees (fileTruncate fd nsz s) (posixTruncate fd nsz s.posix) := by
  rw [fileTruncate, posixTruncate, find_posix]
  cases found : s.find fd with
  | none => exact ⟨rfl, rfl, sound⟩
  | some entry =>
      obtain ⟨k, o⟩ := entry
      obtain ⟨writable, synced, grows⟩ := allowed k o found
      dsimp only [Option.map_some]
      rw [if_neg (show ¬ o.desc.acc = .rdonly from writable)]
      have kept : s.posix.contents.take nsz = s.contents := List.take_of_length_le grows
      rw [kept]
      split
      next longer =>
        obtain ⟨native, isNative, -, writes⟩ := sound.natives o (List.mem_of_getElem? (find_here found))
        obtain ⟨other, isOther, isMode⟩ := (sameModes_lseek s.natives o.cosfd s.dirSize).find isNative
        have atEnd : AtEnd (cosFdLseek o.cosfd s.dirSize s) o.cosfd := by
          intro moved isMoved
          right
          dsimp only [cosFdLseek] at isMoved ⊢
          rw [List.getElem?_modify, isNative] at isMoved
          simp only [if_true, Option.map_eq_map, Option.map_some, Option.some.injEq] at isMoved
          rw [← isMoved]
          exact synced
        obtain ⟨u, isLoop, contents, slots, ofds, modes⟩ := zeroLoop_spec nsz s.dirSize (cosFdLseek o.cosfd s.dirSize s)
          (Nat.le_add_left nsz _) synced isOther (isMode ▸ writes writable) atEnd
        rw [isLoop]
        refine ⟨rfl, ?_, sound.congr ((sameModes_lseek _ _ _).trans modes) slots (by rw [ofds]; rfl) fun o member => ?_⟩
        · rw [FileState.posix, contents, ofds, slots, synced]
          rfl
        · rw [ofds] at member
          exact ⟨o, member, rfl, rfl⟩
      next short =>
        have same : s.contents.length = nsz := by omega
        refine ⟨rfl, ?_, sound⟩
        dsimp only [FileState.posix]
        rw [same, Nat.sub_self]
        simp

theorem fileStep_agrees (op : FileOp) (sound : FilesSound s) (allowed : fileAllowed s op) :
    Agrees (fileStep s op) (posixStep s.posix op) := by
  cases op with
  | «open» => exact doOpen_agrees sound allowed
  | dup => exact fileDup_agrees sound
  | read => exact userRead_agrees sound allowed
  | pread => exact userRead_agrees sound allowed
  | write => exact userWrite_agrees sound allowed
  | pwrite => exact userWrite_agrees sound allowed
  | lseek => exact fileLseek_agrees sound allowed
  | setfl => exact fileSetfl_agrees sound
  | ftruncate => exact fileTruncate_agrees sound allowed

end Native

def freshFile (contents : List UInt8) : FileState :=
  ⟨contents, contents.length, [], [], List.replicate 1024 none⟩

theorem freshFile_sound (contents : List UInt8) : FilesSound (freshFile contents) where
  natives := by
    intro o member
    cases member
  slots := by
    intro k member
    cases List.eq_of_mem_replicate member

/-- In every run of the calls in which each one is allowed, the answers are those of the byte-array
file, and afterwards the bytes, the offsets and the descriptors are. -/
theorem files_refine (contents : List UInt8) (ops : List FileOp)
    (allowed : StepsAllowed (fun state op => (fileStep state op).2) fileAllowed (freshFile contents) ops) :
    (runTrace fileStep (freshFile contents) ops).1 = (runTrace posixStep (freshFile contents).posix ops).1 ∧
      (runTrace fileStep (freshFile contents) ops).2.posix = (runTrace posixStep (freshFile contents).posix ops).2 := by
  have simulates : ∀ state model op, (state.posix = model ∧ FilesSound state) →
      fileAllowed state op → (fileStep state op).1 = (posixStep model op).1 ∧
        ((fileStep state op).2.posix = (posixStep model op).2 ∧ FilesSound (fileStep state op).2) := by
    rintro state _ op ⟨rfl, sound⟩ permitted
    exact fileStep_agrees op sound permitted
  obtain ⟨answers, same, -⟩ := runTrace_simulates simulates ⟨rfl, freshFile_sound contents⟩ allowed
  exact ⟨answers, same⟩

def anyPiece : PieceLuck := ⟨fun _ => true, fun _ => true⟩

theorem anyPiece_good : anyPiece.Good := fun _ => ⟨rfl, rfl⟩

/-- A write over the end, read back through a duplicate, and a longer size. -/
def growingCalls : List FileOp :=
  [.open .rdwr false false false true true, .dup 0, .lseek 1 2 0, .write anyPiece 0 [7, 8, 9],
    .pread anyPiece 1 9 0]

theorem files_refine_growing :
    (runTrace fileStep (freshFile [1, 2, 3]) growingCalls).1 =
        (runTrace posixStep (freshFile [1, 2, 3]).posix growingCalls).1 ∧
      (runTrace fileStep (freshFile [1, 2, 3]) growingCalls).2.contents = [1, 2, 7, 8, 9] := by
  have wrote : (runTrace fileStep (freshFile [1, 2, 3]) growingCalls).2.contents =
    [1, 2, 7, 8, 9] := by decide
  refine ⟨(files_refine [1, 2, 3] growingCalls ?_).1, wrote⟩
  refine ⟨⟨by simp, by simp, by simp⟩, trivial, fun isEnd => absurd isEnd (by decide), ?_, ?_,
    trivial⟩
  · intro k o found
    cases found.symm.trans (by decide : _ = some (0, FileOfd.mk 0 2 .rdwr false))
    exact ⟨anyPiece_good, by decide, by simp [AppendReady]⟩
  · intro k o found
    cases found.symm.trans (by decide : _ = some (0, FileOfd.mk 0 5 .rdwr false))
    exact ⟨anyPiece_good, by decide, by decide⟩

/-- A shrinking `ftruncate` succeeds and the file keeps its size. -/
theorem ftruncate_keeps_size :
    (runTrace fileStep (freshFile [1, 2, 3, 4, 5]) [.open .rdwr false false false true true,
        .ftruncate 0 2]).1 = [⟨0, []⟩, ⟨0, []⟩] ∧
      (runTrace fileStep (freshFile [1, 2, 3, 4, 5])
        [.open .rdwr false false false true true, .ftruncate 0 2]).2.contents.length = 5 ∧
      (runTrace posixStep (freshFile [1, 2, 3, 4, 5]).posix
        [.open .rdwr false false false true true, .ftruncate 0 2]).2.contents.length = 2 := by
  decide

end Cos.Linux
