import Cos.Elf.UserMemory

/-! # The initial stack

`cos_elf_setup_stack_ex` lays out what a program finds on its stack: the strings and the
random bytes from the top down, and below them the pointer block with the argument count,
the two pointer arrays and the auxiliary vector.  `readStack` reads the block the way the
System V ABI tells a program to.
-/

namespace Cos.Elf

/-- `COS_ELF_MAX_ARGC` and `COS_ELF_MAX_ENVC`, `COS_ELF_MAX_ARG_LEN`, `COS_ELF_STACK_ARG_BUDGET`. -/
def maxArgc : Nat := 256
def maxEnvc : Nat := 256
def maxArgLen : Nat := 1023
def stackArgBudget : Nat := 64 * 1024

/-- `cos_elf_stack_params_t`; a `NULL` string is absent. -/
structure StackParams where
  argv : List (Option CString)
  envp : List (Option CString)
  atPhdr : Addr
  atPhent : Addr
  atPhnum : Addr
  atBase : Addr
  atEntry : Addr
  atLinkmap : Addr
  atTp : Addr
  atSysinfoEhdr : Addr
  atRandomSeed : Addr × Addr
  execfn : Option CString
  secure : Bool
deriving DecidableEq, Repr

/-- `stack_cursor_t`, with the memory it writes to. -/
structure StackCursor where
  mem : UserMem
  p : Addr
  floor : Addr

/-- `cursor_push`; none stands for a cursor that is no longer `ok`. -/
def cursorPush (c : StackCursor) (data : List UInt8) (alignment : Addr) :
    Option (StackCursor × Addr) :=
  let p := c.p - BitVec.ofNat 64 data.length
  let p := if 1#64 < alignment then p &&& ~~~(alignment - 1) else p
  if p < c.floor then none
  else
    match userWrite c.mem p data with
    | none => none
    | some mem => some ({ c with mem := mem, p := p }, p)

def cutString (s : CString) : CString := (s.takeWhile (· ≠ 0)).take maxArgLen

/-- `cursor_push_str`: the room is zeroed, the bytes and the terminator are written into it. -/
def cursorPushStr (c : StackCursor) (s : CString) : Option (StackCursor × Addr) :=
  let s := cutString s
  match cursorPush c (List.replicate (s.length + 1) 0) 1 with
  | none => none
  | some (c, at_) =>
      match if s.length = 0 then some c.mem else userWrite c.mem at_ s with
      | none => none
      | some mem =>
          match userWrite mem (at_ + BitVec.ofNat 64 s.length) [0] with
          | none => none
          | some mem => some ({ c with mem := mem }, at_)

/-- The strings of `argv` or `envp`, the last one first; a `NULL` entry counts as empty. -/
def pushStrings (c : StackCursor) : List (Option CString) → Option (StackCursor × List Addr)
  | [] => some (c, [])
  | s :: rest =>
      match pushStrings c rest with
      | none => none
      | some (c, pointers) =>
          match cursorPushStr c (s.getD []) with
          | none => none
          | some (c, at_) => some (c, at_ :: pointers)

def pushExecfn (c : StackCursor) : Option CString → Option (StackCursor × Addr)
  | some name => cursorPushStr c name
  | none => some (c, 0)

/-- `AUX`, which leaves an entry out when the local array of 24 is full. -/
def pushAux (aux : List (Addr × Addr)) (entry : Addr × Addr) : List (Addr × Addr) :=
  if 2 * aux.length + 2 ≤ 48 then aux ++ [entry] else aux

def auxUnlessZero (tag value : Addr) : List (Addr × Addr) :=
  if value ≠ 0 then [(tag, value)] else []

/-- The auxiliary vector, from the parameters and the addresses of the random bytes, the
platform string and the file name. -/
def auxEntries (params : StackParams) (random platform execfn : Addr) : List (Addr × Addr) :=
  [(6, 4096), (17, 100)] ++ auxUnlessZero 3 params.atPhdr ++ auxUnlessZero 4 params.atPhent ++
    auxUnlessZero 5 params.atPhnum ++ auxUnlessZero 9 params.atEntry ++
    [(7, params.atBase), (8, 0), (11, 0), (12, 0), (13, 0), (14, 0),
    (23, if params.secure then 1 else 0)] ++
    auxUnlessZero 25 random ++ auxUnlessZero 15 platform ++ auxUnlessZero 31 execfn ++ [(16, 0)] ++
    auxUnlessZero 33 params.atSysinfoEhdr ++ auxUnlessZero 0x434F5300 params.atLinkmap ++
    auxUnlessZero 0x434F5301 params.atTp ++ [(0, 0)]

/-- The words of the pointer block, one `user_write` each. -/
def writeWords (mem : UserMem) (cur : Addr) : List Addr → Option UserMem
  | [] => some mem
  | word :: rest =>
      match userWrite mem cur (leBytes word 8) with
      | none => none
      | some mem => writeWords mem (cur + 8) rest

/-- The characters of `x86_64`. -/
def platformName : CString := [0x78, 0x38, 0x36, 0x5F, 0x36, 0x34]

/-- The words from the argument count to the end of the auxiliary vector. -/
def pointerBlock (argPtrs envPtrs : List Addr) (aux : List (Addr × Addr)) : List Addr :=
  BitVec.ofNat 64 argPtrs.length ::
    (argPtrs ++ [0] ++ envPtrs ++ [0] ++ aux.flatMap fun entry => [entry.1, entry.2])

/-- The last part of `cos_elf_setup_stack_ex`. -/
def pushPointerBlock (c : StackCursor) (words : List Addr) : Option (UserMem × Addr) :=
  let p := c.p &&& ~~~(0xF#64)
  let p := if words.length % 2 = 1 then p - 8 else p
  let p := p - BitVec.ofNat 64 (words.length * 8)
  if p < c.floor ∨ p &&& 0xF#64 ≠ 0 then none
  else
    match writeWords c.mem p words with
    | none => none
    | some mem => some (mem, p)

/-- `cos_elf_setup_stack_ex`: the memory afterwards and the stack pointer. -/
def cosElfSetupStackEx (mem : UserMem) (stackTop : Addr) (params : StackParams) :
    Option (UserMem × Addr) :=
  if params.argv.length > maxArgc ∨ params.envp.length > maxEnvc ∨
    stackTop.toNat < stackArgBudget then none
  else do
    let c : StackCursor := ⟨mem, (stackTop &&& ~~~(0xF#64)) - 16, stackTop - BitVec.ofNat 64 stackArgBudget⟩
    let (c, random) ← cursorPush c (leBytes params.atRandomSeed.1 8 ++ leBytes params.atRandomSeed.2 8) 8
    let (c, platform) ← cursorPushStr c platformName
    let (c, execfn) ← pushExecfn c params.execfn
    let (c, envPtrs) ← pushStrings c params.envp
    let (c, argPtrs) ← pushStrings c params.argv
    let aux := (auxEntries params random platform execfn).foldl pushAux []
    pushPointerBlock c (pointerBlock argPtrs envPtrs aux)

def readWord (mem : UserMem) (addr : Addr) : Option Addr := (userRead mem addr 8).map ofLeBytes

/-- The bytes up to a terminator, which is among the next `fuel` bytes. -/
def readString (mem : UserMem) : Nat → Addr → Option CString
  | 0, _ => none
  | fuel + 1, addr =>
      match mem addr with
      | none => none
      | some byte => if byte = 0 then some [] else (readString mem fuel (addr + 1)).map (byte :: ·)

def readWords (mem : UserMem) : Nat → Addr → Option (List Addr)
  | 0, _ => some []
  | count + 1, addr => do
      let word ← readWord mem addr
      let rest ← readWords mem count (addr + 8)
      return word :: rest

/-- The pointers up to a `NULL`. -/
def readUntilNull (mem : UserMem) : Nat → Addr → Option (List Addr)
  | 0, _ => none
  | fuel + 1, addr => do
      let word ← readWord mem addr
      if word = 0 then return []
      let rest ← readUntilNull mem fuel (addr + 8)
      return word :: rest

/-- The pairs up to `AT_NULL`, which is the last of them. -/
def readAuxv (mem : UserMem) : Nat → Addr → Option (List (Addr × Addr))
  | 0, _ => none
  | fuel + 1, addr => do
      let tag ← readWord mem addr
      let value ← readWord mem (addr + 8)
      if tag = 0 then return [(tag, value)]
      let rest ← readAuxv mem fuel (addr + 16)
      return (tag, value) :: rest

structure InitialStack where
  argv : List (Addr × CString)
  envp : List (Addr × CString)
  auxv : List (Addr × Addr)
deriving DecidableEq, Repr

def readStrings (mem : UserMem) (pointers : List Addr) : Option (List (Addr × CString)) :=
  pointers.mapM fun pointer => (readString mem (maxArgLen + 1) pointer).map fun s => (pointer, s)

def readStack (mem : UserMem) (rsp : Addr) : Option InitialStack := do
  let argc ← readWord mem rsp
  let argPtrs ← readWords mem argc.toNat (rsp + 8)
  let afterArgs := rsp + 8 + BitVec.ofNat 64 (8 * argc.toNat)
  let null ← readWord mem afterArgs
  if null ≠ 0 then failure
  let envPtrs ← readUntilNull mem (maxEnvc + 1) (afterArgs + 8)
  let auxv ← readAuxv mem 24 (afterArgs + 8 + BitVec.ofNat 64 (8 * envPtrs.length) + 8)
  let argv ← readStrings mem argPtrs
  let envp ← readStrings mem envPtrs
  return ⟨argv, envp, auxv⟩

end Cos.Elf
