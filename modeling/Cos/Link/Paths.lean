import Cos.Elf.Image

/-! # Finding a library on disk

`resolve_needed` turns a `DT_NEEDED` name into the path of a file: an absolute name is taken
as it is, any other is looked for along `DT_RUNPATH`, `DT_RPATH`, the directory of the object
that asks, the process's own search path and the system's.
-/

namespace Cos.Link

open Cos.Elf

/-- `COS_ELF_MAX_PATH` bytes, of which one is the terminator. -/
def maxPath : Nat := 255

def slash : UInt8 := 47
def colon : UInt8 := 58

/-- The disk, as far as the linker reads it: what the first four bytes of a file are, and the
file as an object if its header is a valid one. -/
structure FileSystem where
  magic : CString → List UInt8
  image : CString → Option ElfImage

/-- `path_dirname`: up to the last slash. -/
def pathDirname (path : CString) : CString :=
  let shown := path.take maxPath
  let stem := (shown.reverse.dropWhile (· ≠ slash)).drop 1
  if stem = [] then [slash] else stem.reverse

def pathJoin (dir name : CString) : CString :=
  let head := dir.take maxPath
  let head :=
    if head ≠ [] ∧ head.getLast? ≠ some slash ∧ head.length < maxPath then head ++ [slash] else head
  head ++ name.take (maxPath - head.length)

def elfMagic : List UInt8 := [0x7f, 69, 76, 70]

def tryPath (files : FileSystem) (dir name : CString) : Option CString :=
  if (files.magic (pathJoin dir name)).take 4 = elfMagic then some (pathJoin dir name) else none

def pathList : CString → CString → List CString
  | dir, [] => [dir]
  | dir, c :: rest => if c = colon then dir :: pathList [] rest else pathList (dir ++ [c]) rest

def tryPathList (files : FileSystem) (list name : CString) : Option CString :=
  (pathList [] list).findSome? fun dir =>
    if dir = [] then none else tryPath files (dir.take maxPath) name

structure Requester where
  path : CString
  runpath : CString
  rpath : CString
deriving DecidableEq

/-- The places `resolve_needed` searches for the sake of the object that asks. -/
def tryRequester (files : FileSystem) (requester : Requester) (name : CString) : Option CString :=
  (tryPathList files requester.runpath name).or
    ((tryPathList files requester.rpath name).or
      (tryPath files (pathDirname requester.path) name))

def resolveNeeded (files : FileSystem) (searchPath userPath : CString)
    (requester : Option Requester) (name : CString) : Option CString :=
  match name with
  | [] => none
  | c :: _ =>
      if c = slash then
        match files.magic name with
        | 0x7f :: _ :: _ :: _ :: _ => some (name.take maxPath)
        | _ => none
      else
        (requester.bind fun asks => tryRequester files asks name).or
          ((tryPathList files userPath name).or (tryPathList files searchPath name))

end Cos.Link
