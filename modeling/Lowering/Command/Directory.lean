-- SUMMARY: A directory tree in memory, and running the command in it.
import Lowering.Command.Host
import Lowering.Command.Path

/-!
# Directories in memory

A directory tree is given by its files. A directory is there if a file is below it, and the parent of
the top is the top itself. The command can run in such a tree, which makes its effects a function of
the files.
-/

namespace Lowering.Command

/-- The files of a tree, each with the names that lead to it. -/
structure Directory where
  files : List (List String × ByteArray) := []

namespace Directory

def file? (d : Directory) (place : List String) : Option ByteArray := d.files.lookup place

def isDirectory (d : Directory) (place : List String) : Bool :=
  place.isEmpty || d.files.any fun file => place.isPrefixOf file.1 && file.1 ≠ place

/-- Follows the parts of a path from a place. All but the last must lead to directories. -/
def follow (d : Directory) (place : List String) : List String → Except FileError (List String)
  | [] => .ok place
  | part :: parts =>
    if Path.isIdle part then follow d place parts
    else if part = ".." then follow d place.dropLast parts
    else
      let next := place ++ [part]
      if parts.isEmpty || d.isDirectory next then follow d next parts
      else if (d.file? next).isSome then .error .notDirectory
      else .error .missing

/-- The place that a path leads to. -/
def place (d : Directory) (path : String) : Except FileError (List String) :=
  d.follow [] (Path.parts path)

/-- What a file holds. -/
def read (d : Directory) (path : String) : Except FileError ByteArray := do
  let place ← d.place path
  if d.isDirectory place then throw .isDirectory
  match d.file? place with
  | some bytes => return bytes
  | none => throw .missing

/-- The text of a file. -/
def readText (d : Directory) (path : String) : Except FileError String := do
  match String.fromUTF8? (← d.read path) with
  | some text => return text
  | none => throw .notText

/-- The tree with a file in it. -/
def write (d : Directory) (place : List String) (bytes : ByteArray) : Directory where
  files := (place, bytes) :: d.files.filter fun file => file.1 ≠ place

/-- The tree with a file of this path in it. -/
def add (d : Directory) (path : String) (bytes : ByteArray) : Directory :=
  d.write ((Path.parts path).filter fun part => !Path.isIdle part) bytes

/-- The place of a file that is to be written. A path that ends with a slash can only be a
directory. -/
def target (d : Directory) (path : String) : Except FileError (List String) := do
  let parts := (Path.parts path).reverse.dropWhile (· = "")
  let place ← d.follow [] parts.reverse
  if d.isDirectory place || (Path.parts path).getLast? = some "" then throw .isDirectory
  return place

end Directory

/-! ## Running in memory -/

/-- A directory tree, and what has been written to the streams. -/
structure Memory where
  directory : Directory
  out : String := ""
  err : String := ""

namespace Memory

/-- Adds to a file. -/
def append (place : List String) (text : String) (mem : Memory) : Memory :=
  let old := (mem.directory.file? place).getD ByteArray.empty
  { mem with directory := mem.directory.write place (old ++ text.toUTF8) }

/-- Opens a file for writing. -/
def openLog (path : String) (keep : Bool) :
    StateM Memory (Except FileError (String → StateM Memory Unit)) := do
  match (← get).directory.target path with
  | .error e => return .error e
  | .ok place =>
    modify fun mem =>
      let old := if keep then (mem.directory.file? place).getD ByteArray.empty else ByteArray.empty
      { mem with directory := mem.directory.write place old }
    return .ok fun text => modify (append place text)

def host : Host (StateM Memory) where
  read path := do return (← get).directory.readText path
  openLog := openLog
  out text := modify fun mem => { mem with out := mem.out ++ text }
  err text := modify fun mem => { mem with err := mem.err ++ text }

end Memory

end Lowering.Command
