-- SUMMARY: What the command needs of the place it runs in: files and two output streams.

/-!
# Hosts

The command reads files, may write its diagnostics to one, and has two output streams. A host provides
these in some monad, so that the same command runs on the file system and in memory.
-/

namespace Lowering.Command

/-- Why a file cannot be used. -/
inductive FileError where
  | system (text : String) (code : Nat)
  | notText
  deriving DecidableEq, Repr

namespace FileError

def missing : FileError := .system "No such file or directory" 2

def notDirectory : FileError := .system "Not a directory" 20

def isDirectory : FileError := .system "Is a directory" 21

/-- The error with a code of the system. The text is for codes that are not listed here. -/
def ofCode (text : String) : Nat → FileError
  | 2 => missing
  | 13 => .system "Permission denied" 13
  | 20 => notDirectory
  | 21 => isDirectory
  | code => .system text code

def message : FileError → String
  | system text code => s!"{text} (os error {code})"
  | notText => "stream did not contain valid UTF-8"

end FileError

structure Host (m : Type → Type) where
  /-- The text of a file. -/
  read : String → m (Except FileError String)
  /-- Opens a file for writing, keeping what it holds if so asked, and gives the way to add to it. -/
  openLog : (path : String) → (keep : Bool) → m (Except FileError (String → m Unit))
  out : String → m Unit
  err : String → m Unit

end Lowering.Command
