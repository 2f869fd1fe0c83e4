-- SUMMARY: Diagnostics: a failure or a notice at a source line, with its severity, notes and help.
import Lowering.Failure

/-!
# Diagnostics

A diagnostic tells the user about one failure or one ignored operation of a source line.
-/

namespace Lowering

structure Diagnostic where
  line : Nat
  mnemonic : Option String := none
  code : String := "lfe000"
  severity : Severity
  message : String
  notes : List String := []
  help : List String := []
  deriving DecidableEq, Repr

namespace Diagnostic

/-- The diagnostic of a failure. An unsupported operation repeats its hint as help. -/
def ofFailure (line : Nat) (f : Failure) : Diagnostic where
  line := line
  mnemonic := f.mnemonic
  code := f.kind.code
  severity := f.severity
  message := f.message
  help := if f.kind = .unsupportedOperation then [f.message] else []

/-- The warning for an operation that is accepted and has no effect. -/
def ofNotice (line : Nat) (mnemonic notice : String) : Diagnostic where
  line := line
  mnemonic := some mnemonic
  code := "lfw001"
  severity := .warning
  message := notice

/-- Adds a note after those already there. -/
def withNote (d : Diagnostic) (note : String) : Diagnostic := { d with notes := d.notes ++ [note] }

/-- Adds a line of help after those already there. -/
def withHelp (d : Diagnostic) (help : String) : Diagnostic := { d with help := d.help ++ [help] }

/-- The severity as a heading. -/
def heading : Severity → String
  | .warning => "WARNING"
  | .error => "ERROR"

def text (d : Diagnostic) : String :=
  let subject :=
    match d.mnemonic with
    | some mnemonic => mnemonic ++ " "
    | none => ""
  s!"{d.line}: {heading d.severity} [{d.code}] {subject}- {d.message}"

end Diagnostic

end Lowering
