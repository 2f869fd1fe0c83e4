-- SUMMARY: The command line.
import Lowering.Command.Run

/-!
# Main

The command on the file system.
-/

namespace Lowering.Command

def helpText : String :=
"Macro-expand wasm-style instructions into JVM primitives

Usage: lowerforge [OPTIONS] [INPUT]...

  -L, --library <NAME>  macro library to translate with (name or alias)
      --class <NAME>    owning class name, by default the file stem of the input
      --format <FORMAT> listing format: text (default) or json
      --keep-going      continue after a failed instruction
  -E, --error <FILE>    write diagnostics to FILE instead of stderr
      --error-append    append diagnostics to FILE
      --no-error        disable diagnostics
  -w, --no-warn         suppress warnings
      --Werror          treat warnings as errors
      --list-libraries  print the macro libraries
      --list-mnemonics  print the mnemonics of the library
  -h, --help            print help
  -V, --version         print version
"

def Refusal.text : Refusal → String
  | .help => helpText
  | .version => "lowerforge 0.1.0\n"
  | .unknownOption => "error: unexpected argument\n"
  | .conflict => "error: an argument cannot be used with another, or not twice\n"
  | .invalidValue => "error: a value is missing or invalid\n"
  | .unexpectedValue => "error: a flag takes no value\n"
  | .missingOption => "error: --error-append requires --error <FILE>\n"

/-- The cause for a code, which some operations give with its sign changed. -/
def codedError (code : UInt32) (text : String) : FileError :=
  .ofCode text (if code < 0x80000000 then code else 0 - code).toNat

/-- The cause of a failed operation on a file. -/
def fileError : IO.Error → FileError
  | .noFileOrDirectory _ code text => codedError code text
  | .permissionDenied _ code text => codedError code text
  | .inappropriateType _ code text => codedError code text
  | .invalidArgument _ code text => codedError code text
  | .resourceExhausted _ code text => codedError code text
  | .alreadyExists _ code text => codedError code text
  | .otherError code text => codedError code text
  | e => .system (toString e) 0

/-- An action on a file, with the cause if it fails. -/
def attemptFile {α : Type} (action : IO α) : IO (Except FileError α) := do
  match ← action.toBaseIO with
  | .ok a => return .ok a
  | .error e => return .error (fileError e)

def fileSystem : Host IO where
  read path := do
    return (← attemptFile (IO.FS.readBinFile path)).bind fun bytes =>
      match String.fromUTF8? bytes with
      | some text => .ok text
      | none => .error .notText
  openLog path keep :=
    attemptFile do
      let handle ← IO.FS.Handle.mk path (if keep then .append else .write)
      return fun text => do
        handle.putStr text
        handle.flush
  out text := do (← IO.getStdout).putStr text
  err text := do (← IO.getStderr).putStr text

end Lowering.Command

open Lowering.Command in
def main (arguments : List String) : IO UInt32 := do
  let values ← variableNames.mapM fun name => do return (name, ← IO.getEnv name)
  let result ← run fileSystem (fun name => (values.lookup name).join) arguments
  match result with
  | .error refusal =>
    let stream ← if refusal.exitCode = 0 then IO.getStdout else IO.getStderr
    stream.putStr refusal.text
  | .ok _ => pure ()
  return exitCode result
