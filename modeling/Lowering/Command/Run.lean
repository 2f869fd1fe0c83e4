-- SUMMARY: Running the command: listing libraries and mnemonics, and lowering the inputs.
import Lowering.Command.Host
import Lowering.Command.Settings
import Lowering.Listing
import Lowering.Registry

/-!
# Running the command

Listings go to the output. Diagnostics go to the log, which is opened before the first input is read.
An input that cannot be read is reported to the log, and the other inputs are still lowered.
-/

namespace Lowering.Command

/-! ## Texts -/

/-- A text, filled with spaces up to a width. -/
def padded (width : Nat) (text : String) : String := text.pushn ' ' (width - text.length)

/-- The names and descriptions of the libraries. -/
def librariesText (registry : Registry) : OutputFormat → String
  | .text =>
    String.join (registry.slots.map fun slot =>
      padded 12 slot.registration.name ++ " " ++ slot.registration.description ++ "\n")
  | .json =>
    (Json.arr (registry.slots.map fun slot =>
      .object [("name", .str slot.registration.name),
        ("description", .str slot.registration.description)])).render ++ "\n"

/-- The mnemonics of a library. -/
def mnemonicsText (library : Library) : OutputFormat → String
  | .text => String.join (library.mnemonics.map (· ++ "\n"))
  | .json =>
    (Json.object [("library", .str library.name), ("mnemonics", .strings library.mnemonics)]).render
      ++ "\n"

def reportText (report : Report) : OutputFormat → String
  | .text => report.text
  | .json => report.json.render ++ "\n"

/-- A diagnostic for an input. -/
def diagnosticText (path : String) (d : Diagnostic) : OutputFormat → String
  | .text => s!"{path}:{d.text}"
  | .json => (Json.object (("file", .str path) :: d.fields)).render

namespace Settings

/-- The diagnostics of a report that are shown. -/
def shown (s : Settings) (report : Report) : List Diagnostic :=
  report.diagnostics.filter fun d => s.showWarnings || d.severity ≠ .warning

/-- The lines that the log gets for an input: its diagnostics and, in text, why its unit stopped. -/
def logLines (s : Settings) (path : String) (report : Report) (stopped : Option Stopped) :
    List String :=
  (s.shown report).map (fun d => diagnosticText path d s.format) ++
    match s.format with
    | .text => (stopped.map Stopped.text).toList
    | .json => []

end Settings

/-! ## Runs -/

section

variable {m : Type → Type} [Monad m]

/-- Writes a line to the log, if there is one. -/
def writeLine (log : Option (String → m Unit)) (line : String) : m Unit :=
  match log with
  | some write => write (line ++ "\n")
  | none => pure ()

/-- Opens the log. -/
def Host.log (host : Host m) : Log → m (Except FileError (Option (String → m Unit)))
  | .nowhere => pure (.ok none)
  | .stderr => pure (.ok (some host.err))
  | .file path append => do return (← host.openLog path append).map some

/-- Lowers one input. Says whether all went well. -/
def lowerInput (host : Host m) (s : Settings) (library : Library) (log : Option (String → m Unit))
    (path : String) : m Bool := do
  match ← host.read path with
  | .error e =>
    writeLine log s!"{path}: {e.message}"
    return false
  | .ok text =>
    let (report, stopped) :=
      match lowerText library (s.unit path) text with
      | .ok report => (report, none)
      | .error stopped => (stopped.report, some stopped)
    host.out (reportText report s.format)
    (s.logLines path report stopped).forM (writeLine log)
    return !report.hasErrors

/-- Lowers the inputs in order. Says whether all went well. -/
def lowerInputs (host : Host m) (s : Settings) (library : Library) : m Bool := do
  match ← host.log s.log with
  | .error e =>
    host.err s!"Failed to open diagnostics sink: {e.message}\n"
    return false
  | .ok log => return (← s.inputs.mapM (lowerInput host s library log)).all id

/-- The library that the settings name, or the first. -/
def Settings.findLibrary (s : Settings) (registry : Registry) : Except RegistryError Library :=
  (registry.get ((s.library <|> registry.libraryNames.head?).getD "")).1

/-- Does what the settings say. Says whether all went well. -/
def Settings.run (s : Settings) (host : Host m) (registry : Registry) : m Bool := do
  if s.task = .listLibraries then
    host.out (librariesText registry s.format)
    return true
  match s.findLibrary registry with
  | .error e =>
    host.err (e.message ++ "\n")
    return false
  | .ok library =>
    if s.task = .listMnemonics then
      host.out (mnemonicsText library s.format)
      return true
    lowerInputs host s library

/-- Runs the command with its arguments. Says whether all went well, if the arguments can be run. -/
def run (host : Host m) (env : Environment) (arguments : List String) : m (Except Refusal Bool) := do
  match Arguments.parse arguments with
  | .error refusal => return .error refusal
  | .ok arguments =>
    match arguments.settings env with
    | .error e =>
      host.err (e.message ++ "\n")
      return .ok false
    | .ok settings => return .ok (← settings.run host .shipped)

end

/-- The exit code of a run. -/
def exitCode : Except Refusal Bool → UInt32
  | .ok true => 0
  | .ok false => 1
  | .error refusal => refusal.exitCode

end Lowering.Command
