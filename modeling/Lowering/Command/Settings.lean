-- SUMMARY: Settings of a run: the arguments completed by the environment.
import Lowering.Command.Arguments
import Lowering.Command.Path
import Lowering.Session
import Lowering.Text.Blank
import Lowering.Text.Case

/-!
# Settings

Variables of the environment stand in for options that are not given. White space around their values
does not count, and a blank value is none.
-/

namespace Lowering.Command

/-- The value of each variable. -/
abbrev Environment := String → Option String

/-- What a run does. -/
inductive Task where
  | listLibraries
  | listMnemonics
  | lower
  deriving DecidableEq, Repr

/-- Where diagnostics go. -/
inductive Log where
  | stderr
  | nowhere
  | file (path : String) (append : Bool)
  deriving DecidableEq, Repr

structure Settings where
  task : Task
  library : Option String
  className : Option String
  inputs : List String
  policy : ErrorPolicy
  format : OutputFormat
  log : Log
  showWarnings : Bool
  warningsAsErrors : Bool
  deriving DecidableEq, Repr

inductive SettingsError where
  | notBoolean (name value : String)
  | noInputs
  | classForMany
  deriving DecidableEq, Repr

def SettingsError.message : SettingsError → String
  | notBoolean name value => s!"Invalid boolean value for {name}: {value}"
  | noInputs =>
    "No input files. Pass at least one INPUT or use --list-libraries/--list-mnemonics."
  | classForMany =>
    "--class cannot be used with multiple inputs; class names default to each input's file stem"

/-! ## Environment -/

/-- The variables that settings can come from. -/
def variableNames : List String :=
  ["LOWERFORGE_LIBRARY", "LOWERFORGE_CLASS", "LOWERFORGE_KEEP_GOING", "LOWERFORGE_NO_WARN",
   "LOWERFORGE_WERROR", "LOWERFORGE_ERROR_FILE"]

namespace Environment

/-- A variable with a text. -/
def text? (env : Environment) (name : String) : Option String :=
  ((env name).map Text.trimmed).filter (· ≠ "")

/-- A variable that says yes or no, in any case. -/
def truth? (env : Environment) (name : String) : Except SettingsError (Option Bool) :=
  match (env.text? name).map Text.lower with
  | none => .ok none
  | some value =>
    if value ∈ ["1", "true", "yes", "on"] then .ok (some true)
    else if value ∈ ["0", "false", "no", "off"] then .ok (some false)
    else .error (.notBoolean name value)

end Environment

/-! ## Settings -/

namespace Arguments

def task (a : Arguments) : Task :=
  if a.has .listLibraries then .listLibraries
  else if a.has .listMnemonics then .listMnemonics
  else .lower

/-- Where diagnostics go, given the file that the environment names. -/
def logTo (a : Arguments) (fallback : Option String) : Log :=
  if a.has .noLog then .nowhere
  else
    match a.log <|> fallback with
    | some path => .file path (a.has .appendLog)
    | none => .stderr

/-- Completes arguments to settings. A flag for warnings overrides both variables for them, and
silence overrides strictness. -/
def settings (a : Arguments) (env : Environment) : Except SettingsError Settings := do
  let keepGoing ← env.truth? "LOWERFORGE_KEEP_GOING"
  let noWarnings ← env.truth? "LOWERFORGE_NO_WARN"
  let strict ← env.truth? "LOWERFORGE_WERROR"
  if a.task = .lower ∧ a.inputs = [] then throw .noInputs
  let className := a.className <|> env.text? "LOWERFORGE_CLASS"
  if className.isSome ∧ 1 < a.inputs.length then throw .classForMany
  let silent := a.has .noWarnings || (!a.has .warningsAsErrors && noWarnings.getD false)
  return {
    task := a.task
    library := a.library <|> env.text? "LOWERFORGE_LIBRARY"
    className
    inputs := a.inputs
    policy := if a.has .keepGoing || keepGoing.getD false then .keepGoing else .stop
    format := a.format.getD .text
    log := a.logTo (env.text? "LOWERFORGE_ERROR_FILE")
    showWarnings := !silent
    warningsAsErrors := a.has .warningsAsErrors || (!silent && strict.getD false) }

end Arguments

/-- How an input is lowered. Its class is named after the file, unless the settings name one. -/
def Settings.unit (s : Settings) (path : String) : UnitConfig where
  className := (s.className <|> Path.stem? path).getD "Module"
  policy := s.policy
  warningsAsErrors := s.warningsAsErrors

end Lowering.Command
