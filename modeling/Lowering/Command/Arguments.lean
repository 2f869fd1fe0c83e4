-- SUMMARY: Command-line arguments: options with values, flags, inputs, and how they are read.
import Lowering.Text.Search

/-!
# Arguments

A long option is `--name value` or `--name=value`, a short one `-Lvalue`, `-L=value` or `-L value`.
Short flags can be bundled. Two dashes end the options, and a single dash is an input.

An option or an input is settled when the next option or the end of the arguments is reached, so a
word that is no option at all is reported before a bad value that stands ahead of it.
-/

namespace Lowering.Command

inductive OutputFormat where
  | text
  | json
  deriving DecidableEq, Repr

def OutputFormat.ofName? : String → Option OutputFormat
  | "text" => some .text
  | "json" => some .json
  | _ => none

/-- An option that takes a value. -/
inductive Parameter where
  | library
  | className
  | format
  | log
  deriving DecidableEq, Repr

/-- An option without a value. -/
inductive Flag where
  | keepGoing
  | appendLog
  | noLog
  | noWarnings
  | warningsAsErrors
  | listLibraries
  | listMnemonics
  deriving DecidableEq, Repr

inductive Switch where
  | parameter (p : Parameter)
  | flag (f : Flag)
  | help
  | version
  deriving DecidableEq, Repr

def Switch.long? : String → Option Switch
  | "library" => some (.parameter .library)
  | "class" => some (.parameter .className)
  | "format" => some (.parameter .format)
  | "error" => some (.parameter .log)
  | "keep-going" => some (.flag .keepGoing)
  | "error-append" => some (.flag .appendLog)
  | "no-error" => some (.flag .noLog)
  | "no-warn" => some (.flag .noWarnings)
  | "Werror" => some (.flag .warningsAsErrors)
  | "list-libraries" => some (.flag .listLibraries)
  | "list-mnemonics" => some (.flag .listMnemonics)
  | "help" => some .help
  | "version" => some .version
  | _ => none

def Switch.short? : Char → Option Switch
  | 'L' => some (.parameter .library)
  | 'E' => some (.parameter .log)
  | 'w' => some (.flag .noWarnings)
  | 'h' => some .help
  | 'V' => some .version
  | _ => none

/-- Why arguments are not run. Help and version are asked for, the others are mistakes. -/
inductive Refusal where
  | help
  | version
  | unknownOption
  | conflict
  | invalidValue
  | unexpectedValue
  | missingOption
  deriving DecidableEq, Repr

def Refusal.exitCode : Refusal → UInt32
  | help | version => 0
  | _ => 2

/-! ## Words -/

/-- What an argument looks like. -/
inductive Word where
  | endOfOptions
  | long (name : String) (value : Option String)
  | short (letters : List Char)
  | plain
  deriving DecidableEq, Repr

def Word.ofArgument (argument : String) : Word :=
  match argument.toList with
  | ['-', '-'] => .endOfOptions
  | '-' :: '-' :: rest =>
    match Text.cutAt? (· = '=') rest with
    | some (name, value) => .long (String.ofList name) (some (String.ofList value))
    | none => .long (String.ofList rest) none
  | '-' :: letter :: letters => .short (letter :: letters)
  | _ => .plain

/-! ## Arguments -/

structure Arguments where
  library : Option String := none
  className : Option String := none
  format : Option OutputFormat := none
  log : Option String := none
  flags : List Flag := []
  inputs : List String := []
  deriving DecidableEq, Repr

namespace Arguments

def has (a : Arguments) (f : Flag) : Bool := a.flags.contains f

/-- The value, unless there is one already. -/
def once {α : Type} (old : Option α) (value : Except Refusal α) : Except Refusal (Option α) :=
  if old.isSome then .error .conflict else value.map some

/-- A path that is not empty. -/
def path (text : String) : Except Refusal String :=
  if text = "" then .error .invalidValue else .ok text

/-- Gives an option its value. -/
def set (a : Arguments) (value : String) : Parameter → Except Refusal Arguments
  | .library => do return { a with library := ← once a.library (.ok value) }
  | .className => do return { a with className := ← once a.className (.ok value) }
  | .log => do return { a with log := ← once a.log (path value) }
  | .format => do
    let format := ((OutputFormat.ofName? value).map .ok).getD (.error .invalidValue)
    return { a with format := ← once a.format format }

/-- Sets a flag, which can be done once. -/
def raise (a : Arguments) (f : Flag) : Except Refusal Arguments :=
  if a.has f then .error .conflict else .ok { a with flags := f :: a.flags }

/-- Adds inputs. -/
def addInputs (a : Arguments) (texts : List String) : Except Refusal Arguments := do
  return { a with inputs := a.inputs ++ (← texts.mapM path) }

/-- Options that exclude each other, and those that need another. -/
def checked (a : Arguments) : Except Refusal Arguments :=
  if a.has .noLog && (a.log.isSome || a.has .appendLog) then .error .conflict
  else if a.has .noWarnings && a.has .warningsAsErrors then .error .conflict
  else if a.has .appendLog && a.log.isNone then .error .missingOption
  else .ok a

end Arguments

/-! ## Reading -/

/-- What has been read and is not settled yet. -/
inductive Pending where
  | nothing
  | parameter (p : Parameter) (value : Option String)
  | inputs (texts : List String)
  deriving DecidableEq, Repr

structure Reading where
  arguments : Arguments := {}
  pending : Pending := .nothing
  deriving DecidableEq, Repr

namespace Reading

/-- The arguments with what is pending. An option that is still without a value has none. -/
def settle (r : Reading) : Except Refusal Arguments :=
  match r.pending with
  | .nothing => .ok r.arguments
  | .parameter _ none => .error .invalidValue
  | .parameter p (some value) => r.arguments.set value p
  | .inputs texts => r.arguments.addInputs texts

/-- An option whose value is attached. -/
def attach (r : Reading) (p : Parameter) (value : String) : Except Refusal Reading := do
  return { arguments := ← (← r.settle).set value p }

/-- An option whose value is the next argument. -/
def await (r : Reading) (p : Parameter) : Except Refusal Reading := do
  return { arguments := ← r.settle, pending := .parameter p none }

/-- A switch without a value. -/
def flip (r : Reading) : Switch → Except Refusal Reading
  | .parameter p => r.await p
  | .flag f => do return { arguments := ← (← r.settle).raise f }
  | .help => do
    let _ ← r.settle
    .error .help
  | .version => do
    let _ ← r.settle
    .error .version

def long (r : Reading) (name : String) (value : Option String) : Except Refusal Reading :=
  match Switch.long? name, value with
  | none, _ => .error .unknownOption
  | some switch, none => r.flip switch
  | some (.parameter p), some value => r.attach p value
  | some _, some _ => .error .unexpectedValue

/-- Bundled letters. All that follows an option with a value is the value, less an equals sign. -/
def short (r : Reading) : List Char → Except Refusal Reading
  | [] => .ok r
  | letter :: letters =>
    match Switch.short? letter with
    | none => .error .unknownOption
    | some (.parameter p) =>
      match letters with
      | [] => r.await p
      | '=' :: value => r.attach p (String.ofList value)
      | value => r.attach p (String.ofList value)
    | some switch => (r.flip switch).bind fun r => short r letters

/-- An input. Inputs in a row are settled together. -/
def input (r : Reading) (text : String) : Except Refusal Reading :=
  match r.pending with
  | .inputs texts => .ok { r with pending := .inputs (texts ++ [text]) }
  | _ => do return { arguments := ← r.settle, pending := .inputs [text] }

/-- The value of the option before it, or an input. -/
def plain (r : Reading) (text : String) : Except Refusal Reading :=
  match r.pending with
  | .parameter p none => .ok { r with pending := .parameter p (some text) }
  | _ => r.input text

/-- Reads arguments in order. -/
def read (r : Reading) : List String → Except Refusal Reading
  | [] => .ok r
  | argument :: arguments =>
    match Word.ofArgument argument with
    | .endOfOptions => arguments.foldlM input r
    | .long name value => (r.long name value).bind fun r => read r arguments
    | .short letters => (r.short letters).bind fun r => read r arguments
    | .plain => (r.plain argument).bind fun r => read r arguments

end Reading

/-- Reads the arguments of the command. -/
def Arguments.parse (arguments : List String) : Except Refusal Arguments := do
  let reading ← Reading.read {} arguments
  (← reading.settle).checked

end Lowering.Command
