-- SUMMARY: Why an instruction cannot be lowered: causes, their kinds, messages and severities.
import Lowering.Control
import Lowering.InstructionSet

/-!
# Failures

A failure has a cause and, once it is known, the mnemonic it belongs to. The cause fixes the kind of
the failure, its message and its severity.
-/

namespace Lowering

inductive Severity where
  | warning | error
  deriving DecidableEq, Repr

def Severity.name : Severity → String
  | warning => "warning"
  | error => "error"

/-! ## Kinds -/

inductive FailureKind where
  | unknownMnemonic
  | notInvocable
  | unsupportedOperation
  | malformedOperand
  | assertionFailed
  | invalidBranchDepth
  | unbalancedControl
  | sinkRejected
  deriving DecidableEq, Repr

namespace FailureKind

/-- An unsupported operation is a warning, every other failure an error. -/
def severity : FailureKind → Severity
  | unsupportedOperation => .warning
  | _ => .error

/-- The diagnostic code of a kind. -/
def code : FailureKind → String
  | unknownMnemonic => "lfe001"
  | notInvocable => "lfe002"
  | unsupportedOperation => "lfe003"
  | malformedOperand => "lfe004"
  | assertionFailed => "lfe005"
  | invalidBranchDepth => "lfe006"
  | unbalancedControl => "lfe007"
  | sinkRejected => "lfe008"

end FailureKind

/-! ## Causes -/

inductive Cause where
  -- Finding the instruction.
  | unknown (library : String)
  | ambiguous (library : String) (names : List String)
  | auxiliary
  | unsupported (hint : String)
  -- Operands.
  | missing (what : String)
  | notInteger (what text : String)
  | lacksFront (text front : String)
  | notMethod (text : String)
  | constant (e : ConstantError)
  | namedLabel (name library : String)
  | notLabel (name form : String)
  | negativeDepth (depth : Int)
  | noDefaultDepth
  | notSignature (text : String)
  | exceedsInt (value : Int)
  | leftover (operands : List String)
  -- Assertions on operands.
  | expected (token : String) (found : Option String)
  | rejected (token : String)
  | lacksPart (text part : String)
  | missingPart (part : String)
  -- Faults of a library that its checks rule out.
  | untyped
  | unresolvedCall (name : String)
  | unknownInstruction (opcode : String)
  | invalidTemplate (template : String)
  | callDepth (name : String)
  -- Structured control.
  | branchDepth (depth opened : Nat)
  | elseInside (kind : FrameKind) (opener : String)
  | elseWithoutIf
  | elseTwice
  | closeWithoutOpen
  | neverClosed (kind : FrameKind)
  | indentLeft (level : Nat)
  -- The receiver of the primitives.
  | refused (reason : String)
  /-- A failure worded by the host. -/
  | stated (kind : FailureKind) (message : String)
  deriving DecidableEq, Repr

namespace Cause

def kind : Cause → FailureKind
  | unknown _ | ambiguous _ _ => .unknownMnemonic
  | auxiliary => .notInvocable
  | unsupported _ => .unsupportedOperation
  | missing _ | notInteger _ _ | lacksFront _ _ | notMethod _ | constant _ | namedLabel _ _
  | notLabel _ _ | negativeDepth _ | noDefaultDepth | notSignature _ | exceedsInt _ | leftover _
  | untyped | unresolvedCall _ | unknownInstruction _ | invalidTemplate _ | callDepth _ =>
    .malformedOperand
  | expected _ _ | rejected _ | lacksPart _ _ | missingPart _ => .assertionFailed
  | branchDepth _ _ => .invalidBranchDepth
  | elseInside _ _ | elseWithoutIf | elseTwice | closeWithoutOpen | neverClosed _ | indentLeft _ =>
    .unbalancedControl
  | refused _ => .sinkRejected
  | stated kind _ => kind

def message : Cause → String
  | unknown library => s!"unknown mnemonic in library {library}"
  | ambiguous library names =>
    s!"ambiguous mnemonic in library {library}; use one of " ++ ", ".intercalate names
  | auxiliary => "auxiliary macro cannot be invoked directly"
  | unsupported hint => hint
  | missing what => s!"missing {what}"
  | notInteger what text => s!"{what} '{text}' is not an integer"
  | lacksFront text front => s!"'{text}' does not start with '{front}'"
  | notMethod text => s!"'{text}' is not owner/name(descriptor)"
  | constant e => e.message
  | namedLabel name library =>
    s!"named label '{name}' in library {library}; branch by nesting depth instead"
  | notLabel name form => s!"'{name}' is not a label (expected {form})"
  | negativeDepth depth => s!"branch depth {depth} is negative"
  | noDefaultDepth => "branch table needs a default depth"
  | notSignature text => s!"'{text}' is not a method descriptor"
  | exceedsInt value => s!"bootstrap argument {value} does not fit in 32 bits"
  | leftover operands => "unexpected operand(s): " ++ " ".intercalate operands
  | expected token (some found) => s!"expected '{token}' but found '{found}'"
  | expected token none => s!"expected '{token}'"
  | rejected token => s!"'{token}' is not supported"
  | lacksPart text part => s!"'{text}' does not contain '{part}'"
  | missingPart part => s!"missing operand containing '{part}'"
  | untyped => "missing value type"
  | unresolvedCall name => s!"unresolved macro '{name}'"
  | unknownInstruction opcode => s!"unknown target instruction '{opcode}'"
  | invalidTemplate template => s!"descriptor template '{template}' is not valid"
  | callDepth name => s!"macro '{name}' is nested too deeply"
  | branchDepth depth opened =>
    s!"branch depth {depth} but only {opened} construct(s) open"
  | elseInside kind opener =>
    s!"else inside {kind.name} opened by {opener}; expected an open if"
  | elseWithoutIf => "else without an open if"
  | elseTwice => "if already has an else arm"
  | closeWithoutOpen => "end without an open construct"
  | neverClosed kind => s!"{kind.name} is never closed"
  | indentLeft level => s!"indentation ends at level {level}"
  | refused reason => reason
  | stated _ message => message

/-- The faults that only a library which was never checked can show. -/
def isConfiguration : Cause → Bool
  | untyped | unresolvedCall _ | unknownInstruction _ | invalidTemplate _ | callDepth _ => true
  | _ => false

end Cause

/-! ## Failures -/

structure Failure where
  cause : Cause
  mnemonic : Option String := none
  deriving DecidableEq, Repr

namespace Failure

def kind (f : Failure) : FailureKind := f.cause.kind

def message (f : Failure) : String := f.cause.message

def severity (f : Failure) : Severity := f.kind.severity

/-- Names the mnemonic of a failure that has none yet. -/
def withMnemonic (f : Failure) (mnemonic : String) : Failure :=
  { f with mnemonic := f.mnemonic.or (some mnemonic) }

def text (f : Failure) : String :=
  match f.mnemonic with
  | some mnemonic => s!"{mnemonic}: {f.message}"
  | none => f.message

end Failure

end Lowering
