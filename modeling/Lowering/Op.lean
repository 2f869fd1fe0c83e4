-- SUMMARY: The operations that the entries of a library are composed of.
import Lowering.CallSite
import Lowering.Control
import Lowering.Operands

/-!
# Operations

The body of an entry is a list of operations. An action does one thing. The other operations call a
further entry, choose between two bodies by the width of the value type, or group operations. The
steps of a body are its actions and calls in order, both bodies of a choice included.
-/

namespace Lowering

inductive Action where
  | emit (opcode : String)
  /-- Emits the instruction for the value type. -/
  | emitByType (opcodes : ByType String)
  /-- Loads the literal in the first operand. -/
  | load (type : ValueType)
  | transform (t : Transform)
  | check (c : Check)
  /-- Fails, with a hint at what to write instead. -/
  | unsupported (hint : String)
  /-- Goes on, with a notice that the instruction has no effect. -/
  | ignored (reason : String)
  | dynCall (spec : CallSpec)
  | control (kind : ControlKind)
  /-- Jumps to the label in the first operand if the condition holds. -/
  | jumpIf (c : Condition)
  /-- Inserts the label that belongs to this invocation. -/
  | localLabel
  /-- Places the label in the first operand. -/
  | placeLabel
  deriving DecidableEq, Repr

inductive Op where
  | act (a : Action)
  | call (name : String)
  | select (single double : List Op)
  | seq (ops : List Op)
  deriving Repr

/-- An operation that is no grouping of others. -/
inductive Step where
  | act (a : Action)
  | call (name : String)
  deriving DecidableEq, Repr

mutual

def Op.steps : Op → List Step
  | .act a => [.act a]
  | .call name => [.call name]
  | .select single double => Op.allSteps single ++ Op.allSteps double
  | .seq ops => Op.allSteps ops

def Op.allSteps : List Op → List Step
  | [] => []
  | op :: ops => op.steps ++ Op.allSteps ops

end

/-- The steps of a body. -/
abbrev steps (body : List Op) : List Step := Op.allSteps body

theorem allSteps_append (a b : List Op) : Op.allSteps (a ++ b) = Op.allSteps a ++ Op.allSteps b := by
  induction a with
  | nil => simp [Op.allSteps]
  | cons op ops ih => simp [Op.allSteps, ih]

/-- The name that a step calls. -/
def Step.callee? : Step → Option String
  | .call name => some name
  | .act _ => none

/-! ## Short forms for tables -/

namespace Op

def emit (opcode : String) : Op := .act (.emit opcode)

def load (type : ValueType) : Op := .act (.load type)

def transform (t : Transform) : Op := .act (.transform t)

def check (c : Check) : Op := .act (.check c)

def dynCall (spec : CallSpec) : Op := .act (.dynCall spec)

def control (kind : ControlKind) : Op := .act (.control kind)

/-- One instruction for values of one slot, another for values of two. -/
def byWidth (single double : String) : Op := .select [emit single] [emit double]

end Op

end Lowering
