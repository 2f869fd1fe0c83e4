-- SUMMARY: Description of a target: its instructions and how it tests conditions, loads constants and returns.
import Lowering.Condition
import Lowering.ValueType

/-!
# Instruction sets

A target is described by its instruction table and by the few choices that structured control,
constants and returns need. Nothing else about the target is known to the expansion of instructions.
-/

namespace Lowering

/-- The operand fields that an instruction takes. -/
inductive OperandForm where
  | none | one | two | label | rest
  deriving DecidableEq, Repr

structure Instruction where
  name : String
  form : OperandForm
  deriving DecidableEq, Repr

/-- An instruction with at most one fixed operand. -/
structure FixedInstruction where
  opcode : String
  operand : Option String := none
  deriving DecidableEq, Repr

/-- How a condition is tested: instructions that prepare the test, then a conditional jump. -/
structure ConditionTest where
  prelude : List FixedInstruction
  jump : String
  deriving DecidableEq, Repr

/-- Why a literal cannot be loaded as a constant. -/
inductive ConstantError where
  | notInt (text : String)
  | exceedsInt (text : String)
  | notLong (text : String)
  | exceedsLong (text : String)
  | unsignedLong (text : String)
  | notFloat (text : String)
  | notDouble (text : String)
  deriving DecidableEq, Repr

def ConstantError.message : ConstantError → String
  | notInt text => s!"'{text}' is not an integer"
  | exceedsInt text => s!"'{text}' does not fit in 32 bits"
  | notLong text => s!"'{text}' is not a 64-bit integer"
  | exceedsLong text => s!"'{text}' does not fit in 64 bits"
  | unsignedLong text => s!"'{text}' is an unsigned 64-bit literal; the library does not accept them"
  | notFloat text => s!"'{text}' is not a float literal"
  | notDouble text => s!"'{text}' is not a double literal"

structure InstructionSet where
  name : String
  instructions : List Instruction
  goto : String
  tableSwitch : String
  voidReturn : String
  typedReturn : ByType String
  /-- The test of a condition, or of its negation when the flag is set. -/
  test : Condition → Bool → ConditionTest
  /-- The load of a literal. The flag admits unsigned 64-bit literals. -/
  load : Bool → ValueType → String → Except ConstantError FixedInstruction

namespace InstructionSet

/-- The instruction with this name. -/
def find? (isa : InstructionSet) (name : String) : Option Instruction :=
  isa.instructions.find? (·.name == name)

/-- Whether there is an instruction with this name. -/
def has (isa : InstructionSet) (name : String) : Bool := (isa.find? name).isSome

theorem find?_name {isa : InstructionSet} {name : String} {i : Instruction}
    (h : isa.find? name = some i) : i.name = name := by
  simpa using List.find?_some h

end InstructionSet

end Lowering
