-- SUMMARY: Primitives: the instructions, jumps, labels, switches and dynamic calls that lowering emits.
import Lowering.CallSite
import Lowering.Label

/-!
# Primitives

A primitive is one line for the target's assembler. Its text is what a listing shows.
-/

namespace Lowering

inductive Primitive where
  | insn (opcode : String) (operands : List String)
  | jump (opcode : String) (target : LabelRef)
  | label (label : LabelRef)
  | tableSwitch (opcode : String) (low : Int) (default : LabelRef) (targets : List LabelRef)
  | dynCall (site : CallSite)
  deriving DecidableEq, Repr

namespace Primitive

def text : Primitive → String
  | insn opcode operands => " ".intercalate (opcode :: operands)
  | jump opcode target => s!"{opcode} {target.text}"
  | label l => l.text ++ ":"
  | tableSwitch opcode low default targets =>
    let cases := " ".intercalate (targets.map LabelRef.text)
    s!"{opcode} {low} [{cases}] default {default.text}"
  | dynCall site => site.text

/-- The call site of a dynamic call. -/
def callSite? : Primitive → Option CallSite
  | dynCall site => some site
  | _ => none

end Primitive

end Lowering
