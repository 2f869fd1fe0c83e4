-- SUMMARY: Structured control instructions and the role an instruction plays in indentation.
import Lowering.Condition

/-!
# Structured control

The control instructions of the source open, switch and close nested constructs and branch to them by
depth. What an instruction does to the nesting gives its indentation role.
-/

namespace Lowering

inductive ControlKind where
  | block
  | loop
  | ifThen (c : Condition)
  | elseArm
  | close
  | branch
  | branchIf (c : Condition)
  | branchTable
  | exit
  deriving DecidableEq, Repr

/-- Whether an instruction opens a construct, switches to its other arm, closes it, or does none of
these. -/
inductive IndentRole where
  | none | opens | reopens | closes
  deriving DecidableEq, Repr

def IndentRole.name : IndentRole → String
  | none => "none"
  | opens => "begin"
  | reopens => "else"
  | closes => "end"

def ControlKind.role : ControlKind → IndentRole
  | block | loop | ifThen _ => .opens
  | elseArm => .reopens
  | close => .closes
  | branch | branchIf _ | branchTable | exit => .none

/-- The kind of an open construct. -/
inductive FrameKind where
  | block | loop | ifThen | elseArm
  deriving DecidableEq, Repr

def FrameKind.name : FrameKind → String
  | block => "block"
  | loop => "loop"
  | ifThen => "if"
  | elseArm => "else"

end Lowering
