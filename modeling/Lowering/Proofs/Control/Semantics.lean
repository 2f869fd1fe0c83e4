-- SUMMARY: How structured programs run, and how a list of primitives runs.
import Lowering.Jvm.InstructionSet
import Lowering.Proofs.Control.Program

/-!
# Semantics of control

A run visits primitives, tests and switches, and what the tests find is given from outside. A structured
program runs by its nesting: a branch leaves constructs, or repeats a loop. A list of primitives runs
from one to the next and jumps to labels. Both visit the same kind of events, so they can be compared.
-/

namespace Lowering

/-! ## Runs -/

/-- What one test finds: which comparisons hold of the tested values, and the index of a switch. -/
structure Outcome where
  holds : Compare → Bool
  index : Int
  holds_negate : ∀ c, holds c.negate = !holds c

/-- What the tests of a run find, one after the other. -/
abbrev Outcomes := Nat → Outcome

/-- The outcomes after the first. -/
def later (o : Outcomes) : Outcomes := fun n => o (n + 1)

inductive Event where
  | performed (p : Primitive)
  | tested
  | switched
  deriving DecidableEq, Repr

/-- How a run ends. -/
inductive Exit where
  /-- At the end of what was to be run. -/
  | fell
  /-- At a branch that leaves `depth` constructs and then goes to the next one. -/
  | branched (depth : Nat)
  | returned
  /-- Not yet. -/
  | unfinished
  /-- At a jump to nowhere, or one that tests nothing known. -/
  | lost
  deriving DecidableEq, Repr

structure Run where
  visited : List Event
  rest : Outcomes
  exit : Exit

namespace Run

/-- The run with events before it. -/
def after (events : List Event) (r : Run) : Run := { r with visited := events ++ r.visited }

/-- Goes on with `next` unless the run ends otherwise than at its end. -/
def andThen (r : Run) (next : Outcomes → Run) : Run :=
  match r.exit with
  | .fell => (next r.rest).after r.visited
  | _ => r

/-- The run as seen from outside the construct that it is in, which branches leave. -/
def leave (r : Run) : Run :=
  match r.exit with
  | .branched 0 => { r with exit := .fell }
  | .branched (depth + 1) => { r with exit := .branched depth }
  | _ => r

@[simp] theorem after_after (events events' : List Event) (r : Run) :
    (r.after events').after events = r.after (events ++ events') := by
  simp [after]

end Run

/-- The opcodes that return. -/
def returnOpcodes : List String := ["ireturn", "lreturn", "freturn", "dreturn", "areturn", "return"]

namespace Primitive

def returns : Primitive → Bool
  | insn opcode _ => returnOpcodes.contains opcode
  | _ => false

/-- Whether the primitive is an instruction or a dynamic call. -/
def isStraight : Primitive → Bool
  | insn _ _ | dynCall _ => true
  | _ => false

end Primitive

/-! ## Structured programs -/

/-- The comparison that decides a condition. -/
def Condition.compare : Condition → Compare
  | nonZero => .ne
  | zero => .eq
  | int c | unsignedInt c | long c | unsignedLong c | float c | double c => c

namespace Test

/-- What is emitted before the jump of a test. -/
def front (t : Test) : List Primitive :=
  t.setup.map (fun opcode => .insn opcode []) ++
    (Jvm.prelude t.condition).map FixedInstruction.primitive

/-- What a test visits. -/
def events (t : Test) : List Event := t.front.map .performed ++ [.tested]

/-- Whether the condition of a test holds. -/
def holds (t : Test) (outcome : Outcome) : Bool := outcome.holds t.condition.compare

end Test

/-- Performs primitives in order, up to one that returns. -/
def performing : List Primitive → Outcomes → Run
  | [], o => ⟨[], o, .fell⟩
  | p :: ps, o =>
    if p.returns then ⟨[.performed p], o, .returned⟩
    else (performing ps o).after [.performed p]

/-- Runs the body of a loop, again after each branch to the loop, at most `bound` times. -/
def iterate (body : Outcomes → Run) : Nat → Outcomes → Run
  | 0, o => ⟨[], o, .unfinished⟩
  | bound + 1, o =>
    let r := body o
    match r.exit with
    | .branched 0 => (iterate body bound r.rest).after r.visited
    | _ => r.leave

/-- The depth that an index selects. -/
def chosenDepth (depths : List Depth) (last : Depth) (index : Int) : Depth :=
  if 0 ≤ index then depths[index.toNat]?.getD last else last

/-- The instruction that returns a value of the given type. -/
def returnInsn (result : Option ResultType) : Primitive :=
  match result with
  | some a => .insn (jvm.typedReturn.get a.type) []
  | none => .insn jvm.voidReturn []

/-- Runs a program in which every loop is repeated at most `bound` times in a row. -/
def Program.exec (bound : Nat) : Program → Outcomes → Run
  | done, o => ⟨[], o, .fell⟩
  | plain _ ps next, o => (performing ps o).andThen (next.exec bound)
  | block body next, o => (body.exec bound o).leave.andThen (next.exec bound)
  | loop body next, o => (iterate (body.exec bound) bound o).andThen (next.exec bound)
  | ifThen test arm next, o =>
    let r := if test.val.holds (o 0) then (arm.exec bound (later o)).leave
      else ⟨[], later o, .fell⟩
    (r.andThen (next.exec bound)).after test.val.events
  | ifElse test arm other next, o =>
    let r := if test.val.holds (o 0) then (arm.exec bound (later o)).leave
      else (other.exec bound (later o)).leave
    (r.andThen (next.exec bound)).after test.val.events
  | branch depth _, o => ⟨[], o, .branched depth.value⟩
  | branchIf test depth next, o =>
    let r := if test.val.holds (o 0) then ⟨[], later o, .branched depth.value⟩
      else next.exec bound (later o)
    r.after test.val.events
  | branchTable depths last _, o =>
    ⟨[.switched], later o, .branched (chosenDepth depths last (o 0).index).value⟩
  | exit result _, o => ⟨[.performed (returnInsn result)], o, .returned⟩

/-! ## Lists of primitives -/

/-- The comparison that a conditional jump tests. -/
def jumpCompare? : String → Option Compare
  | "ifeq" | "if_icmpeq" => some .eq
  | "ifne" | "if_icmpne" => some .ne
  | "iflt" | "if_icmplt" => some .lt
  | "ifgt" | "if_icmpgt" => some .gt
  | "ifle" | "if_icmple" => some .le
  | "ifge" | "if_icmpge" => some .ge
  | _ => none

/-- What follows a label. -/
def after? (target : LabelRef) : List Primitive → Option (List Primitive)
  | [] => none
  | p :: ps => if p = .label target then some ps else after? target ps

/-- The label that an index selects. -/
def chosenTarget (low : Int) (default : LabelRef) (targets : List LabelRef) (index : Int) : LabelRef :=
  if low ≤ index then targets[(index - low).toNat]?.getD default else default

/-- Goes on after a label of the program. -/
def goTo (program : List Primitive) (run : List Primitive → Outcomes → Run) (target : LabelRef)
    (o : Outcomes) : Run :=
  match after? target program with
  | some code => run code o
  | none => ⟨[], o, .lost⟩

/-- Runs the first of some primitives, and then by `run` what comes next. -/
def flatStep (program : List Primitive) (run : List Primitive → Outcomes → Run) (o : Outcomes) :
    List Primitive → Run
  | [] => ⟨[], o, .fell⟩
  | .label _ :: code => run code o
  | .jump opcode target :: code =>
    if opcode = "goto" then goTo program run target o
    else
      match jumpCompare? opcode with
      | none => ⟨[], o, .lost⟩
      | some c =>
        (if (o 0).holds c then goTo program run target (later o) else run code (later o)).after
          [.tested]
  | .tableSwitch _ low default targets :: _ =>
    (goTo program run (chosenTarget low default targets (o 0).index) (later o)).after [.switched]
  | p :: code =>
    if p.returns then ⟨[.performed p], o, .returned⟩ else (run code o).after [.performed p]

/-- Runs what is left of a program for at most `steps` primitives. -/
def flatRun (program : List Primitive) : Nat → List Primitive → Outcomes → Run
  | 0, _, o => ⟨[], o, .unfinished⟩
  | steps + 1, code, o => flatStep program (flatRun program steps) o code

end Lowering
