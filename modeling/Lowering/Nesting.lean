-- SUMMARY: The stack of open constructs, the supply of labels and the indentation of one unit.
import Lowering.Failure
import Lowering.Label

/-!
# Nesting

Every open construct has an exit label. A loop also has an entry label, to which branches go back,
and an `if` has a label for its other arm until an `else` or its end places it. The nesting alone
decides which label a branch by depth goes to.
-/

namespace Lowering

/-! ## Frames -/

/-- An open construct. -/
structure Frame where
  kind : FrameKind
  exit : Label
  /-- The label at the start of a loop. -/
  entry : Option Label
  /-- The label of an `if` that is still to be placed before its other arm or its end. -/
  pendingElse : Option Label
  /-- The mnemonic that opened the construct. -/
  opener : String
  /-- The indentation outside the construct. -/
  indent : Nat
  deriving DecidableEq, Repr

/-- Where a branch to the construct goes: back to the start of a loop, else to the end. -/
def Frame.branchTarget (f : Frame) : Label :=
  match f.entry with
  | some entry => if f.kind = .loop then entry else f.exit
  | none => f.exit

/-! ## Operations -/

/-- The open constructs, innermost first, the counter of the labels, and the indentation. -/
structure Nesting where
  frames : List Frame := []
  counter : LabelCounter := .word 0 false
  indent : Nat := 0
  deriving DecidableEq, Repr

namespace Nesting

/-- Nothing open, and labels numbered from `first` without a bound. -/
def startingAt (first : Nat) : Nesting := { counter := .unbounded first }

/-- Nothing open, and labels numbered from `first` in 32 bits. -/
def startingAtWord (first : UInt32) : Nesting := { counter := .word first false }

/-- The number of the next label. -/
def nextLabel (n : Nesting) : Nat := n.counter.next.number

/-- Whether the numbers of the labels have run out. -/
def overflowed (n : Nesting) : Bool := n.counter.overflowed

def depth (n : Nesting) : Nat := n.frames.length

def isBalanced (n : Nesting) : Bool := n.frames.isEmpty && n.indent = 0

/-- Takes the next label. -/
def allocate (n : Nesting) : Label × Nesting :=
  (n.counter.next, { n with counter := n.counter.advance })

/-- Takes the next label if it is needed. -/
def allocateIf (n : Nesting) (needed : Bool) : Option Label × Nesting :=
  if needed then
    let (label, n) := n.allocate
    (some label, n)
  else (none, n)

/-- Opens a construct, with its exit label and then the further label that a loop or an `if` has. -/
def push (n : Nesting) (kind : FrameKind) (opener : String) : Frame × Nesting :=
  let (exit, n) := n.allocate
  let (entry, n) := n.allocateIf (kind = .loop)
  let (pendingElse, n) := n.allocateIf (kind = .ifThen)
  let frame : Frame := { kind, exit, entry, pendingElse, opener, indent := n.indent }
  (frame, { n with frames := frame :: n.frames, indent := n.indent + 1 })

/-- Opens a block and gives its exit label. -/
def openBlock (n : Nesting) (opener : String) : Label × Nesting :=
  let (frame, n) := n.push .block opener
  (frame.exit, n)

/-- Opens a loop and gives its entry label, which belongs at the current position. -/
def openLoop (n : Nesting) (opener : String) : Label × Nesting :=
  let (frame, n) := n.push .loop opener
  (frame.entry.getD frame.exit, n)

/-- Opens an `if` and gives the label to which a failed condition jumps. -/
def openIf (n : Nesting) (opener : String) : Label × Nesting :=
  let (frame, n) := n.push .ifThen opener
  (frame.pendingElse.getD frame.exit, n)

theorem openBlock_eq (n : Nesting) (opener : String) :
    n.openBlock opener =
      (n.counter.next,
        { frames := ⟨.block, n.counter.next, none, none, opener, n.indent⟩ :: n.frames
          counter := n.counter.advance
          indent := n.indent + 1 }) := rfl

theorem openLoop_eq (n : Nesting) (opener : String) :
    n.openLoop opener =
      (n.counter.advance.next,
        { frames :=
            ⟨.loop, n.counter.next, some n.counter.advance.next, none, opener, n.indent⟩ :: n.frames
          counter := n.counter.advance.advance
          indent := n.indent + 1 }) := rfl

theorem openIf_eq (n : Nesting) (opener : String) :
    n.openIf opener =
      (n.counter.advance.next,
        { frames :=
            ⟨.ifThen, n.counter.next, none, some n.counter.advance.next, opener, n.indent⟩ :: n.frames
          counter := n.counter.advance.advance
          indent := n.indent + 1 }) := rfl

/-- The labels that an `else` needs: the first arm jumps to `exit`, and `start` belongs at the current
position. -/
structure ElseLabels where
  exit : Label
  start : Label
  deriving DecidableEq, Repr

/-- Switches the innermost construct, which must be an `if`, to its other arm. -/
def enterElse (n : Nesting) : Except Cause (ElseLabels × Nesting) :=
  match n.frames with
  | [] => .error .elseWithoutIf
  | frame :: outer =>
    if frame.kind = .ifThen then
      match frame.pendingElse with
      | some pending =>
        .ok (⟨frame.exit, pending⟩,
          { n with frames := { frame with kind := .elseArm, pendingElse := none } :: outer
                   indent := frame.indent + 1 })
      | none => .error .elseTwice
    else .error (.elseInside frame.kind frame.opener)

/-- Closes the innermost construct. Its pending label and then its exit label belong at the current
position. -/
def close (n : Nesting) : Except Cause (Frame × Nesting) :=
  match n.frames with
  | [] => .error .closeWithoutOpen
  | frame :: outer => .ok (frame, { n with frames := outer, indent := frame.indent })

/-- The label of a branch that leaves `depth` constructs. -/
def branchTarget (n : Nesting) (depth : Nat) : Except Cause Label :=
  match n.frames[depth]? with
  | some frame => .ok frame.branchTarget
  | none => .error (.branchDepth depth n.depth)

/-- What is wrong at the end of a unit: one failure for every open construct, outermost first. -/
def finish (n : Nesting) : List Failure :=
  if n.isBalanced then []
  else if n.frames.isEmpty then [{ cause := .indentLeft n.indent }]
  else n.frames.reverse.map fun f => { cause := .neverClosed f.kind, mnemonic := some f.opener }

end Nesting

end Lowering
