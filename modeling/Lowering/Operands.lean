-- SUMMARY: Operand fields: taking them, transforming them, and checking them.
import Lowering.Descriptor.Style
import Lowering.Failure
import Lowering.Label
import Lowering.Literal.Integer

/-!
# Operands

The operands of one instruction are a list of fields, which the operations of its expansion consume
from the front. A field is text from the source or a generated label.
-/

namespace Lowering

inductive Field where
  | text (s : String)
  | label (l : Label)
  deriving DecidableEq, Repr

namespace Field

def shown : Field → String
  | text s => s
  | label l => l.text

/-- The text of a text field. -/
def text? : Field → Option String
  | text s => some s
  | label _ => none

/-- Reads a field as an integer literal. `what` names it in a failure. -/
def int (what : String) (field : Field) : Except Cause Int :=
  match Literal.int? field.shown with
  | some value => .ok value
  | none => .error (.notInteger what field.shown)

/-- Reads a field as a branch depth. -/
def depth (field : Field) : Except Cause Nat :=
  match field.int "branch depth" with
  | .ok value => if 0 ≤ value then .ok value.toNat else .error (.negativeDepth value)
  | .error cause => .error cause

end Field

abbrev Operands := List Field

namespace Operands

def ofTexts (texts : List String) : Operands := texts.map Field.text

/-- The text of the first field, if that is a text field. -/
def firstText? (ops : Operands) : Option String := ops.head?.bind Field.text?

/-- Changes the first field, if it is a text field. -/
def mapFirstText (f : String → String) : Operands → Operands
  | .text s :: rest => .text (f s) :: rest
  | ops => ops

/-! ## Taking -/

/-- Takes the first field as text. `what` names it in a failure. -/
def takeText (what : String) : Operands → Except Cause String × Operands
  | [] => (.error (.missing what), [])
  | field :: rest => (.ok field.shown, rest)

/-- Takes the first field as an integer literal. The field is consumed even if it is not one. -/
def takeInt (what : String) : Operands → Except Cause Int × Operands
  | [] => (.error (.missing what), [])
  | field :: rest => (field.int what, rest)

/-- Takes the first field as a branch depth. -/
def takeDepth : Operands → Except Cause Nat × Operands
  | [] => (.error (.missing "branch depth"), [])
  | field :: rest => (field.depth, rest)

/-- Takes the first field as a label. -/
def takeLabel : Operands → Except Cause LabelRef × Operands
  | [] => (.error (.missing "label operand"), [])
  | .label l :: rest => (.ok (.generated l), rest)
  | .text s :: rest => (.ok (.named s), rest)

end Operands

/-! ## Transforms -/

/-- A change of the operands. Those of one field apply to the first field, if it is text. -/
inductive Transform where
  /-- Exchanges the first two fields, if there are two. -/
  | swap
  | insert (text : String)
  | insertMethod (owner name descriptor : String)
  /-- Inserts the code of the instruction's value type. -/
  | insertTypeCode
  /-- Joins all fields into one. -/
  | join (separator : String)
  | replace (pattern replacement : String)
  /-- Removes a front that must be there. -/
  | dropFront (front : String)
  | surround (before behind : String)
  | lower
  | upper
  | skip
  | skipAll
  /-- Turns a source signature into a target descriptor. -/
  | toDescriptor
  /-- Resolves the owner and the descriptor of a method reference, which must be there. -/
  | toMethod
  deriving DecidableEq, Repr

/-- The tables of the library and the class of the unit, which transforms consult. -/
structure Naming where
  style : Option SignatureStyle := none
  owners : List OwnerRule := []
  className : String := "Module"
  deriving DecidableEq, Repr

/-- The target form of a method reference. -/
def Naming.method (names : Naming) (m : MethodRef) : String :=
  let owner := resolveOwner names.owners names.className m.owner
  s!"{owner}/{m.name}" ++ targetDescriptor names.style m.descriptor

namespace Transform

/-- Applies a transform. A failed one leaves the operands as they were. -/
def apply (names : Naming) (type : Option ValueType) (ops : Operands) :
    Transform → Except Cause Operands
  | swap =>
    match ops with
    | a :: b :: rest => .ok (b :: a :: rest)
    | ops => .ok ops
  | insert text => .ok (.text text :: ops)
  | insertMethod owner name descriptor => .ok (.text s!"{owner}/{name}{descriptor}" :: ops)
  | insertTypeCode =>
    match type with
    | some type => .ok (.text type.code :: ops)
    | none => .error .untyped
  | join separator =>
    if ops.isEmpty then .ok ops
    else .ok [.text (separator.intercalate (ops.map Field.shown))]
  | replace pattern replacement =>
    .ok (ops.mapFirstText fun s => Text.replaceAll s pattern replacement)
  | dropFront front =>
    match ops with
    | .text s :: rest =>
      match Text.after? front s with
      | some s => .ok (.text s :: rest)
      | none => .error (.lacksFront s front)
    | _ => .error (.missing s!"'{front}' operand")
  | surround before behind => .ok (ops.mapFirstText fun s => before ++ s ++ behind)
  | lower => .ok (ops.mapFirstText Text.lower)
  | upper => .ok (ops.mapFirstText Text.upper)
  | skip => .ok ops.tail
  | skipAll => .ok []
  | toDescriptor => .ok (ops.mapFirstText (targetDescriptor names.style))
  | toMethod =>
    match ops with
    | .text s :: rest =>
      match MethodRef.parse? s with
      | some m => .ok (.text (names.method m) :: rest)
      | none => .error (.notMethod s)
    | _ => .error (.missing "method operand")

end Transform

/-! ## Checks -/

/-- A condition on the operands. -/
inductive Check where
  /-- The first field is the token, and it is consumed. -/
  | expect (token : String)
  /-- No field is the token. -/
  | reject (token : String)
  /-- The first field contains the part. -/
  | contains (part : String)
  deriving DecidableEq, Repr

namespace Check

/-- Runs a check. `expect` consumes its field even if it fails. -/
def run (ops : Operands) : Check → Except Cause Unit × Operands
  | expect token =>
    match ops with
    | [] => (.error (.expected token none), [])
    | field :: rest =>
      if field = .text token then (.ok (), rest)
      else (.error (.expected token (some field.shown)), rest)
  | reject token =>
    if .text token ∈ ops then (.error (.rejected token), ops) else (.ok (), ops)
  | contains part =>
    match ops with
    | [] => (.error (.missingPart part), [])
    | .text s :: _ =>
      if Text.contains s part then (.ok (), ops) else (.error (.lacksPart s part), ops)
    | field :: _ => (.error (.lacksPart field.shown part), ops)

end Check

end Lowering
