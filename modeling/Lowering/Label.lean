-- SUMMARY: Generated and named labels, and the counter that numbers the generated ones.

/-!
# Labels

A label is generated while a unit is lowered, and then it has a number, or it is named in the source.
The numbers of a unit come from a counter of 32 bits. A counter without a bound gives the numbers that a
unit has as long as its own counter does not overflow.
-/

namespace Lowering

/-- A label generated for one unit. -/
structure Label where
  number : Nat
  deriving DecidableEq, Repr

def Label.text (l : Label) : String := s!"@L{l.number}"

/-- Numbers labels in order. A counter of 32 bits goes on at zero after its last number, and then it has
overflowed. -/
inductive LabelCounter where
  | unbounded (next : Nat)
  | word (next : UInt32) (overflowed : Bool)
  deriving DecidableEq, Repr

namespace LabelCounter

/-- The label that is taken next. -/
def next : LabelCounter → Label
  | unbounded n => ⟨n⟩
  | word n _ => ⟨n.toNat⟩

def advance : LabelCounter → LabelCounter
  | unbounded n => .unbounded (n + 1)
  | word n overflowed => .word (n + 1) (overflowed || n + 1 == 0)

def overflowed : LabelCounter → Bool
  | unbounded _ => false
  | word _ overflowed => overflowed

end LabelCounter

/-- A label that an instruction refers to. -/
inductive LabelRef where
  | generated (label : Label)
  | named (name : String)
  deriving DecidableEq, Repr

def LabelRef.text : LabelRef → String
  | generated label => label.text
  | named name => name

end Lowering
