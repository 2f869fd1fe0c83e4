-- SUMMARY: Comparisons, branch conditions and their negations.

/-!
# Conditions

A condition tests the value or the two values on top of the stack. Negating a condition negates its
comparison and keeps the kind of its operands.
-/

namespace Lowering

inductive Compare where
  | eq | ne | lt | gt | le | ge
  deriving DecidableEq, Repr

namespace Compare

def negate : Compare → Compare
  | eq => ne
  | ne => eq
  | lt => ge
  | gt => le
  | le => gt
  | ge => lt

/-- The letters that name the comparison in a mnemonic. -/
def suffix : Compare → String
  | eq => "EQ"
  | ne => "NE"
  | lt => "LT"
  | gt => "GT"
  | le => "LE"
  | ge => "GE"

@[simp] theorem negate_negate (c : Compare) : c.negate.negate = c := by
  cases c <;> rfl

end Compare

/-- What a conditional jump or an `if` tests. -/
inductive Condition where
  | nonZero
  | zero
  | int (c : Compare)
  | unsignedInt (c : Compare)
  | long (c : Compare)
  | unsignedLong (c : Compare)
  | float (c : Compare)
  | double (c : Compare)
  deriving DecidableEq, Repr

def Condition.negate : Condition → Condition
  | nonZero => zero
  | zero => nonZero
  | int c => int c.negate
  | unsignedInt c => unsignedInt c.negate
  | long c => long c.negate
  | unsignedLong c => unsignedLong c.negate
  | float c => float c.negate
  | double c => double c.negate

@[simp] theorem Condition.negate_negate (c : Condition) : c.negate.negate = c := by
  cases c <;> simp [Condition.negate]

end Lowering
