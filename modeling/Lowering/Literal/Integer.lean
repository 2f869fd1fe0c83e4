-- SUMMARY: Integer literals: sign, radix, digits, and the 64-bit ranges.

/-!
# Integer literals

An integer literal is an optional sign, then decimal digits, or `0x` or `0X` and hexadecimal digits.
Its magnitude must be below 2^64, and as a signed integer it must lie in the 64-bit range.
-/

namespace Lowering.Literal

/-! ## Digits -/

/-- The value of a hexadecimal digit in either case. -/
def hexDigit? (c : Char) : Option Nat :=
  if '0' ≤ c ∧ c ≤ '9' then some (c.toNat - '0'.toNat)
  else if 'a' ≤ c ∧ c ≤ 'f' then some (c.toNat - 'a'.toNat + 10)
  else if 'A' ≤ c ∧ c ≤ 'F' then some (c.toNat - 'A'.toNat + 10)
  else none

/-- The value of a digit below `radix`, which is at most sixteen. -/
def digit? (radix : Nat) (c : Char) : Option Nat := (hexDigit? c).filter (· < radix)

/-- Reads digits after a value already read. -/
def digitsFrom? (radix : Nat) : Nat → List Char → Option Nat
  | value, [] => some value
  | value, c :: cs =>
    match digit? radix c with
    | some d => digitsFrom? radix (value * radix + d) cs
    | none => none

/-- The value of a nonempty run of digits. -/
def digits? (radix : Nat) : List Char → Option Nat
  | [] => none
  | c :: cs => digitsFrom? radix 0 (c :: cs)

/-! ## Literals -/

/-- Whether a minus sign comes first, and what follows the sign if there is one. -/
def splitSign : List Char → Bool × List Char
  | '-' :: cs => (true, cs)
  | '+' :: cs => (false, cs)
  | cs => (false, cs)

/-- The radix that the front of an unsigned literal selects, and its digits. -/
def splitRadix : List Char → Nat × List Char
  | '0' :: 'x' :: cs => (16, cs)
  | '0' :: 'X' :: cs => (16, cs)
  | cs => (10, cs)

/-- The sign and the magnitude of a literal. -/
structure Magnitude where
  negative : Bool
  value : Nat
  deriving DecidableEq, Repr

/-- Reads a literal whose magnitude fits in 64 bits. -/
def magnitude? (s : String) : Option Magnitude :=
  let (negative, unsigned) := splitSign s.toList
  let (radix, digits) := splitRadix unsigned
  match digits? radix digits with
  | some value => if value < 0x10000000000000000 then some ⟨negative, value⟩ else none
  | none => none

/-- The integer with this sign and magnitude. -/
def Magnitude.toInt (m : Magnitude) : Int := if m.negative then -(m.value : Int) else m.value

/-- Reads a literal in the signed 64-bit range. -/
def int? (s : String) : Option Int :=
  match magnitude? s with
  | some m =>
    if -0x8000000000000000 ≤ m.toInt ∧ m.toInt < 0x8000000000000000 then some m.toInt else none
  | none => none

end Lowering.Literal
