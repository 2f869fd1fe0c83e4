-- SUMMARY: Decimal floating-point literals and their correctly rounded value.
import Lowering.Binary.Format
import Lowering.Literal.Integer
import Lowering.Text.Case

/-!
# Decimal floating-point literals

A literal is an optional sign and then `inf`, `infinity` or `nan` in any case, or digits with at most
one point among them and an optional exponent. Its value is the nearest value of the format, computed
from the exact decimal.
-/

namespace Lowering.Literal

open Binary

/-- Reads an exponent part: nothing, or `e`, an optional sign and digits up to the end. -/
def exponentPart? : List Char → Option Int
  | [] => some 0
  | c :: cs =>
    if c = 'e' ∨ c = 'E' then
      let (negative, digits) := splitSign cs
      (digits? 10 digits).map fun n => Magnitude.toInt ⟨negative, n⟩
    else none

/-- The leading decimal digits of a list, and what follows them. -/
def digitRun (cs : List Char) : List Char × List Char := cs.span Char.isDigit

/-- The fraction digits after a point, if there is one, and what follows them. -/
def fractionPart : List Char → List Char × List Char
  | '.' :: cs => digitRun cs
  | cs => ([], cs)

/-- Reads unsigned digits with a point and an exponent as an exact decimal. -/
def decimal? (cs : List Char) : Option (Nat × Int) :=
  let (whole, afterWhole) := digitRun cs
  let (fraction, rest) := fractionPart afterWhole
  match digits? 10 (whole ++ fraction), exponentPart? rest with
  | some digits, some exponent => some (digits, exponent - fraction.length)
  | _, _ => none

/-- Reads a decimal literal as a value of the format. -/
def float? (fmt : Format) (s : String) : Option Value :=
  let (negative, unsigned) := splitSign s.toList
  let word := unsigned.map Char.toLower
  if word = "inf".toList ∨ word = "infinity".toList then some (.infinite negative)
  else if word = "nan".toList then some .nan
  else (decimal? unsigned).map fun (digits, x) => fmt.ofDecimal negative digits x

end Lowering.Literal
