-- SUMMARY: Hexadecimal floating-point literals: digit accumulation and binary scaling.
import Lowering.Binary.Format
import Lowering.Literal.Integer
import Lowering.Text.Search

/-!
# Hexadecimal floating-point literals

A literal is an optional sign, `0x` or `0X`, hexadecimal digits with at most one point among them, and
an optional binary exponent after `p` or `P`. The leading digits are gathered in a 64-bit significand
with a 32-bit exponent. The significand is then rounded to double precision and scaled by at most
1000 binary places at a time, rounding after every step.
-/

namespace Lowering.Literal

open Binary

/-! ## Leading digits -/

/-- The nearest 32-bit integer. -/
def saturate (x : Int) : Int := max (-0x80000000) (min 0x7fffffff x)

/-- The leading part of the digits read so far: `mantissa · 2 ^ exponent`. -/
structure Leading where
  mantissa : Nat
  exponent : Int
  deriving DecidableEq, Repr

/-- Whether another digit fits below 64 bits. -/
def Leading.hasRoom (a : Leading) : Bool := a.mantissa < 0x1000000000000000

/-- One more digit before the point. -/
def Leading.pushWhole (a : Leading) (digit : Nat) : Leading :=
  if a.hasRoom then { a with mantissa := a.mantissa * 16 + digit }
  else { a with exponent := saturate (a.exponent + 4) }

/-- One more digit after the point. A digit without room is dropped. -/
def Leading.pushFraction (a : Leading) (digit : Nat) : Leading :=
  if a.hasRoom then ⟨a.mantissa * 16 + digit, saturate (a.exponent - 4)⟩ else a

/-- The leading part of a literal with these digits before and after the point. -/
def Leading.ofDigits (exponent : Int) (whole fraction : List Nat) : Leading :=
  fraction.foldl pushFraction (whole.foldl pushWhole ⟨0, exponent⟩)

/-! ## Scaling -/

/-- The longest single scaling step toward `x`. -/
def scaleStep (x : Int) : Int := max (-1000) (min 1000 x)

/-- Multiplies by `2 ^ x` step by step, until nothing is left to do or the value is zero or
infinite. -/
def scale (fmt : Format) (v : Value) (x : Int) : Value :=
  if x = 0 then v
  else
    match v with
    | .finite negative (m + 1) e =>
      scale fmt (fmt.ofScaled negative (m + 1) (e + scaleStep x)) (x - scaleStep x)
    | v => v
termination_by x.natAbs
decreasing_by simp only [scaleStep]; omega

/-! ## Literals -/

/-- Reads a signed 32-bit decimal integer. -/
def int32? (cs : List Char) : Option Int :=
  let (negative, digits) := splitSign cs
  match digits? 10 digits with
  | some n =>
    let x := Magnitude.toInt ⟨negative, n⟩
    if -0x80000000 ≤ x ∧ x < 0x80000000 then some x else none
  | none => none

/-- The digits of an unsigned literal after `0x`, before and after its point, and its exponent. -/
structure HexParts where
  whole : List Nat
  fraction : List Nat
  exponent : Int
  deriving DecidableEq, Repr

/-- Splits off the exponent after the first `p` or `P`. -/
def splitExponent? (cs : List Char) : Option (List Char × Int) :=
  match Text.cutAt? (fun c => c = 'p' || c = 'P') cs with
  | some (digits, exponent) => (int32? exponent).map fun x => (digits, x)
  | none => some (cs, 0)

/-- Reads what follows `0x`. Something must stand before or after the first point, and all of it must
be hexadecimal digits. -/
def hexParts? (cs : List Char) : Option HexParts :=
  match splitExponent? cs with
  | none => none
  | some (digits, exponent) =>
    let (whole, fraction) := (Text.cutAt? (· = '.') digits).getD (digits, [])
    if whole.isEmpty ∧ fraction.isEmpty then none
    else
      match whole.mapM hexDigit?, fraction.mapM hexDigit? with
      | some whole, some fraction => some ⟨whole, fraction, exponent⟩
      | _, _ => none

/-- Reads a hexadecimal literal as a double-precision value. -/
def hexFloat? (s : String) : Option Value :=
  let (negative, unsigned) := splitSign s.toList
  match splitRadix unsigned with
  | (16, digits) =>
    (hexParts? digits).map fun parts =>
      let a := Leading.ofDigits parts.exponent parts.whole parts.fraction
      scale binary64 (binary64.ofQuotient negative a.mantissa 1) a.exponent
  | _ => none

end Lowering.Literal
