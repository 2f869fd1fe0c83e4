-- SUMMARY: The shortest decimal that reads back to a binary value.
import Lowering.Binary.Format

/-!
# Shortest decimals

The decimals that read back to a positive value of a binary format form an interval around it, with
its ends included when the significand is even. The shortest decimal is taken on the coarsest
decimal grid that has a point in that interval. Of two points on the same grid the nearer one is
taken, and the upper one of two that are equally near.
-/

namespace Lowering.Binary

/-- The number `digits · 10 ^ exponent`. -/
structure Decimal where
  digits : Nat
  exponent : Int
  deriving DecidableEq, Repr

/-- The number of decimal digits of a natural number. -/
def decimalLength (n : Nat) : Nat := (Nat.toDigits 10 n).length

/-- The decimals that read back to a value, in quarters of the unit `2 ^ exponent` of its last bit:
from `low` to `high` around `centre`. -/
structure Interval where
  low : Nat
  centre : Nat
  high : Nat
  exponent : Int
  closed : Bool

/-- The interval around `m · 2 ^ e`. Below the least significand of a binade the neighbour is only
half as far away. -/
def Format.interval (fmt : Format) (m : Nat) (e : Int) : Interval where
  low := if m = Nat.pow 2 (fmt.precision - 1) ∧ fmt.least < e then 4 * m - 1 else 4 * m - 2
  centre := 4 * m
  high := 4 * m + 2
  exponent := e - 2
  closed := m % 2 = 0

/-- The numerators of the interval's ends and centre over a common denominator, which comes last,
in units of `10 ^ x`. -/
def Interval.inUnits (i : Interval) (x : Int) : Nat × Nat × Nat × Nat :=
  let up := Nat.pow 2 i.exponent.toNat * Nat.pow 10 (-x).toNat
  (i.low * up, i.centre * up, i.high * up, Nat.pow 2 (-i.exponent).toNat * Nat.pow 10 x.toNat)

/-- The point of the grid `10 ^ x` to take, if one lies in the interval. -/
def Interval.point? (i : Interval) (x : Int) : Option Nat :=
  let (low, centre, high, d) := i.inUnits x
  let below := centre / d
  let rest := centre % d
  let lowHit : Bool := if i.closed then low ≤ below * d else low < below * d
  let highHit : Bool := if i.closed then (below + 1) * d ≤ high else (below + 1) * d < high
  if rest = 0 then some below
  else if lowHit && highHit then some (if 2 * rest < d then below else below + 1)
  else if lowHit then some below
  else if highHit then some (below + 1)
  else none

/-- The least `k` with `i.centre < 10 ^ k` in the interval's own unit. -/
def Interval.pointPosition (i : Interval) : Int :=
  let n := i.centre * Nat.pow 2 i.exponent.toNat
  let d := Nat.pow 2 (-i.exponent).toNat
  let k : Int := (decimalLength n : Int) - (decimalLength d : Int)
  if d * Nat.pow 10 k.toNat ≤ n * Nat.pow 10 (-k).toNat then k + 1 else k

/-- Tries grids of one more digit at a time, from `10 ^ x` on. -/
def Interval.firstPoint (i : Interval) : Nat → Int → Decimal
  | 0, x => ⟨(i.point? x).getD 0, x⟩
  | tries + 1, x =>
    match i.point? x with
    | some digits => ⟨digits, x⟩
    | none => i.firstPoint tries (x - 1)

/-- Removes zeros at the end of the digits. -/
def Decimal.trim : Nat → Decimal → Decimal
  | 0, d => d
  | tries + 1, d =>
    if d.digits ≠ 0 ∧ d.digits % 10 = 0 then trim tries ⟨d.digits / 10, d.exponent + 1⟩ else d

/-- The shortest decimal that reads back to `m · 2 ^ e`, for positive `m`. -/
def Format.shortest (fmt : Format) (m : Nat) (e : Int) : Decimal :=
  let i := fmt.interval m e
  let d := i.firstPoint fmt.precision (i.pointPosition - 1)
  d.trim (decimalLength d.digits)

end Lowering.Binary
