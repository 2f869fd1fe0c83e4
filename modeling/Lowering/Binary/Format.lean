-- SUMMARY: Binary floating-point formats and values, and rounding of exact quotients to them.

/-!
# Binary floating point

A value of a binary format is `significand · 2 ^ exponent` with a bounded significand, an infinity or
not a number. Exact quotients are rounded to the nearest value, a tie going to the even significand.
All arithmetic is on natural numbers.
-/

namespace Lowering.Binary

/-- A binary format: the bits of a significand, and the range of the exponent of its last bit. -/
structure Format where
  precision : Nat
  least : Int
  greatest : Int
  deriving DecidableEq, Repr

/-- Single precision. -/
def binary32 : Format := ⟨24, -149, 104⟩

/-- Double precision. -/
def binary64 : Format := ⟨53, -1074, 971⟩

/-- A value of some binary format. Zeros have a sign. -/
inductive Value where
  | finite (negative : Bool) (significand : Nat) (exponent : Int)
  | infinite (negative : Bool)
  | nan
  deriving DecidableEq, Repr

/-- The value with the other sign. -/
def Value.negate : Value → Value
  | .finite negative m e => .finite (!negative) m e
  | .infinite negative => .infinite (!negative)
  | .nan => .nan

/-! ## Rounding -/

/-- The natural number nearest to `n / d`, the even one of two. -/
def roundDiv (n d : Nat) : Nat :=
  let q := n / d
  let r := n % d
  if 2 * r < d then q
  else if d < 2 * r then q + 1
  else if q % 2 = 0 then q else q + 1

/-- The quotient `n / d` divided by `2 ^ e`, as a quotient. -/
def unscale (n d : Nat) (e : Int) : Nat × Nat :=
  if 0 ≤ e then (n, d * Nat.pow 2 e.toNat) else (n * Nat.pow 2 (-e).toNat, d)

/-- The greatest `k` with `2 ^ k ≤ n / d`, for positive `n` and `d`. -/
def floorLog2 (n d : Nat) : Int :=
  let k : Int := (n.log2 : Int) - (d.log2 : Int)
  let (n', d') := unscale n d k
  if d' ≤ n' then k else k - 1

/-- The exponent of the last bit of a significand for `n / d`. -/
def Format.lastBit (fmt : Format) (n d : Nat) : Int :=
  max fmt.least (floorLog2 n d - (fmt.precision : Int) + 1)

/-- A significand that may have grown by one bit in rounding, brought back into the format. -/
def Format.normal (fmt : Format) (negative : Bool) (m : Nat) (e : Int) : Value :=
  let (m, e) :=
    if m = Nat.pow 2 fmt.precision then (Nat.pow 2 (fmt.precision - 1), e + 1) else (m, e)
  if fmt.greatest < e then .infinite negative else .finite negative m e

/-- The value nearest to `n / d`. -/
def Format.ofQuotient (fmt : Format) (negative : Bool) (n d : Nat) : Value :=
  if n = 0 then .finite negative 0 fmt.least
  else
    let e := fmt.lastBit n d
    let (n', d') := unscale n d e
    fmt.normal negative (roundDiv n' d') e

/-- The value nearest to `m · 2 ^ e`. -/
def Format.ofScaled (fmt : Format) (negative : Bool) (m : Nat) (e : Int) : Value :=
  if 0 ≤ e then fmt.ofQuotient negative (m * Nat.pow 2 e.toNat) 1
  else fmt.ofQuotient negative m (Nat.pow 2 (-e).toNat)

/-- The value nearest to `digits · 10 ^ x`. Numbers far outside the format's range are settled by the
position of their first digit. -/
def Format.ofDecimal (fmt : Format) (negative : Bool) (digits : Nat) (x : Int) : Value :=
  let length : Int := (Nat.toDigits 10 digits).length
  if digits = 0 then .finite negative 0 fmt.least
  else if fmt.greatest + fmt.precision < x + length then .infinite negative
  else if x + length < fmt.least then .finite negative 0 fmt.least
  else fmt.ofQuotient negative (digits * Nat.pow 10 x.toNat) (Nat.pow 10 (-x).toNat)

/-- A value of any format, rounded to this one. -/
def Format.convert (fmt : Format) : Value → Value
  | .finite negative m e => fmt.ofScaled negative m e
  | v => v

end Lowering.Binary
