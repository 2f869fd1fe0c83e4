-- SUMMARY: Constant loads of the Java virtual machine: the shortest instruction for a literal.
import Lowering.Binary.Shortest
import Lowering.InstructionSet
import Lowering.Literal.Decimal
import Lowering.Literal.Hexadecimal

/-!
# Constant loads

A literal is read as a value of its type and loaded by the shortest instruction: a dedicated one for
the few small constants, an immediate byte or short, or the constant pool. Pool operands are written
so that they read back to the same value.
-/

namespace Lowering.Jvm

open Binary Literal

/-! ## Integers -/

/-- The load of a 32-bit integer in the signed range. -/
def intLoad (v : Int) : FixedInstruction :=
  if v = -1 then ⟨"iconst_m1", none⟩
  else if v = 0 then ⟨"iconst_0", none⟩
  else if v = 1 then ⟨"iconst_1", none⟩
  else if v = 2 then ⟨"iconst_2", none⟩
  else if v = 3 then ⟨"iconst_3", none⟩
  else if v = 4 then ⟨"iconst_4", none⟩
  else if v = 5 then ⟨"iconst_5", none⟩
  else if -128 ≤ v ∧ v ≤ 127 then ⟨"bipush", some (toString v)⟩
  else if -32768 ≤ v ∧ v ≤ 32767 then ⟨"sipush", some (toString v)⟩
  else ⟨"ldc", some (toString v)⟩

/-- The load of a 64-bit integer in the signed range. -/
def longLoad (v : Int) : FixedInstruction :=
  if v = 0 then ⟨"lconst_0", none⟩
  else if v = 1 then ⟨"lconst_1", none⟩
  else ⟨"ldc2_w", some (toString v ++ "L")⟩

/-- Loads a 32-bit literal. Unsigned ones stand for the signed value with the same bits. -/
def loadInt (text : String) : Except ConstantError FixedInstruction :=
  match int? text with
  | none => .error (.notInt text)
  | some v =>
    if -0x80000000 ≤ v ∧ v < 0x100000000 then .ok (intLoad (v.bmod 0x100000000))
    else .error (.exceedsInt text)

/-- The text without one `L` or `l` at its end. -/
def withoutLongMark (text : String) : String :=
  match Text.dropLast? (fun c => c = 'L' || c = 'l') text.toList with
  | some cs => String.ofList cs
  | none => text

/-- Loads a 64-bit literal. Where the flag admits unsigned ones, they stand for the signed value with
the same bits. -/
def loadLong (unsigned : Bool) (text : String) : Except ConstantError FixedInstruction :=
  match magnitude? (withoutLongMark text) with
  | none => .error (.notLong text)
  | some m =>
    if m.toInt < -0x8000000000000000 then .error (.exceedsLong text)
    else if m.toInt < 0x8000000000000000 ∨ unsigned then
      .ok (longLoad (m.toInt.bmod 0x10000000000000000))
    else .error (.unsignedLong text)

/-! ## Floats -/

/-- The decimal exponents of the first digit that are written positionally. -/
structure FloatLayout where
  least : Int
  greatest : Int

/-- Numbers from 10^-4 up to 10^16 are written positionally, all others with an exponent. -/
def FloatLayout.pool : FloatLayout := ⟨-4, 15⟩

/-- Digits with a point after the first `whole` of them. A missing part is written as one zero. -/
def withPoint (digits : List Char) (whole : Int) : List Char :=
  if whole ≤ 0 then "0.".toList ++ List.replicate (-whole).toNat '0' ++ digits
  else if digits.length ≤ whole.toNat then
    digits ++ List.replicate (whole.toNat - digits.length) '0' ++ ".0".toList
  else digits.take whole.toNat ++ '.' :: digits.drop whole.toNat

/-- Digits in scientific notation, with a point only if there is more than one. -/
def withExponent (digits : List Char) (exponent : Int) : List Char :=
  let mantissa :=
    match digits with
    | [] => []
    | [d] => [d]
    | d :: ds => d :: '.' :: ds
  mantissa ++ 'e' :: (toString exponent).toList

/-- The decimal in the notation that its size selects. -/
def FloatLayout.write (n : FloatLayout) (d : Decimal) : List Char :=
  let digits := Nat.toDigits 10 d.digits
  let exponent := d.exponent + (digits.length : Int) - 1
  if n.least ≤ exponent ∧ exponent ≤ n.greatest then withPoint digits (exponent + 1)
  else withExponent digits exponent

/-- A finite value in the shortest digits that read back. -/
def finiteText (fmt : Format) (negative : Bool) (m : Nat) (e : Int) : String :=
  let digits := if m = 0 then "0.0".toList else FloatLayout.pool.write (fmt.shortest m e)
  String.ofList (if negative then '-' :: digits else digits)

/-- The operand of a pool load: finite values get the mark of their type. -/
def floatText (fmt : Format) (mark : String) : Value → String
  | .finite negative m e => finiteText fmt negative m e ++ mark
  | .infinite false => "Infinity"
  | .infinite true => "-Infinity"
  | .nan => "NaN"

/-- Reads a literal of a float type: hexadecimal, decimal, or decimal with one mark at its end. -/
def readFloat? (fmt : Format) (isMark : Char → Bool) (text : String) : Option Value :=
  match hexFloat? text with
  | some v => some (fmt.convert v)
  | none =>
    match float? fmt text with
    | some v => some v
    | none =>
      match Text.dropLast? isMark text.toList with
      | some cs => float? fmt (String.ofList cs)
      | none => none

/-- The value that stands for the natural number `n`. -/
def small (fmt : Format) (n : Nat) : Value := fmt.ofQuotient false n 1

def loadFloat (text : String) : Except ConstantError FixedInstruction :=
  match readFloat? binary32 (fun c => c = 'F' || c = 'f') text with
  | none => .error (.notFloat text)
  | some v =>
    .ok <|
      if v = small binary32 0 then ⟨"fconst_0", none⟩
      else if v = small binary32 1 then ⟨"fconst_1", none⟩
      else if v = small binary32 2 then ⟨"fconst_2", none⟩
      else ⟨"ldc", some (floatText binary32 "F" v)⟩

def loadDouble (text : String) : Except ConstantError FixedInstruction :=
  match readFloat? binary64 (fun c => c = 'D' || c = 'd') text with
  | none => .error (.notDouble text)
  | some v =>
    .ok <|
      if v = small binary64 0 then ⟨"dconst_0", none⟩
      else if v = small binary64 1 then ⟨"dconst_1", none⟩
      else ⟨"ldc2_w", some (floatText binary64 "" v)⟩

/-- The load of a literal of the given type. -/
def loadConstant (unsigned : Bool) : ValueType → String → Except ConstantError FixedInstruction
  | .i32, text => loadInt text
  | .i64, text => loadLong unsigned text
  | .f32, text => loadFloat text
  | .f64, text => loadDouble text

end Lowering.Jvm
