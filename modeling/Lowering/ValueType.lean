-- SUMMARY: The four value types, their target codes and widths, and type annotations.
import Lowering.Text.Case

/-!
# Value types

Source values are 32- or 64-bit integers or floats. Each type has a one-letter target code and takes
one or two slots of the target's stack. Instructions may name their type in an annotation field.
-/

namespace Lowering

inductive ValueType where
  | i32 | i64 | f32 | f64
  deriving DecidableEq, Repr

/-- How many stack slots a value takes. -/
inductive Width where
  | single | double
  deriving DecidableEq, Repr

namespace ValueType

def name : ValueType → String
  | i32 => "I32"
  | i64 => "I64"
  | f32 => "F32"
  | f64 => "F64"

/-- The code of the type in a target descriptor. -/
def code : ValueType → String
  | i32 => "I"
  | i64 => "J"
  | f32 => "F"
  | f64 => "D"

def width : ValueType → Width
  | i32 | f32 => .single
  | i64 | f64 => .double

/-- Reads a type annotation: the name or the code of a type, in any case. -/
def ofAnnotation? (s : String) : Option ValueType :=
  match Text.upper s with
  | "I32" | "I" => some i32
  | "I64" | "J" => some i64
  | "F32" | "F" => some f32
  | "F64" | "D" => some f64
  | _ => none

end ValueType

/-- One value for each value type. -/
structure ByType (α : Type) where
  i32 : α
  i64 : α
  f32 : α
  f64 : α
  deriving DecidableEq, Repr

namespace ByType

variable {α : Type}

def get (a : ByType α) : ValueType → α
  | .i32 => a.i32
  | .i64 => a.i64
  | .f32 => a.f32
  | .f64 => a.f64

/-- The four values, integers first. -/
def toList (a : ByType α) : List α := [a.i32, a.i64, a.f32, a.f64]

theorem get_mem_toList (a : ByType α) (t : ValueType) : a.get t ∈ a.toList := by
  cases t <;> simp [get, toList]

end ByType

end Lowering
