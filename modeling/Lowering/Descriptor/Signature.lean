-- SUMMARY: Target descriptors: field types, lists of them, and method signatures.
import Lowering.Text.Search

/-!
# Descriptors

A field type is any number of opening brackets and then a one-letter base type, or `L`, a nonempty
name and a semicolon. A method descriptor is a list of field types in parentheses and a result, which
is a field type or `V`.
-/

namespace Lowering

/-- The letters of the base types. -/
def baseTypes : List Char := ['B', 'C', 'D', 'F', 'I', 'J', 'S', 'Z']

/-- The field type at the front of a list of characters, and what follows it. -/
def fieldType? : List Char → Option (List Char × List Char)
  | [] => none
  | '[' :: cs => (fieldType? cs).map fun (t, rest) => ('[' :: t, rest)
  | 'L' :: cs =>
    match Text.cutAt? (· = ';') cs with
    | some (c :: name, rest) => some ('L' :: c :: name ++ [';'], rest)
    | _ => none
  | c :: cs => if c ∈ baseTypes then some ([c], cs) else none

/-- Splits into field types, at most as many as the first argument. -/
def fieldTypesWithin : Nat → List Char → Option (List String)
  | _, [] => some []
  | 0, _ :: _ => none
  | bound + 1, cs =>
    match fieldType? cs with
    | some (t, rest) => (fieldTypesWithin bound rest).map (String.ofList t :: ·)
    | none => none

/-- Splits a concatenation of field types. -/
def fieldTypes? (cs : List Char) : Option (List String) := fieldTypesWithin cs.length cs

/-- The parameter types and the result type of a method. -/
structure Signature where
  params : List String
  result : String
  deriving DecidableEq, Repr

namespace Signature

/-- Reads a result type: `V` or a single field type. -/
def result? (cs : List Char) : Option String :=
  if cs = ['V'] then some "V"
  else
    match fieldTypes? cs with
    | some [t] => some t
    | _ => none

/-- Reads a method descriptor. The parameters end at the first closing parenthesis. -/
def parse? (s : String) : Option Signature :=
  match s.toList with
  | '(' :: cs =>
    match Text.cutAt? (· = ')') cs with
    | some (params, result) =>
      match fieldTypes? params, result? result with
      | some params, some result => some ⟨params, result⟩
      | _, _ => none
    | none => none
  | _ => none

end Signature

end Lowering
