-- SUMMARY: Well-nested programs of structured control, and the lines that write them.
import Lowering.Expansion

/-!
# Structured programs

A program is a sequence of straight-line instructions, branches and nested constructs. Its lines open,
switch and close the constructs, and branches name a construct by its depth. Nothing here refers to
labels.
-/

namespace Lowering

/-- An instruction as it is written: its mnemonic and its operands. -/
abbrev Line := String × List String

/-! ## Tests -/

/-- A condition that an `if` or a branch tests, with the two mnemonics that test it, and the
instructions that are emitted before its operands are compared. -/
structure Test where
  ifName : String
  branchName : String
  condition : Condition
  setup : List String := []
  deriving DecidableEq, Repr

namespace Test

/-- A comparison of values of a type that is fused with an `if` or a branch. -/
def fused (type relation : String) (condition : Condition) (setup : List String := []) : Test where
  ifName := type ++ "_IF" ++ relation
  branchName := type ++ "_BR_IF" ++ relation
  condition := condition
  setup := setup

/-- The tests of an integer type. -/
def integers (type : String) (signed unsigned : Compare → Condition) : List Test :=
  [fused type "EQ" (signed .eq), fused type "NE" (signed .ne),
   fused type "LT_S" (signed .lt), fused type "LT_U" (unsigned .lt),
   fused type "GT_S" (signed .gt), fused type "GT_U" (unsigned .gt),
   fused type "LE_S" (signed .le), fused type "LE_U" (unsigned .le),
   fused type "GE_S" (signed .ge), fused type "GE_U" (unsigned .ge)]

/-- The tests of a type of floats. -/
def floats (type : String) (compare : Compare → Condition) : List Test :=
  [fused type "EQ" (compare .eq), fused type "NE" (compare .ne), fused type "LT" (compare .lt),
   fused type "GT" (compare .gt), fused type "LE" (compare .le), fused type "GE" (compare .ge)]

/-- The tests of WebAssembly. -/
def all : List Test :=
  [{ ifName := "IF", branchName := "BR_IF", condition := .nonZero },
   fused "I32" "EQZ" .zero, fused "I64" "EQZ" (.long .eq) ["lconst_0"]] ++
  integers "I32" .int .unsignedInt ++ integers "I64" .long .unsignedLong ++
  floats "F32" .float ++ floats "F64" .double

end Test

/-- A test of WebAssembly. -/
abbrev WasmTest := { t : Test // t ∈ Test.all }

/-! ## Operands -/

/-- A depth as it is written. -/
structure Depth where
  text : String
  value : Nat
  reads : (Field.text text).depth = .ok value

/-- The type of a returned value as it is written. -/
structure ResultType where
  text : String
  type : ValueType
  reads : ValueType.ofAnnotation? text = some type

/-! ## Programs -/

/-- A program, given by its first instruction and what comes after it. A straight-line instruction is
recorded with the primitives that it stands for. -/
inductive Program where
  | done
  | plain (line : Line) (ps : List Primitive) (next : Program)
  | block (body next : Program)
  | loop (body next : Program)
  | ifThen (test : WasmTest) (arm next : Program)
  | ifElse (test : WasmTest) (arm other next : Program)
  | branch (depth : Depth) (next : Program)
  | branchIf (test : WasmTest) (depth : Depth) (next : Program)
  /-- The last depth is the one for an index out of range. -/
  | branchTable (depths : List Depth) (last : Depth) (next : Program)
  | exit (result : Option ResultType) (next : Program)

namespace Program

/-- The lines of a program, each with the primitives recorded for it if it is straight-line. -/
def records : Program → List (Line × Option (List Primitive))
  | done => []
  | plain line ps next => (line, some ps) :: next.records
  | block body next => (("BLOCK", []), none) :: (body.records ++ (("END", []), none) :: next.records)
  | loop body next => (("LOOP", []), none) :: (body.records ++ (("END", []), none) :: next.records)
  | ifThen test arm next =>
    ((test.val.ifName, []), none) :: (arm.records ++ (("END", []), none) :: next.records)
  | ifElse test arm other next =>
    ((test.val.ifName, []), none) :: (arm.records ++ (("ELSE", []), none) ::
      (other.records ++ (("END", []), none) :: next.records))
  | branch depth next => (("BR", [depth.text]), none) :: next.records
  | branchIf test depth next => ((test.val.branchName, [depth.text]), none) :: next.records
  | branchTable depths last next =>
    (("BR_TABLE", (depths ++ [last]).map Depth.text), none) :: next.records
  | exit result next =>
    (("RETURN", result.toList.map ResultType.text), none) :: next.records

/-- The lines of a program. -/
def lines (p : Program) : List Line := p.records.map Prod.fst

/-- Every branch goes to one of the constructs around it, of which `depth` are outside the program. -/
def Scoped (depth : Nat) : Program → Prop
  | done => True
  | plain _ _ next | exit _ next => next.Scoped depth
  | block body next | loop body next => body.Scoped (depth + 1) ∧ next.Scoped depth
  | ifThen _ arm next => arm.Scoped (depth + 1) ∧ next.Scoped depth
  | ifElse _ arm other next =>
    arm.Scoped (depth + 1) ∧ other.Scoped (depth + 1) ∧ next.Scoped depth
  | branch d next | branchIf _ d next => d.value < depth ∧ next.Scoped depth
  | branchTable ds last next => (∀ d ∈ ds ++ [last], d.value < depth) ∧ next.Scoped depth

end Program

end Lowering
