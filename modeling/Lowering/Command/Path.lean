-- SUMMARY: Paths: their parts, the name a path leads to, and the stem of a name.
import Lowering.Text.Search

/-!
# Paths

A path is a text with slashes between its parts. Empty parts and single dots lead nowhere, and two dots
lead to the parent. The stem of a path names the class of the unit it holds.
-/

namespace Lowering.Command.Path

/-- The characters between slashes. There is always at least one part. -/
def split : List Char → List (List Char)
  | [] => [[]]
  | c :: cs =>
    match split cs with
    | [] => [[c]]
    | part :: parts => if c = '/' then [] :: part :: parts else (c :: part) :: parts

/-- The parts of a path, empty ones included. -/
def parts (path : String) : List String := (split path.toList).map String.ofList

/-- Whether a part leads nowhere. -/
def isIdle (part : String) : Bool := part = "" || part = "."

/-- The name that a path leads to. A path that ends with its parent has none. -/
def name? (path : String) : Option String :=
  match ((parts path).filter fun part => !isIdle part).getLast? with
  | some name => if name = ".." then none else some name
  | none => none

/-- A name up to its last dot. A dot that starts the name ends no stem. -/
def stem (name : String) : String :=
  match Text.cutAt? (· = '.') name.toList.reverse with
  | some (_, before) => if before.isEmpty then name else String.ofList before.reverse
  | none => name

/-- The stem of the name that a path leads to. -/
def stem? (path : String) : Option String := (name? path).map stem

end Lowering.Command.Path
