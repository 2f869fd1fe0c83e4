-- SUMMARY: The call graph of a table: finding a cycle, and what follows calls within a bound.
import Lowering.Table

/-!
# Call graphs

Entries call each other by name. A search from every entry finds the first cycle in the order of the
table, if there is one. A table without a cycle can be followed through all calls within a bound of
its number of entries.
-/

namespace Lowering.Table

/-- The names that the entry with this name calls. -/
def callsOf (t : Table) (name : String) : List String :=
  match t.find? name with
  | some e => e.calls
  | none => []

/-! ## Cycles -/

/-- The cycle that a call back to `name` closes, on a path whose last entry comes first. -/
def cycleFrom (name : String) (path : List String) : List String :=
  name :: (path.takeWhile (· ≠ name)).reverse ++ [name]

/-- Searches below `name`, with at most `bound` more entries on the path. Gives a cycle, or the names
from which no cycle can be reached. -/
def search (t : Table) : Nat → List String → List String → String →
    Except (List String) (List String)
  | 0, _, done, _ => .ok done
  | bound + 1, path, done, name =>
    let path := name :: path
    let visit (done : List String) (callee : String) : Except (List String) (List String) :=
      if callee ∈ path then .error (cycleFrom callee path)
      else if callee ∈ done then .ok done
      else search t bound path done callee
    match (t.callsOf name).foldlM visit done with
    | .ok done => .ok (name :: done)
    | .error cycle => .error cycle

/-- Searches from each name that was not reached before. -/
def searchAll (t : Table) : Except (List String) (List String) :=
  t.names.foldlM (fun done name =>
    if name ∈ done then .ok done else search t t.entries.length [] done name) []

/-- The first cycle, with its first name repeated at the end. -/
def cycle? (t : Table) : Option (List String) :=
  match t.searchAll with
  | .ok _ => none
  | .error cycle => some cycle

/-! ## Indentation roles -/

/-- The roles of the control actions among the steps, those of called entries included, down to a
depth of `bound` calls. -/
def rolesWithin (t : Table) : Nat → List Step → List IndentRole
  | 0, _ => []
  | bound + 1, steps =>
    steps.flatMap fun
      | .act (.control kind) => [kind.role]
      | .act _ => []
      | .call name =>
        match t.find? name with
        | some e => rolesWithin t bound (Lowering.steps e.body)
        | none => []

/-- The role that the control actions of a body have in common, if they do not disagree. -/
def commonRole? (roles : List IndentRole) : Option IndentRole :=
  match roles.filter (· ≠ .none) with
  | [] => some .none
  | role :: rest => if rest.all (· = role) then some role else none

/-- The role that the body of an entry implies. -/
def impliedRole? (t : Table) (e : Entry) : Option IndentRole :=
  commonRole? (t.rolesWithin t.entries.length (steps e.body))

end Lowering.Table
