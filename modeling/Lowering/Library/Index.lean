-- SUMMARY: The index of a library: which spellings of a mnemonic select which entry.
import Lowering.Table

/-!
# The index of mnemonics

An entry is selected by its exact name, or by any spelling with the same canonical form, in which
letters are capitals and points are underscores. A canonical form that is shared by several entries
and is not itself a name selects none of them.
-/

namespace Lowering

/-- The canonical form of a mnemonic. -/
def canonical (s : String) : String :=
  String.ofList (s.toList.map fun c => if c = '.' then '_' else c.toUpper)

/-- The spellings that select one entry, and the canonical forms that several entries share. Entries
are given by their position in the table. -/
structure Index where
  unique : List (String × Nat)
  ambiguous : List (String × List Nat)
  deriving DecidableEq, Repr

namespace Index

/-- Adds a position to the group of its spelling. -/
def addTo (spelling : String) (id : Nat) : List (String × List Nat) → List (String × List Nat)
  | [] => [(spelling, [id])]
  | (s, ids) :: groups =>
    if s = spelling then (s, ids ++ [id]) :: groups else (s, ids) :: addTo spelling id groups

/-- The positions of each spelling, in order. -/
def grouped (pairs : List (String × Nat)) : List (String × List Nat) :=
  pairs.foldl (fun groups (spelling, id) => addTo spelling id groups) []

/-- Each name with its position. -/
def exact (names : List String) : List (String × Nat) := names.zipIdx

/-- The canonical forms that are not names themselves, with the positions that have them. -/
def folded (names : List String) : List (String × List Nat) :=
  grouped (names.zipIdx.filterMap fun (name, id) =>
    let key := canonical name
    if names.contains key then none else some (key, id))

/-- The spelling of a group that has just one position. -/
def single? : String × List Nat → Option (String × Nat)
  | (spelling, [id]) => some (spelling, id)
  | _ => none

def ofNames (names : List String) : Index where
  unique := exact names ++ (folded names).filterMap single?
  ambiguous := (folded names).filter fun group => (single? group).isNone

/-- The position that a spelling selects as it stands. -/
def find? (index : Index) (spelling : String) : Option Nat := index.unique.lookup spelling

/-- The position that a mnemonic selects, as it stands or in canonical form. -/
def select? (index : Index) (mnemonic : String) : Option Nat :=
  (index.find? mnemonic).or (index.find? (canonical mnemonic))

/-- The positions among which a mnemonic does not decide. -/
def candidates (index : Index) (mnemonic : String) : List Nat :=
  (index.ambiguous.lookup (canonical mnemonic)).getD []

end Index

end Lowering
