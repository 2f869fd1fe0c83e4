-- SUMMARY: Libraries: checked tables with an index, lookup of mnemonics, and listings of them.
import Lowering.Library.Index
import Lowering.Table.Fault

/-!
# Libraries

A library is a table that has passed its checks, together with the index of its mnemonics. It never
changes, so any number of units can use it.
-/

namespace Lowering

structure Library where
  table : Table
  index : Index
  checked : table.fault? = none
  indexed : index = Index.ofNames table.names

/-- The library of a table without faults. -/
def Library.ofTable (t : Table) (h : t.fault? = none) : Library := ⟨t, Index.ofNames t.names, h, rfl⟩

/-- Checks a table and indexes its mnemonics. -/
def Table.build (t : Table) : Except LoadError Library :=
  match h : t.fault? with
  | none => .ok (.ofTable t h)
  | some fault => .error ⟨t.name, fault⟩

theorem Table.build_table {t : Table} {lib : Library} (h : t.build = .ok lib) : lib.table = t := by
  unfold Table.build at h
  split at h
  · cases h
    rfl
  · cases h

namespace Library

def name (lib : Library) : String := lib.table.name

def entries (lib : Library) : List Entry := lib.table.entries

def isa (lib : Library) : InstructionSet := lib.table.isa

def has (lib : Library) (option : LibraryOption) : Bool := lib.table.has option

/-- Whether the text is a label of the library's form. -/
def isLabel (lib : Library) (s : String) : Bool :=
  match lib.table.labelForm with
  | some form => form.accepts s
  | none => false

/-! ## Lookup -/

/-- Why a mnemonic selects no entry. -/
def unselected (lib : Library) (mnemonic : String) : Cause :=
  match lib.index.candidates mnemonic with
  | [] => .unknown lib.name
  | ids => .ambiguous lib.name (ids.filterMap fun id => lib.entries[id]?.map Entry.name)

/-- The external entry that a mnemonic selects, with its position. -/
def lookup (lib : Library) (mnemonic : String) : Except Failure (Nat × Entry) :=
  match lib.index.select? mnemonic with
  | none => .error ⟨lib.unselected mnemonic, some mnemonic⟩
  | some id =>
    match lib.entries[id]? with
    | none => .error ⟨.unknown lib.name, some mnemonic⟩
    | some e =>
      match e.visibility with
      | .external => .ok (id, e)
      | .auxiliary => .error ⟨.auxiliary, some mnemonic⟩

/-- The visibility of the entry that a spelling selects as it stands. -/
def visibility? (lib : Library) (spelling : String) : Option Visibility :=
  (lib.index.find? spelling).bind fun id => lib.entries[id]?.map Entry.visibility

/-! ## Listings -/

/-- Texts in the order of their code points. -/
def sorted (texts : List String) : List String := texts.mergeSort fun a b => decide (a ≤ b)

/-- The names of the external entries, in order. -/
def externalNames (lib : Library) : List String :=
  sorted ((lib.entries.filter (·.visibility = .external)).map Entry.name)

/-- The canonical form of a name, if it selects the same entry, or else the name itself. -/
def listedName (lib : Library) (name : String) : String :=
  match lib.lookup (canonical name), lib.lookup name with
  | .ok (a, _), .ok (b, _) => if a = b then canonical name else name
  | _, _ => name

/-- Leaves out texts that repeat the one before. -/
def withoutRepeats : List String → List String
  | a :: b :: rest => if a = b then withoutRepeats (b :: rest) else a :: withoutRepeats (b :: rest)
  | texts => texts

/-- The mnemonics to list for the external entries, in order. -/
def mnemonics (lib : Library) : List String :=
  withoutRepeats (sorted (lib.externalNames.map lib.listedName))

end Library

end Lowering
