-- SUMMARY: Tables of entries: what a library is made from, before it is checked.
import Lowering.InstructionSet
import Lowering.Op

/-!
# Tables

A table names the entries of a library and says how the library writes labels, signatures and owners.
Source text may invoke external entries only. Other entries call external and auxiliary ones alike.
-/

namespace Lowering

inductive Visibility where
  | external | auxiliary
  deriving DecidableEq, Repr

structure Entry where
  name : String
  visibility : Visibility := .external
  body : List Op
  /-- The value type of the entry, if its name fixes one. -/
  type : Option ValueType := none
  role : IndentRole := .none

/-- The names that an entry calls, in order. -/
def Entry.calls (e : Entry) : List String := (steps e.body).filterMap Step.callee?

/-! ## Labels and options -/

/-- Source labels are one fixed character and then decimal digits. -/
structure LabelForm where
  letter : Char
  deriving DecidableEq, Repr

namespace LabelForm

def accepts (form : LabelForm) (s : String) : Bool :=
  match s.toList with
  | [] => false
  | c :: digits => c = form.letter && !digits.isEmpty && digits.all Char.isDigit

/-- The form as a pattern. -/
def text (form : LabelForm) : String := form.letter.toString ++ "[0-9]+"

end LabelForm

inductive LibraryOption where
  /-- Branches name a depth, never a label. -/
  | structuredLabels
  /-- Unsigned 64-bit literals are accepted. -/
  | unsignedLong
  /-- Listings show the nesting by indentation. -/
  | indent
  deriving DecidableEq, Repr

def LibraryOption.name : LibraryOption → String
  | structuredLabels => "structured-labels"
  | unsignedLong => "unsigned-long"
  | indent => "indent"

/-! ## Tables -/

structure Table where
  name : String
  isa : InstructionSet
  labelForm : Option LabelForm := none
  style : Option SignatureStyle := none
  owners : List OwnerRule := []
  options : List LibraryOption := []
  entries : List Entry

namespace Table

def has (t : Table) (option : LibraryOption) : Bool := t.options.contains option

/-- The entry with exactly this name. -/
def find? (t : Table) (name : String) : Option Entry := t.entries.find? (·.name == name)

def names (t : Table) : List String := t.entries.map Entry.name

/-- The tables that operand transforms consult, for a unit of the given class. -/
def naming (t : Table) (className : String) : Naming := ⟨t.style, t.owners, className⟩

theorem find?_name {t : Table} {name : String} {e : Entry} (h : t.find? name = some e) :
    e.name = name := by
  simpa using List.find?_some h

theorem find?_mem {t : Table} {name : String} {e : Entry} (h : t.find? name = some e) :
    e ∈ t.entries :=
  List.mem_of_find?_eq_some h

end Table

/-- The options in the order in which they are first named. -/
def enabled (options : List LibraryOption) : List LibraryOption :=
  options.foldl (fun on option => if on.contains option then on else on ++ [option]) []

end Lowering
