-- SUMMARY: Source text: its lines, and lowering a whole text as one unit into a report.
import Lowering.Session
import Lowering.Text.Blank

/-!
# Source text

Each line of a source text holds one instruction: a mnemonic and operand fields, separated by white
space. A semicolon starts a comment. A line that is just a label of the library's form defines that
label. The report of a unit has one item for each line that holds something.
-/

namespace Lowering

structure SourceLine where
  number : Nat
  mnemonic : String
  operands : List String
  deriving DecidableEq, Repr

namespace SourceLine

/-- Reads one line. Blank lines and comments hold nothing. -/
def parse? (number : Nat) (text : String) : Option SourceLine :=
  match Text.fields (String.ofList (text.toList.takeWhile (· ≠ ';'))) with
  | [] => none
  | mnemonic :: operands => some ⟨number, mnemonic, operands⟩

/-- The largest line number. -/
def largestNumber : Nat := 0xFFFFFFFF

/-- The lines of a text that hold something, numbered from one. All lines after the one with the largest
number have that number, too. -/
def ofText (text : String) : List SourceLine :=
  (Text.lines text).zipIdx.filterMap fun (line, i) => parse? (min (i + 1) largestNumber) line

/-- The fields, one space apart. -/
def text (line : SourceLine) : String := " ".intercalate (line.mnemonic :: line.operands)

end SourceLine

/-! ## Reports -/

/-- What became of one source line. -/
inductive Item where
  | label (line : Nat) (name : String)
  | instruction (source : SourceLine) (indent : Nat) (primitives : List Primitive)
  | rejected (source : SourceLine)
  deriving DecidableEq, Repr

/-- The primitives of an item. A source label is one of them. -/
def Item.primitives : Item → List Primitive
  | label _ name => [.label (.named name)]
  | instruction _ _ primitives => primitives
  | rejected _ => []

/-- Everything that lowering a unit gives. -/
structure Report where
  library : String
  className : String
  options : List LibraryOption
  items : List Item
  diagnostics : List Diagnostic
  errors : Nat
  warnings : Nat
  deriving DecidableEq, Repr

namespace Report

/-- All primitives of the unit, in order. -/
def primitives (r : Report) : List Primitive := r.items.flatMap Item.primitives

/-- All call sites of the unit, in order. -/
def callSites (r : Report) : List CallSite := r.primitives.filterMap Primitive.callSite?

def hasErrors (r : Report) : Bool := 0 < r.errors

end Report

/-- A unit that was stopped, with its report up to the line that stopped it. -/
structure Stopped where
  failure : Failure
  report : Report
  deriving DecidableEq, Repr

def Stopped.text (s : Stopped) : String :=
  s!"translation of {s.report.className} stopped: {s.failure.text}"

/-! ## Lowering a text -/

/-- A unit in progress. -/
structure Progress where
  session : Session
  items : List Item := []
  diagnostics : List Diagnostic := []

namespace Progress

def report (p : Progress) : Report where
  library := p.session.library.name
  className := p.session.config.className
  options := p.session.library.table.options
  items := p.items
  diagnostics := p.diagnostics
  errors := p.session.errors
  warnings := p.session.warnings

/-- Adds what a line led to. -/
def add (p : Progress) (session : Session) (item : Item) (diagnostics : List Diagnostic) :
    Progress :=
  ⟨session, p.items ++ [item], p.diagnostics ++ diagnostics⟩

/-- Lowers one line. The failure is there only if it stops the unit. -/
def step (p : Progress) (line : SourceLine) : Progress × Option Failure :=
  let session := { p.session with line := line.number }
  if line.operands.isEmpty && session.library.isLabel line.mnemonic then
    (p.add session (.label line.number line.mnemonic) [], none)
  else
    let outcome := session.lower Sink.accepting () line.mnemonic line.operands
    let item : Item :=
      match outcome.result with
      | .ok (some expansion) => .instruction line expansion.indent expansion.primitives
      | _ => .rejected line
    let failure :=
      match outcome.result with
      | .error failure => some failure
      | .ok _ => none
    (p.add outcome.session item outcome.diagnostics, failure)

/-- Lowers lines in order, up to one that stops the unit. -/
def run (p : Progress) : List SourceLine → Progress × Option Failure
  | [] => (p, none)
  | line :: lines =>
    match p.step line with
    | (p, none) => run p lines
    | (p, some failure) => (p, some failure)

/-- Checks the end of the unit at the last line that held something. -/
def finish (p : Progress) : Progress :=
  let (session, diagnostics, _) := p.session.finish
  let noted := diagnostics.map fun d => d.withNote "construct still open at end of unit"
  { p with session, diagnostics := p.diagnostics ++ noted }

end Progress

/-- Lowers a text as one unit. -/
def lowerText (library : Library) (config : UnitConfig) (text : String) : Except Stopped Report :=
  match Progress.run { session := { library, config } } (SourceLine.ofText text) with
  | (p, none) => .ok p.finish.report
  | (p, some failure) => .error ⟨failure, p.report⟩

end Lowering
