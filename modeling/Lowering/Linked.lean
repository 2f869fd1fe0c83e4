-- SUMMARY: Calls between entries resolved to positions in the table, and expansion along these.
import Lowering.Expansion

/-!
# Resolved calls

Entries are written with calls by name. When a table is built, each call is resolved to the position of the
entry with that name, and the first one that has none is a fault of the table. An expansion then follows
the positions.
-/

namespace Lowering

/-- An operation whose calls have been resolved. -/
inductive LinkedOp where
  | act (a : Action)
  | call (name : String) (target : Nat)
  | select (single double : List LinkedOp)
  | seq (ops : List LinkedOp)

/-- An entry with its body resolved. -/
structure LinkedEntry where
  entry : Entry
  body : List LinkedOp

mutual

/-- The calls of an operation, with their positions. -/
def LinkedOp.calls : LinkedOp → List (String × Nat)
  | .act _ => []
  | .call name target => [(name, target)]
  | .select single double => LinkedOp.allCalls single ++ LinkedOp.allCalls double
  | .seq ops => LinkedOp.allCalls ops

def LinkedOp.allCalls : List LinkedOp → List (String × Nat)
  | [] => []
  | op :: ops => op.calls ++ LinkedOp.allCalls ops

end

/-- The calls of an entry, with their positions. -/
def LinkedEntry.calls (e : LinkedEntry) : List (String × Nat) := LinkedOp.allCalls e.body

/-! ## Resolution -/

mutual

/-- Resolves the calls of an operation, or gives the first name that has no position. -/
def Op.resolve (position? : String → Option Nat) : Op → Except String LinkedOp
  | .act a => .ok (.act a)
  | .call name =>
    match position? name with
    | some target => .ok (.call name target)
    | none => .error name
  | .select single double => do
    let single ← Op.resolveAll position? single
    let double ← Op.resolveAll position? double
    return .select single double
  | .seq ops => do
    let ops ← Op.resolveAll position? ops
    return .seq ops

def Op.resolveAll (position? : String → Option Nat) : List Op → Except String (List LinkedOp)
  | [] => .ok []
  | op :: ops => do
    let op ← Op.resolve position? op
    let ops ← Op.resolveAll position? ops
    return op :: ops

end

def Entry.resolve (position? : String → Option Nat) (e : Entry) : Except Fault LinkedEntry :=
  match Op.resolveAll position? e.body with
  | .ok body => .ok ⟨e, body⟩
  | .error callee => .error (.unresolved e.name callee)

namespace Table

/-- The position of the entry with exactly this name. -/
def position? (t : Table) (name : String) : Option Nat := t.entries.findIdx? (·.name == name)

/-- Resolves the calls of all entries, or gives the fault of the first that has no position. -/
def resolve (t : Table) : Except Fault (List LinkedEntry) := t.entries.mapM (Entry.resolve t.position?)

end Table

/-- The entries of a library with their calls resolved. -/
def Library.linked (lib : Library) : List LinkedEntry :=
  match lib.table.resolve with
  | .ok entries => entries
  | .error _ => []

/-! ## Runs -/

/-- How a resolved call is carried out, for its name and position and the declared value type. -/
abbrev LinkedHandler := String → Nat → Option ValueType → Invocation → Except Halt Invocation

mutual

/-- Performs one operation. -/
def LinkedOp.run (scope : Scope) (onCall : LinkedHandler) (declared : Option ValueType)
    (inv : Invocation) : LinkedOp → Except Halt Invocation
  | .act a => inv.orHalt (scope.perform declared inv a)
  | .call name target => onCall name target declared inv
  | .select single double =>
    match inv.valueType declared with
    | .error cause => .error ⟨cause, inv.unit⟩
    | .ok (type, inv) =>
      match type.width with
      | .single => LinkedOp.runAll scope onCall declared inv single
      | .double => LinkedOp.runAll scope onCall declared inv double
  | .seq ops => LinkedOp.runAll scope onCall declared inv ops

/-- Performs operations in order, up to the first that fails. -/
def LinkedOp.runAll (scope : Scope) (onCall : LinkedHandler) (declared : Option ValueType)
    (inv : Invocation) : List LinkedOp → Except Halt Invocation
  | [] => .ok inv
  | op :: ops =>
    match LinkedOp.run scope onCall declared inv op with
    | .error halt => .error halt
    | .ok inv => LinkedOp.runAll scope onCall declared inv ops

end

/-- Performs the body of the entry at a position, with its calls followed through at most `bound` nested
entries, itself included. -/
def Scope.callAt (scope : Scope) (entries : List LinkedEntry) : Nat → LinkedHandler
  | 0, name, _, _, inv => .error ⟨.callDepth name, inv.unit⟩
  | bound + 1, name, target, declared, inv =>
    match entries[target]? with
    | some e => LinkedOp.runAll scope (scope.callAt entries bound) (e.entry.type.or declared) inv e.body
    | none => .error ⟨.unresolvedCall name, inv.unit⟩

namespace UnitState

/-- Invokes the entry at a position on the given operands. -/
def invokeAt (state : UnitState) (scope : Scope) (entries : List LinkedEntry) (operands : List String)
    (id : Nat) (e : Entry) : Except Halt Invocation := do
  let inv ← scope.callAt entries (entries.length + 1) e.name id none
    { operands := .ofTexts operands, nesting := state.nesting, nextSite := state.nextSite }
  inv.orHalt inv.complete

/-- Expands one instruction. Calls between entries go to the positions they have been resolved to. -/
def expandLinked (state : UnitState) (lib : Library) (className mnemonic : String)
    (operands : List String) : Except Failure Expansion × UnitState :=
  expandBy (state.invokeAt ⟨lib.table, className, mnemonic⟩ lib.linked operands) state lib mnemonic

end UnitState

end Lowering
