-- SUMMARY: What makes a table unusable, in the order in which it is checked.
import Lowering.Table.CallGraph

/-!
# Faults of a table

A table is checked once. Names must be distinct, calls must be resolved and without a cycle, emitted
instructions must exist, dynamic calls must be consistent, declared indentation roles must agree with
the control actions, and some entry must be external. The first fault in that order counts.
-/

namespace Lowering

inductive Fault where
  | duplicate (mnemonic : String)
  | unresolved (entry callee : String)
  | cycle (path : List String)
  | unknownInstruction (entry opcode : String)
  | callSpec (entry : String) (e : CallSpecError)
  | role (entry : String) (declared : IndentRole) (implied : Option IndentRole)
  | nothingExternal
  deriving DecidableEq, Repr

/-- The fault of a table with the given name. -/
structure LoadError where
  library : String
  fault : Fault
  deriving DecidableEq, Repr

def LoadError.message (e : LoadError) : String :=
  match e.fault with
  | .duplicate mnemonic => s!"library '{e.library}': mnemonic '{mnemonic}' defined twice"
  | .unresolved entry callee =>
    s!"library '{e.library}': entry '{entry}' references unknown macro '{callee}'"
  | .cycle path =>
    s!"library '{e.library}': cyclic macro reference " ++ " -> ".intercalate path
  | .unknownInstruction entry opcode =>
    s!"library '{e.library}': entry '{entry}' emits unknown target instruction '{opcode}'"
  | .callSpec entry (.descriptor template) =>
    s!"library '{e.library}': entry '{entry}' has unsatisfiable descriptor template '{template}'"
  | .callSpec entry problem =>
    s!"library '{e.library}': entry '{entry}' bootstrap arguments invalid: {problem.message}"
  | .role entry declared implied =>
    let impliedName := (implied.map IndentRole.name).getD "mixed"
    s!"library '{e.library}': entry '{entry}' declares indent role {declared.name} " ++
      s!"but its control ops imply {impliedName}"
  | .nothingExternal => s!"library '{e.library}' has no invocable mnemonics"

namespace Table

/-- The first name that repeats an earlier one. -/
def repeatedFrom? (seen : List String) : List String → Option String
  | [] => none
  | name :: names => if name ∈ seen then some name else repeatedFrom? (name :: seen) names

def duplicateFault? (t : Table) : Option Fault := (repeatedFrom? [] t.names).map .duplicate

/-- The first call of an entry to a name that is no entry. -/
def unresolvedIn? (names : List String) (e : Entry) : Option Fault :=
  (e.calls.find? fun callee => !names.contains callee).map (.unresolved e.name)

def unresolvedFault? (t : Table) : Option Fault := t.entries.findSome? (unresolvedIn? t.names)

def cycleFault? (t : Table) : Option Fault := t.cycle?.map .cycle

/-- What is wrong with one step of the entry with the given name. -/
def stepFault? (t : Table) (entry : String) : Step → Option Fault
  | .act (.emit opcode) =>
    if t.isa.has opcode then none else some (.unknownInstruction entry opcode)
  | .act (.emitByType opcodes) =>
    (opcodes.toList.find? fun opcode => !t.isa.has opcode).map (.unknownInstruction entry)
  | .act (.dynCall spec) =>
    match spec.check t.style with
    | .ok () => none
    | .error e => some (.callSpec entry e)
  | _ => none

def roleFault? (t : Table) (e : Entry) : Option Fault :=
  let implied := t.impliedRole? e
  if implied = some e.role then none else some (.role e.name e.role implied)

/-- The first fault of an entry: of its steps, then of its role. -/
def entryFault? (t : Table) (e : Entry) : Option Fault :=
  ((steps e.body).findSome? (t.stepFault? e.name)).or (t.roleFault? e)

def externalFault? (t : Table) : Option Fault :=
  if t.entries.any (·.visibility = .external) then none else some .nothingExternal

/-- The first fault of a table. -/
def fault? (t : Table) : Option Fault :=
  t.duplicateFault?.or <| t.unresolvedFault?.or <| t.cycleFault?.or <|
    (t.entries.findSome? t.entryFault?).or t.externalFault?

end Table

end Lowering
