-- SUMMARY: Expansion of one instruction: performing the operations of an entry on its operands.
import Lowering.Library
import Lowering.Nesting
import Lowering.Primitive

/-!
# Expansion

The operations of an entry consume the operands of one invocation, change the nesting of the unit and
emit primitives. An operation may fail after others have changed the unit, and then the unit is put back
to what it was before the instruction. Calls to other entries are followed down to a depth of the number
of entries, which is enough for every checked table.
-/

namespace Lowering

/-! ## Units -/

/-- The part of a unit's state that expansion changes: the nesting and the next call site. -/
structure UnitState where
  nesting : Nesting := {}
  nextSite : Nat := 0
  deriving DecidableEq, Repr

/-- Why a run of operations has stopped, and the unit as the operations before have left it. -/
structure Halt where
  cause : Cause
  unit : UnitState
  deriving DecidableEq, Repr

/-! ## Invocations -/

/-- What an expansion reads: the table, the class of the unit, and the mnemonic as written. -/
structure Scope where
  table : Table
  className : String
  mnemonic : String

/-- What an expansion changes. -/
structure Invocation where
  operands : Operands
  nesting : Nesting
  nextSite : Nat
  /-- The value type read from an annotation. -/
  annotated : Option ValueType := none
  /-- The label that belongs to this invocation, once it is needed. -/
  localLabel : Option Label := none
  primitives : List Primitive := []
  notices : List String := []
  deriving DecidableEq, Repr

namespace Invocation

/-- The state of the unit. -/
def unit (inv : Invocation) : UnitState := ⟨inv.nesting, inv.nextSite⟩

/-- Stops at a failure, before it has changed the unit. -/
def orHalt {α : Type} (inv : Invocation) (result : Except Cause α) : Except Halt α :=
  result.mapError (⟨·, inv.unit⟩)

def emit (inv : Invocation) (p : Primitive) : Invocation :=
  { inv with primitives := inv.primitives ++ [p] }

def emitAll (inv : Invocation) (ps : List Primitive) : Invocation :=
  { inv with primitives := inv.primitives ++ ps }

/-- Takes something from the front of the operands. -/
def take {α : Type} (inv : Invocation) (taking : Operands → Except Cause α × Operands) :
    Except Cause (α × Invocation) :=
  match taking inv.operands with
  | (.ok a, rest) => .ok (a, { inv with operands := rest })
  | (.error cause, _) => .error cause

/-- The value type: the declared one, the one already read, or an annotation, which is consumed. -/
def valueType (inv : Invocation) (declared : Option ValueType) :
    Except Cause (ValueType × Invocation) :=
  match declared.or inv.annotated with
  | some type => .ok (type, inv)
  | none =>
    match inv.operands.firstText?.bind ValueType.ofAnnotation? with
    | some type => .ok (type, { inv with operands := inv.operands.tail, annotated := some type })
    | none => .error (.missing "value type annotation (I32, I64, F32 or F64)")

/-- The value type of a return, which may have none. An annotation is consumed but not kept. -/
def returnType (inv : Invocation) (declared : Option ValueType) : Option ValueType × Invocation :=
  match declared.or inv.annotated with
  | some type => (some type, inv)
  | none =>
    match inv.operands.firstText?.bind ValueType.ofAnnotation? with
    | some type => (some type, { inv with operands := inv.operands.tail })
    | none => (none, inv)

/-- Inserts the label of the invocation, which is allocated on first use. -/
def insertLocalLabel (inv : Invocation) : Invocation :=
  match inv.localLabel with
  | some label => { inv with operands := .label label :: inv.operands }
  | none =>
    let (label, nesting) := inv.nesting.allocate
    { inv with operands := .label label :: inv.operands, nesting, localLabel := some label }

end Invocation

/-! ## Emission -/

/-- A fixed instruction as a primitive. -/
def FixedInstruction.primitive (i : FixedInstruction) : Primitive :=
  .insn i.opcode i.operand.toList

/-- A test of a condition and its jump to `target`. -/
def ConditionTest.primitives (test : ConditionTest) (target : LabelRef) : List Primitive :=
  test.prelude.map FixedInstruction.primitive ++ [.jump test.jump target]

namespace Scope

/-- The label, if an instruction may refer to it. -/
def checkLabel (scope : Scope) : LabelRef → Except Cause LabelRef
  | .generated label => .ok (.generated label)
  | .named name =>
    if scope.table.has .structuredLabels then .error (.namedLabel name scope.table.name)
    else
      match scope.table.labelForm with
      | some form => if form.accepts name then .ok (.named name) else .error (.notLabel name form.text)
      | none => .ok (.named name)

/-- Takes the first operand as a label that may be referred to. -/
def takeLabel (scope : Scope) (inv : Invocation) : Except Cause (LabelRef × Invocation) := do
  let (label, inv) ← inv.take Operands.takeLabel
  let label ← scope.checkLabel label
  return (label, inv)

/-- Emits an instruction with the operands of its form. -/
def emitInstruction (scope : Scope) (i : Instruction) (inv : Invocation) :
    Except Cause Invocation := do
  let what := i.name ++ " operand"
  match i.form with
  | .none => return inv.emit (.insn i.name [])
  | .one =>
    let (a, inv) ← inv.take (Operands.takeText what)
    return inv.emit (.insn i.name [a])
  | .two =>
    let (a, inv) ← inv.take (Operands.takeText what)
    let (b, inv) ← inv.take (Operands.takeText what)
    return inv.emit (.insn i.name [a, b])
  | .label =>
    let (target, inv) ← scope.takeLabel inv
    return inv.emit (.jump i.name target)
  | .rest =>
    return { inv with operands := [] }.emit (.insn i.name (inv.operands.map Field.shown))

/-- Emits the instruction with the given name. -/
def emitNamed (scope : Scope) (opcode : String) (inv : Invocation) : Except Cause Invocation :=
  match scope.table.isa.find? opcode with
  | some i => scope.emitInstruction i inv
  | none => .error (.unknownInstruction opcode)

/-- Emits a test of the condition, or of its negation, and its jump. -/
def emitTest (scope : Scope) (c : Condition) (negated : Bool) (target : LabelRef)
    (inv : Invocation) : Invocation :=
  inv.emitAll ((scope.table.isa.test c negated).primitives target)

def emitGoto (scope : Scope) (target : Label) (inv : Invocation) : Invocation :=
  inv.emit (.jump scope.table.isa.goto (.generated target))

/-! ## Structured control -/

/-- The targets of a branch table, one for each depth. -/
def branchTargets (n : Nesting) : Operands → Except Cause (List LabelRef)
  | [] => .ok []
  | field :: rest => do
    let depth ← field.depth
    let target ← n.branchTarget depth
    let targets ← branchTargets n rest
    return .generated target :: targets

/-- The labels that belong where a construct ends. -/
def closingLabels (frame : Frame) : List Primitive :=
  (frame.pendingElse.toList ++ [frame.exit]).map fun label => .label (.generated label)

def control (scope : Scope) (declared : Option ValueType) (inv : Invocation) :
    ControlKind → Except Cause Invocation
  | .block =>
    let (_, nesting) := inv.nesting.openBlock scope.mnemonic
    .ok { inv with nesting }
  | .loop =>
    let (entry, nesting) := inv.nesting.openLoop scope.mnemonic
    .ok ({ inv with nesting }.emit (.label (.generated entry)))
  | .ifThen c =>
    let (pending, nesting) := inv.nesting.openIf scope.mnemonic
    .ok (scope.emitTest c true (.generated pending) { inv with nesting })
  | .elseArm => do
    let (labels, nesting) ← inv.nesting.enterElse
    let inv := scope.emitGoto labels.exit { inv with nesting }
    return inv.emit (.label (.generated labels.start))
  | .close => do
    let (frame, nesting) ← inv.nesting.close
    return { inv with nesting }.emitAll (closingLabels frame)
  | .branch => do
    let (depth, inv) ← inv.take Operands.takeDepth
    let target ← inv.nesting.branchTarget depth
    return scope.emitGoto target inv
  | .branchIf c => do
    let (depth, inv) ← inv.take Operands.takeDepth
    let target ← inv.nesting.branchTarget depth
    return scope.emitTest c false (.generated target) inv
  | .branchTable => do
    let targets ← branchTargets inv.nesting inv.operands
    match targets.getLast? with
    | none => .error .noDefaultDepth
    | some last =>
      return { inv with operands := [] }.emit
        (.tableSwitch scope.table.isa.tableSwitch 0 last targets.dropLast)
  | .exit =>
    let isa := scope.table.isa
    match inv.returnType declared with
    | (some type, inv) => .ok (inv.emit (.insn (isa.typedReturn.get type) []))
    | (none, inv) => .ok (inv.emit (.insn isa.voidReturn []))

/-! ## Dynamic calls -/

/-- The descriptor of a dynamic call: that of its description, or the first operand. -/
def callDescriptor (scope : Scope) (spec : CallSpec) (inv : Invocation) :
    Except Cause (String × Invocation) :=
  match spec.descriptor with
  | some template =>
    match spec.resolved? scope.table.style with
    | some descriptor => .ok (descriptor, inv)
    | none => .error (.invalidTemplate template)
  | none => do
    let (text, inv) ← inv.take (Operands.takeText "call site descriptor")
    match CallSpec.resolve? scope.table.style text with
    | some descriptor => return (descriptor, inv)
    | none => .error (.notSignature (targetDescriptor scope.table.style text))

/-- The arguments that one source of static arguments gives. -/
def staticArgs (inv : Invocation) : ArgSource → Except Cause (List StaticArg × Invocation)
  | .fixed arg => .ok ([arg], inv)
  | .operandInt => do
    let (value, inv) ← inv.take (Operands.takeInt "bootstrap argument")
    if -0x80000000 ≤ value ∧ value < 0x80000000 then return ([.int value], inv)
    else .error (.exceedsInt value)
  | .operandHandles =>
    .ok (inv.operands.map fun field => .handle field.shown, { inv with operands := [] })

/-- The arguments that all sources give, in order. -/
def allStaticArgs (inv : Invocation) : List ArgSource → Except Cause (List StaticArg × Invocation)
  | [] => .ok ([], inv)
  | source :: sources => do
    let (args, inv) ← staticArgs inv source
    let (more, inv) ← allStaticArgs inv sources
    return (args ++ more, inv)

/-- Emits a dynamic call with the next identity. -/
def emitCall (scope : Scope) (spec : CallSpec) (inv : Invocation) : Except Cause Invocation := do
  let (descriptor, inv) ← scope.callDescriptor spec inv
  let (args, inv) ← allStaticArgs inv spec.bootstrap.args
  let site : CallSite :=
    { id := inv.nextSite, name := spec.name, descriptor, bootOwner := spec.bootstrap.owner,
      bootMethod := spec.bootstrap.method, bootDescriptor := spec.bootstrap.descriptor, args }
  return { inv with nextSite := inv.nextSite + 1 }.emit (.dynCall site)

/-! ## Operations -/

/-- Applies a transform. Inserting a type code needs the value type. -/
def applyTransform (scope : Scope) (declared : Option ValueType) (t : Transform)
    (inv : Invocation) : Except Cause Invocation := do
  let names := scope.table.naming scope.className
  match t with
  | .insertTypeCode =>
    let (type, inv) ← inv.valueType declared
    let operands ← Transform.apply names (some type) inv.operands t
    return { inv with operands }
  | t =>
    let operands ← Transform.apply names none inv.operands t
    return { inv with operands }

/-- Performs one action. An action that fails has not changed the unit. -/
def perform (scope : Scope) (declared : Option ValueType) (inv : Invocation) :
    Action → Except Cause Invocation
  | .emit opcode => scope.emitNamed opcode inv
  | .emitByType opcodes => do
    let (type, inv) ← inv.valueType declared
    scope.emitNamed (opcodes.get type) inv
  | .load type => do
    let (text, inv) ← inv.take (Operands.takeText "constant")
    match scope.table.isa.load (scope.table.has .unsignedLong) type text with
    | .ok i => return inv.emit i.primitive
    | .error e => .error (.constant e)
  | .transform t => scope.applyTransform declared t inv
  | .check c => do
    let (_, inv) ← inv.take fun ops => c.run ops
    return inv
  | .unsupported hint => .error (.unsupported hint)
  | .ignored reason => .ok { inv with notices := inv.notices ++ [reason] }
  | .dynCall spec => scope.emitCall spec inv
  | .control kind => scope.control declared inv kind
  | .jumpIf c => do
    let (target, inv) ← scope.takeLabel inv
    return scope.emitTest c false target inv
  | .localLabel => .ok inv.insertLocalLabel
  | .placeLabel => do
    let (label, inv) ← scope.takeLabel inv
    return inv.emit (.label label)

end Scope

/-- How a call to another entry is carried out, for a name and the declared value type. -/
abbrev CallHandler := String → Option ValueType → Invocation → Except Halt Invocation

mutual

/-- Performs one operation. -/
def Op.run (scope : Scope) (onCall : CallHandler) (declared : Option ValueType) (inv : Invocation) :
    Op → Except Halt Invocation
  | .act a => inv.orHalt (scope.perform declared inv a)
  | .call name => onCall name declared inv
  | .select single double =>
    match inv.valueType declared with
    | .error cause => .error ⟨cause, inv.unit⟩
    | .ok (type, inv) =>
      match type.width with
      | .single => Op.runAll scope onCall declared inv single
      | .double => Op.runAll scope onCall declared inv double
  | .seq ops => Op.runAll scope onCall declared inv ops

/-- Performs operations in order, up to the first that fails. -/
def Op.runAll (scope : Scope) (onCall : CallHandler) (declared : Option ValueType)
    (inv : Invocation) : List Op → Except Halt Invocation
  | [] => .ok inv
  | op :: ops =>
    match Op.run scope onCall declared inv op with
    | .error halt => .error halt
    | .ok inv => Op.runAll scope onCall declared inv ops

end

/-- Carries out a call through at most `bound` nested entries. An entry without a value type has that
of its caller. -/
def Scope.call (scope : Scope) : Nat → CallHandler
  | 0, name, _, inv => .error ⟨.callDepth name, inv.unit⟩
  | bound + 1, name, declared, inv =>
    match scope.table.find? name with
    | some e => Op.runAll scope (scope.call bound) (e.type.or declared) inv e.body
    | none => .error ⟨.unresolvedCall name, inv.unit⟩

/-- Performs the body of an entry, following calls through at most `bound` nested entries. -/
def Scope.runEntry (scope : Scope) (bound : Nat) (e : Entry) (inv : Invocation) :
    Except Halt Invocation :=
  Op.runAll scope (scope.call bound) e.type inv e.body

/-! ## Instructions -/

/-- What one instruction expands to. -/
structure Expansion where
  mnemonic : String
  primitives : List Primitive
  /-- The labels allocated for the instruction, in order. -/
  labels : List Label
  /-- The indentation of the source line. -/
  indent : Nat
  notices : List String
  deriving DecidableEq, Repr

/-- Refuses operands that no operation has consumed. -/
def Invocation.complete (inv : Invocation) : Except Cause Invocation :=
  if inv.operands.isEmpty then .ok inv else .error (.leftover (inv.operands.map Field.shown))

/-- The indentation of a line from the indentation before and after it. -/
def IndentRole.lineIndent (role : IndentRole) (before after : Nat) : Nat :=
  match role with
  | .none | .opens => before
  | .reopens => before - 1
  | .closes => after

namespace UnitState

/-- The labels allocated between two states. -/
def newLabels (before after : UnitState) : List Label :=
  (List.range' before.nesting.nextLabel (after.nesting.nextLabel - before.nesting.nextLabel)).map
    Label.mk

/-- Invokes an entry on the given operands. -/
def invoke (state : UnitState) (scope : Scope) (e : Entry) (operands : List String) :
    Except Halt Invocation := do
  let inv ← scope.runEntry scope.table.entries.length e
    { operands := .ofTexts operands, nesting := state.nesting, nextSite := state.nextSite }
  inv.orHalt inv.complete

/-- Puts what an expansion may have changed back to what it was. -/
def restore (state saved : UnitState) : UnitState :=
  { state with nesting := saved.nesting, nextSite := saved.nextSite }

/-- Expands one instruction, with the unit after it, for a way to invoke the entry at a position. A failed
expansion is undone. -/
def expandBy (invoke : Nat → Entry → Except Halt Invocation) (state : UnitState) (lib : Library)
    (mnemonic : String) : Except Failure Expansion × UnitState :=
  match lib.lookup mnemonic with
  | .error failure => (.error failure, state)
  | .ok (id, e) =>
    let saved := state
    match invoke id e with
    | .error halt => (.error ⟨halt.cause, some mnemonic⟩, halt.unit.restore saved)
    | .ok inv =>
      (.ok { mnemonic, primitives := inv.primitives, labels := saved.newLabels inv.unit,
             indent := e.role.lineIndent saved.nesting.indent inv.nesting.indent,
             notices := inv.notices }, inv.unit)

/-- Expands one instruction. Calls between entries are carried out by name. -/
def expand (state : UnitState) (lib : Library) (className mnemonic : String)
    (operands : List String) : Except Failure Expansion × UnitState :=
  expandBy (fun _ e => state.invoke ⟨lib.table, className, mnemonic⟩ e operands) state lib mnemonic

end UnitState

end Lowering
