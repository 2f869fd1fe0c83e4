-- SUMMARY: Lowering the instructions of one unit: diagnostics, error policy and the receiver of primitives.
import Lowering.Diagnostic
import Lowering.Expansion

/-!
# Sessions

A session lowers the instructions of one unit in order. It hands their primitives to a sink, which may
refuse any of them, and turns every failure into one diagnostic. A failed or refused instruction
leaves the nesting and the call sites of the unit as they were.
-/

namespace Lowering

/-- What happens after a failure that is reported as an error. -/
inductive ErrorPolicy where
  | keepGoing | stop
  deriving DecidableEq, Repr

structure UnitConfig where
  /-- The class to which relative method references belong. -/
  className : String := "Module"
  policy : ErrorPolicy := .keepGoing
  warningsAsErrors : Bool := false
  deriving DecidableEq, Repr

structure Session where
  library : Library
  config : UnitConfig := {}
  state : UnitState := {}
  /-- The source line of the diagnostics that follow. -/
  line : Nat := 0
  errors : Nat := 0
  warnings : Nat := 0

/-! ## Sinks -/

/-- A receiver of primitives. An offer is accepted, or refused for a reason. -/
structure Sink (σ : Type) where
  offer : σ → Primitive → σ × Option String

namespace Sink

variable {σ : Type}

/-- The sink that accepts everything. -/
def accepting : Sink Unit := ⟨fun _ _ => ((), none)⟩

/-- Offers primitives in order, up to the first that is refused. -/
def offerAll (sink : Sink σ) : σ → List Primitive → σ × Option String
  | s, [] => (s, none)
  | s, p :: ps =>
    match sink.offer s p with
    | (s, none) => offerAll sink s ps
    | (s, some reason) => (s, some reason)

end Sink

/-! ## Reports -/

/-- The diagnostic with the severity under which it is reported. -/
def UnitConfig.promote (config : UnitConfig) (d : Diagnostic) : Diagnostic :=
  if config.warningsAsErrors then { d with severity := .error } else d

namespace Session

/-- Counts a reported diagnostic. -/
def count (s : Session) (d : Diagnostic) : Session :=
  match d.severity with
  | .error => { s with errors := s.errors + 1 }
  | .warning => { s with warnings := s.warnings + 1 }

/-- Reports diagnostics in order. -/
def report (s : Session) (ds : List Diagnostic) : Session × List Diagnostic :=
  let ds := ds.map s.config.promote
  (ds.foldl count s, ds)

/-! ## Instructions -/

/-- What lowering one instruction leads to. The result is an error only if the unit is to stop, and
`none` for an instruction that failed without stopping it. -/
structure Outcome (σ : Type) where
  session : Session
  sink : σ
  diagnostics : List Diagnostic
  result : Except Failure (Option Expansion)

variable {σ : Type}

/-- Expands an instruction and offers its primitives. The session is as the expansion leaves it, also if
a primitive is refused. -/
def attempt (s : Session) (sink : Sink σ) (received : σ) (mnemonic : String)
    (operands : List String) : Except Failure Expansion × Session × σ :=
  match s.state.expand s.library s.config.className mnemonic operands with
  | (.error failure, state) => (.error failure, { s with state }, received)
  | (.ok expansion, state) =>
    match sink.offerAll received expansion.primitives with
    | (received, none) => (.ok expansion, { s with state }, received)
    | (received, some reason) => (.error ⟨.refused reason, some mnemonic⟩, { s with state }, received)

/-- Whether reporting the diagnostic stops the unit. -/
def stops (s : Session) (d : Diagnostic) : Bool :=
  (s.config.promote d).severity = .error && s.config.policy = .stop

/-- Lowers one instruction. One that fails or is refused is undone. -/
def lower (s : Session) (sink : Sink σ) (received : σ) (mnemonic : String)
    (operands : List String) : Outcome σ :=
  let saved := s.state
  match s.attempt sink received mnemonic operands with
  | (.ok expansion, s, received) =>
    let notices := expansion.notices.map (Diagnostic.ofNotice s.line mnemonic)
    let (session, diagnostics) := s.report notices
    ⟨session, received, diagnostics, .ok (some expansion)⟩
  | (.error failure, s, received) =>
    let s := { s with state := s.state.restore saved }
    let d := Diagnostic.ofFailure s.line failure
    let (session, diagnostics) := s.report [d]
    ⟨session, received, diagnostics, if s.stops d then .error failure else .ok none⟩

/-- Checks the end of the unit. Gives the first failure, if there is one. -/
def finish (s : Session) : Session × List Diagnostic × Option Failure :=
  let failures := s.state.nesting.finish
  let (session, diagnostics) := s.report (failures.map (Diagnostic.ofFailure s.line))
  (session, diagnostics, failures.head?)

end Session

end Lowering
