-- SUMMARY: The counter that a unit numbers its labels with shows in its labels and nowhere else.
import Lowering.Proofs.LabelHistory
import Lowering.Proofs.Numbering.Renumbering

/-!
# Numbering of labels

Two units that differ in the number of their first label do the same, up to the numbers of their labels.
At first there is no label among the operands of an instruction. In the libraries of the catalog, an entry
that inserts the label of its invocation goes on with an operation that takes the label from there. So
there is none when anything else is done. This is so for numbers without a bound, and for those of 32 bits
as long as their counter does not overflow.
-/

namespace Lowering

/-- The result of a run, with no more than the cause if it has stopped. -/
def causes {α : Type} (x : Except Halt α) : Except Cause α := x.mapError Halt.cause

theorem causes_orHalt {α : Type} (inv : Invocation) (x : Except Cause α) : causes (inv.orHalt x) = x := by
  cases x <;> rfl

theorem causes_bind {α β : Type} (x : Except Halt α) (f : α → Except Halt β) :
    causes (x >>= f) = causes x >>= fun a => causes (f a) := by
  cases x <;> rfl

/-- What `f` does to an invocation without labels among its operands does not depend on the numbers of
labels, and leaves none among the operands. -/
structure Uniform (r : Renumbering) (f : Invocation → Except Cause Invocation) : Prop where
  textual : Keeps (Invocation.Textual r) f
  renumber : ∀ inv, inv.Textual r → f (inv.renumber r) = (f inv).map (Invocation.renumber r)

namespace Uniform

variable {r : Renumbering} {f g : Invocation → Except Cause Invocation}

theorem ok : Uniform r .ok := by
  refine ⟨fun inv inv' hinv h => ?_, fun _ _ => rfl⟩
  cases h
  exact hinv

theorem error (cause : Cause) : Uniform r fun _ => .error cause := ⟨nofun, fun _ _ => rfl⟩

theorem bind (hf : Uniform r f) (hg : Uniform r g) : Uniform r fun inv => f inv >>= g where
  textual inv inv' hinv h := by
    obtain ⟨inv₁, hfirst, h⟩ := ok_of_bind_ok h
    exact hg.textual (hf.textual hinv hfirst) h
  renumber inv hinv := by
    rw [hf.renumber inv hinv]
    exact bind_map_eq fun inv₁ hfirst => hg.renumber inv₁ (hf.textual hinv hfirst)

/-- Reading the value type and going on. -/
theorem typed (scope : Scope) {f : ValueType → Invocation → Except Cause Invocation}
    (hf : ∀ type, Uniform r (f type)) (declared : Option ValueType) :
    Uniform r fun inv => inv.valueType declared >>= fun typed => f typed.1 typed.2 where
  textual inv inv' hinv h := by
    obtain ⟨⟨type, inv₁⟩, htype, h⟩ := ok_of_bind_ok h
    exact (hf type).textual (Invocation.textual_types r scope hinv htype) h
  renumber inv hinv := by
    rw [Invocation.valueType_renumber]
    exact bind_map_eq fun typed htype =>
      (hf typed.1).renumber typed.2 (Invocation.textual_types r scope hinv htype)

theorem perform (scope : Scope) (declared : Option ValueType) {a : Action} (ha : a ≠ .localLabel) :
    Uniform r (scope.perform declared · a) where
  textual inv inv' hinv h := by
    by_cases hplace : a = .placeLabel
    · subst hplace
      obtain ⟨field, rest, target, hops, -, rfl⟩ := Scope.perform_placeLabel h
      exact ⟨fun l hl => hinv.operands l (hops ▸ List.mem_cons_of_mem _ hl), hinv.counter⟩
    · exact (Scope.perform_effect ha hplace h).textual hinv
  renumber inv hinv := scope.perform_renumber r declared ha hinv

end Uniform

/-! ## Taking the label of the invocation -/

/-- All that `f` does is to take a label from the operands and to put out primitives that refer to it. -/
structure Scope.Consumes (scope : Scope) (ps : LabelRef → List Primitive)
    (f : Invocation → Except Cause Invocation) : Prop where
  eq : ∀ inv, f inv = scope.takeLabel inv >>= fun taken => .ok (taken.2.emitAll (ps taken.1))
  renumber : ∀ r target, ps (target.renumber r) = (ps target).map (Primitive.renumber r)

/-- The label of the invocation is taken back as it has been inserted. -/
theorem Scope.takeLabel_insertLocalLabel (scope : Scope) (r : Renumbering) {inv : Invocation}
    (hcounter : r.Covers inv.nesting.counter) :
    ∃ own inv', scope.takeLabel inv.insertLocalLabel = .ok (.generated own, inv') ∧
      scope.takeLabel (inv.renumber r).insertLocalLabel =
        .ok ((LabelRef.generated own).renumber r, inv'.renumber r) ∧
      inv'.operands = inv.operands ∧ r.Covers inv'.nesting.counter := by
  cases hlocal : inv.localLabel with
  | some own =>
    have hrenumbered : (inv.renumber r).localLabel = some (r.label own) := by
      simp [Invocation.renumber, hlocal]
    rw [Invocation.insertLocalLabel_of_some hlocal, Invocation.insertLocalLabel_of_some hrenumbered]
    exact ⟨own, inv, rfl, rfl, rfl, hcounter⟩
  | none =>
    have hrenumbered : (inv.renumber r).localLabel = none := by simp [Invocation.renumber, hlocal]
    rw [Invocation.insertLocalLabel_of_none hlocal, Invocation.insertLocalLabel_of_none hrenumbered]
    have hown : Label.mk (inv.renumber r).next = r.label ⟨inv.next⟩ := r.next hcounter
    have hadvance : (inv.renumber r).nesting.counter.advance = r.counter inv.nesting.counter.advance :=
      r.advance hcounter
    refine ⟨_, _, rfl, ?_, rfl, r.covers_advance _ hcounter⟩
    rw [hown, hadvance]
    rfl

theorem Scope.Consumes.uniform {scope : Scope} {ps : LabelRef → List Primitive}
    {f : Invocation → Except Cause Invocation} (h : scope.Consumes ps f) (r : Renumbering) :
    Uniform r fun inv => f inv.insertLocalLabel := by
  constructor
  · intro inv inv' hinv hf
    obtain ⟨own, taken, htake, -, hoperands, hcounter⟩ :=
      scope.takeLabel_insertLocalLabel r hinv.counter
    simp only [h.eq, bind_of_ok htake] at hf
    cases hf
    exact ⟨fun l hl => hinv.operands l (hoperands ▸ hl), hcounter⟩
  · intro inv hinv
    obtain ⟨own, taken, htake, hrenumbered, -⟩ := scope.takeLabel_insertLocalLabel r hinv.counter
    rw [h.eq, h.eq, bind_of_ok htake, bind_of_ok hrenumbered, h.renumber, Invocation.emitAll_renumber]
    rfl

/-- The operation takes a label from the operands, or fails for a reason that has nothing to do with
them. -/
inductive Op.Takes (t : Table) : Op → Prop where
  | place : Op.Takes t (.act .placeLabel)
  | jump (c : Condition) : Op.Takes t (.act (.jumpIf c))
  | emit {opcode : String} (h : ∀ i, t.isa.find? opcode = some i → i.form = .label) :
      Op.Takes t (.act (.emit opcode))
  | call {name : String} (h : ∀ e, t.find? name = some e → ∃ c, e.body = [.act (.jumpIf c)]) :
      Op.Takes t (.call name)

namespace Scope

variable (scope : Scope) (declared : Option ValueType)

theorem consumes_placeLabel :
    scope.Consumes (fun target => [.label target]) (scope.perform declared · .placeLabel) :=
  ⟨fun _ => rfl, fun _ _ => rfl⟩

theorem consumes_jumpIf (c : Condition) :
    scope.Consumes (scope.table.isa.test c false).primitives (scope.perform declared · (.jumpIf c)) :=
  ⟨fun _ => rfl, fun r => ConditionTest.primitives_renumber r _⟩

theorem consumes_emitInstruction {i : Instruction} (hform : i.form = .label) :
    scope.Consumes (fun target => [.jump i.name target]) (scope.emitInstruction i) := by
  refine ⟨fun inv => ?_, fun _ _ => rfl⟩
  unfold emitInstruction
  simp only [hform]
  rfl

/-- Inserting the label of the invocation and going on with an operation that takes it. -/
theorem uniform_takes {scope : Scope} {op : Op} (hop : op.Takes scope.table) (r : Renumbering)
    (bound : Nat) (declared : Option ValueType) :
    Uniform r fun inv =>
      causes (Op.run scope (scope.call bound) declared inv.insertLocalLabel op) := by
  cases hop with
  | place =>
    simp only [Op.run, causes_orHalt]
    exact (scope.consumes_placeLabel declared).uniform r
  | jump c =>
    simp only [Op.run, causes_orHalt]
    exact (scope.consumes_jumpIf declared c).uniform r
  | @emit opcode hemit =>
    simp only [Op.run, causes_orHalt, perform, emitNamed]
    cases hfind : scope.table.isa.find? opcode with
    | none => exact .error _
    | some i => exact (scope.consumes_emitInstruction (hemit i hfind)).uniform r
  | @call name hcall =>
    simp only [Op.run]
    cases bound with
    | zero => exact .error _
    | succ bound =>
      simp only [Scope.call]
      cases hfind : scope.table.find? name with
      | none => exact .error _
      | some e =>
        obtain ⟨c, hbody⟩ := hcall e hfind
        simp only [hbody, Op.runAll_singleton, causes_orHalt]
        exact (scope.consumes_jumpIf _ c).uniform r

end Scope

/-! ## Runs -/

/-- No step of the operations inserts the label of the invocation, unless by a call. -/
def WithoutOwn (steps : List Step) : Prop := .act .localLabel ∉ steps

theorem Op.causes_run_select (scope : Scope) (onCall : CallHandler) (declared : Option ValueType)
    (inv : Invocation) (single double : List Op) :
    causes (Op.run scope onCall declared inv (.select single double)) =
      inv.valueType declared >>= fun typed =>
        causes (Op.runAll scope onCall declared typed.2
          (match typed.1.width with | .single => single | .double => double)) := by
  rw [Op.run]
  cases inv.valueType declared with
  | error cause => rfl
  | ok typed =>
    obtain ⟨type, inv₁⟩ := typed
    cases type <;> rfl

theorem Op.causes_runAll_cons (scope : Scope) (onCall : CallHandler) (declared : Option ValueType)
    (inv : Invocation) (op : Op) (ops : List Op) :
    causes (Op.runAll scope onCall declared inv (op :: ops)) =
      causes (Op.run scope onCall declared inv op) >>= fun inv =>
        causes (Op.runAll scope onCall declared inv ops) := by
  rw [Op.runAll_cons, causes_bind]

-- The induction is on the syntax of operations; calls are left to the handler.
mutual

theorem Op.run_uniform {scope : Scope} {onCall : CallHandler} {r : Renumbering}
    {declared : Option ValueType} (hcall : ∀ name, Uniform r fun inv => causes (onCall name declared inv))
    {op : Op} (hop : WithoutOwn op.steps) :
    Uniform r fun inv => causes (Op.run scope onCall declared inv op) := by
  match op with
  | .act a =>
    simp only [Op.run, causes_orHalt]
    exact .perform scope declared fun ha => hop (by simp [Op.steps, ha])
  | .call name =>
    simp only [Op.run]
    exact hcall name
  | .select single double =>
    simp only [WithoutOwn, Op.steps, List.mem_append, not_or] at hop
    simp only [Op.causes_run_select]
    refine .typed scope (f := fun type inv => causes (Op.runAll scope onCall declared inv
      (match type.width with | .single => single | .double => double))) (fun type => ?_) declared
    cases type.width with
    | single => exact Op.runAll_uniform hcall hop.1
    | double => exact Op.runAll_uniform hcall hop.2
  | .seq ops =>
    simp only [Op.run]
    exact Op.runAll_uniform hcall (by simpa only [Op.steps] using hop)

theorem Op.runAll_uniform {scope : Scope} {onCall : CallHandler} {r : Renumbering}
    {declared : Option ValueType} (hcall : ∀ name, Uniform r fun inv => causes (onCall name declared inv))
    {ops : List Op} (hops : WithoutOwn (Op.allSteps ops)) :
    Uniform r fun inv => causes (Op.runAll scope onCall declared inv ops) := by
  match ops with
  | [] => exact .ok
  | op :: ops =>
    simp only [WithoutOwn, Op.allSteps, List.mem_append, not_or] at hops
    simp only [Op.causes_runAll_cons]
    exact (Op.run_uniform hcall hops.1).bind (Op.runAll_uniform hcall hops.2)

end

/-- The body inserts the label of the invocation only before an operation that takes it. -/
inductive Table.PairedBody (t : Table) : List Op → Prop where
  | nil : t.PairedBody []
  | own {op : Op} {ops : List Op} (hop : op.Takes t) (hops : t.PairedBody ops) :
      t.PairedBody (.act .localLabel :: op :: ops)
  | other {op : Op} {ops : List Op} (hop : WithoutOwn op.steps) (hops : t.PairedBody ops) :
      t.PairedBody (op :: ops)

/-- The bodies of all entries are paired. -/
def Table.Paired (t : Table) : Prop := ∀ e ∈ t.entries, t.PairedBody e.body

namespace Scope

variable {scope : Scope} {r : Renumbering}

/-- A paired body is uniform if calls are. -/
theorem runAll_paired {bound : Nat} {declared : Option ValueType}
    (hcall : ∀ name, Uniform r fun inv => causes (scope.call bound name declared inv)) {body : List Op}
    (hbody : scope.table.PairedBody body) :
    Uniform r fun inv => causes (Op.runAll scope (scope.call bound) declared inv body) := by
  induction hbody with
  | nil => exact .ok
  | own hop hops ih =>
    simp only [Op.causes_runAll_cons]
    exact (uniform_takes hop r bound declared).bind ih
  | other hop hops ih =>
    simp only [Op.causes_runAll_cons]
    exact (Op.run_uniform hcall hop).bind ih

theorem call_uniform (hpaired : scope.table.Paired) (bound : Nat) (name : String)
    (declared : Option ValueType) : Uniform r fun inv => causes (scope.call bound name declared inv) := by
  induction bound generalizing name declared with
  | zero => exact .error _
  | succ bound ih =>
    simp only [Scope.call]
    cases hfind : scope.table.find? name with
    | none => exact .error _
    | some e => exact runAll_paired (fun name => ih name _) (hpaired e (Table.find?_mem hfind))

theorem runEntry_uniform (hpaired : scope.table.Paired) {e : Entry} (he : e ∈ scope.table.entries)
    (bound : Nat) : Uniform r fun inv => causes (scope.runEntry bound e inv) :=
  runAll_paired (fun name => call_uniform hpaired bound name _) (hpaired e he)

end Scope

/-! ## Instructions -/

theorem Invocation.complete_renumber (r : Renumbering) (inv : Invocation) :
    (inv.renumber r).complete = inv.complete.map (renumber r) := by
  have hoperands : (inv.renumber r).operands = inv.operands := rfl
  unfold complete
  rw [hoperands]
  split <;> rfl

theorem ok_of_causes {α : Type} {x : Except Halt α} {a : α} (h : causes x = .ok a) : x = .ok a := by
  cases x with
  | error halt => cases h
  | ok a' => exact congrArg Except.ok (Except.ok.inj h)

theorem error_of_causes {α : Type} {x : Except Halt α} {cause : Cause} (h : causes x = .error cause) :
    ∃ unit, x = .error ⟨cause, unit⟩ := by
  cases x with
  | error halt =>
    cases h
    exact ⟨halt.unit, rfl⟩
  | ok a => cases h

/-- What becomes of an instruction, with other numbers. -/
def Renumbering.outcome (r : Renumbering)
    (outcome : Except Failure Expansion × UnitState) : Except Failure Expansion × UnitState :=
  (outcome.1.map (Expansion.renumber r), outcome.2.renumber r)

namespace UnitState

variable {r : Renumbering} {state state' : UnitState} {lib : Library} {className mnemonic : String}
  {operands : List String}

/-- Labels that are renumbered without a gap are still those between the two states. -/
theorem newLabels_renumber (hbefore : r.Covers state.nesting.counter)
    (hafter : r.Covers state'.nesting.counter)
    (hle : state.nesting.nextLabel ≤ state'.nesting.nextLabel)
    (hcounts : r.Counts state'.nesting.counter) :
    (state.renumber r).newLabels (state'.renumber r) = (state.newLabels state').map r.label := by
  have hfrom : (state.renumber r).nesting.nextLabel =
      (r.label ⟨0⟩).number + state.nesting.nextLabel := by
    rw [← hcounts.number _ hle]
    exact congrArg Label.number (r.next hbefore)
  have hto : (state'.renumber r).nesting.nextLabel =
      (r.label ⟨0⟩).number + state'.nesting.nextLabel := by
    rw [← hcounts.number state'.nesting.nextLabel (Nat.le_refl _)]
    exact congrArg Label.number (r.next hafter)
  rw [newLabels, newLabels, hfrom, hto, Nat.add_sub_add_left, ← List.map_add_range', List.map_map,
    List.map_map]
  refine List.map_congr_left fun i hi => ?_
  have hrange := List.mem_range'_1.mp hi
  have hi : i ≤ state'.nesting.nextLabel := by omega
  exact congrArg Label.mk (hcounts.number i hi).symm

theorem invoke_renumber {scope : Scope} (hpaired : scope.table.Paired) {e : Entry}
    (he : e ∈ scope.table.entries) (hcounter : r.Covers state.nesting.counter) :
    causes ((state.renumber r).invoke scope e operands) =
      (causes (state.invoke scope e operands)).map (Invocation.renumber r) := by
  have hrun := (scope.runEntry_uniform (r := r) hpaired he scope.table.entries.length).renumber
    (state.start operands) ⟨label_notMem_start state operands, hcounter⟩
  have hinvoke : ∀ state : UnitState, causes (state.invoke scope e operands) =
      causes (scope.runEntry scope.table.entries.length e (state.start operands)) >>=
        Invocation.complete := by
    intro state
    rw [invoke, causes_bind]
    simp only [causes_orHalt]
    rfl
  rw [hinvoke, hinvoke]
  refine (congrArg (· >>= Invocation.complete) hrun).trans (bind_map_eq fun inv _ => ?_)
  exact inv.complete_renumber r

/-- An instruction fails as it would with other numbers, and leaves the unit as it was. -/
theorem expand_renumber_error (hpaired : lib.table.Paired) (hcounter : r.Covers state.nesting.counter)
    {failure : Failure}
    (h : state.expand lib className mnemonic operands = (.error failure, state')) :
    (state.renumber r).expand lib className mnemonic operands = (.error failure, state'.renumber r) := by
  cases expand_eq_error h
  unfold expand expandBy at h ⊢
  split at h
  · cases h
    rfl
  · rename_i id e hlookup
    have hinvoke := @invoke_renumber r state operands ⟨lib.table, className, mnemonic⟩ hpaired e
      (Library.lookup_eq_ok hlookup).1 hcounter
    split at h
    · rename_i halt hhalt
      cases h
      dsimp only at hhalt
      rw [hhalt] at hinvoke
      obtain ⟨unit, hfails⟩ := error_of_causes hinvoke
      simp only [hfails, restore_eq]
    · cases h

/-- An instruction succeeds as it would with other numbers. -/
theorem expand_renumber_ok (hpaired : lib.table.Paired) (hcounter : r.Covers state.nesting.counter)
    {x : Expansion} (h : state.expand lib className mnemonic operands = (.ok x, state')) :
    ∃ labels, (state.renumber r).expand lib className mnemonic operands =
        (.ok { x.renumber r with labels }, state'.renumber r) ∧
      r.Covers state'.nesting.counter ∧
      (r.Counts state'.nesting.counter → labels = x.labels.map r.label) := by
  unfold expand expandBy at h ⊢
  split at h
  · cases h
  · rename_i id e hlookup
    have hinvoke := @invoke_renumber r state operands ⟨lib.table, className, mnemonic⟩ hpaired e
      (Library.lookup_eq_ok hlookup).1 hcounter
    split at h
    · cases h
    · rename_i inv hinv
      cases h
      dsimp only at hinv
      rw [hinv] at hinvoke
      have hafter := counter_of_invoke r.covers_advance hcounter hinv
      simp only [ok_of_causes hinvoke]
      refine ⟨_, rfl, hafter, fun hcounts => ?_⟩
      exact @newLabels_renumber r state inv.unit hcounter hafter
        (since_of_invoke hinv hcounts.overflowed).2 hcounts

/-- An instruction does what it would do with other numbers. -/
theorem expand_renumber (hpaired : lib.table.Paired) (hcounter : r.Covers state.nesting.counter)
    (className mnemonic : String) (operands : List String) :
    let outcome := state.expand lib className mnemonic operands
    let outcome' := (state.renumber r).expand lib className mnemonic operands
    outcome'.2 = outcome.2.renumber r ∧ r.Covers outcome.2.nesting.counter ∧
      (r.Counts outcome.2.nesting.counter → outcome'.1 = outcome.1.map (Expansion.renumber r)) := by
  obtain ⟨⟨result, state'⟩, h⟩ :
      ∃ outcome, state.expand lib className mnemonic operands = outcome := ⟨_, rfl⟩
  cases result with
  | error failure =>
    rw [h, expand_renumber_error hpaired hcounter h]
    cases expand_eq_error h
    exact ⟨rfl, hcounter, fun _ => rfl⟩
  | ok x =>
    obtain ⟨labels, hrenumbered, hafter, hlabels⟩ := expand_renumber_ok (r := r) hpaired hcounter h
    rw [h, hrenumbered]
    refine ⟨rfl, hafter, fun hcounts => ?_⟩
    rw [hlabels hcounts]
    rfl

/-- What becomes of instructions in order, each with the state of the unit after it. -/
def outcomes (lib : Library) (className : String) :
    UnitState → List (String × List String) → List (Except Failure Expansion × UnitState)
  | _, [] => []
  | state, (mnemonic, operands) :: calls =>
    let outcome := state.expand lib className mnemonic operands
    outcome :: outcomes lib className outcome.2 calls

theorem outcomes_covers (hpaired : lib.table.Paired) (hcounter : r.Covers state.nesting.counter)
    {calls : List (String × List String)} :
    ∀ outcome ∈ outcomes lib className state calls, r.Covers outcome.2.nesting.counter := by
  induction calls generalizing state with
  | nil => exact List.forall_mem_nil _
  | cons call calls ih =>
    obtain ⟨-, hafter, -⟩ := expand_renumber hpaired hcounter className call.1 call.2
    exact List.forall_mem_cons.mpr ⟨hafter, ih hafter⟩

/-- A unit with other numbers goes through the same states, with these numbers. -/
theorem exists_outcome_renumber (hpaired : lib.table.Paired)
    (hcounter : r.Covers state.nesting.counter) {calls : List (String × List String)}
    {outcome : Except Failure Expansion × UnitState}
    (hmem : outcome ∈ outcomes lib className state calls) :
    ∃ outcome' ∈ outcomes lib className (state.renumber r) calls,
      outcome'.2 = outcome.2.renumber r := by
  induction calls generalizing state with
  | nil => cases hmem
  | cons call calls ih =>
    obtain ⟨hstate, hafter, -⟩ := expand_renumber (r := r) hpaired hcounter className call.1 call.2
    rcases List.mem_cons.mp hmem with rfl | hmem
    · exact ⟨_, List.mem_cons_self, hstate⟩
    · obtain ⟨outcome', hmem', hrenumbered⟩ := ih hafter hmem
      rw [← hstate] at hmem'
      exact ⟨outcome', List.mem_cons_of_mem _ hmem', hrenumbered⟩

/-- A unit with other numbers does the same, instruction by instruction. -/
theorem outcomes_renumber (hpaired : lib.table.Paired) (hcounter : r.Covers state.nesting.counter)
    {calls : List (String × List String)}
    (hcounts : ∀ outcome ∈ outcomes lib className state calls, r.Counts outcome.2.nesting.counter) :
    outcomes lib className (state.renumber r) calls =
      (outcomes lib className state calls).map r.outcome := by
  induction calls generalizing state with
  | nil => rfl
  | cons call calls ih =>
    obtain ⟨hstate, hafter, hresult⟩ := expand_renumber (r := r) hpaired hcounter className call.1 call.2
    obtain ⟨hfirst, hrest⟩ := List.forall_mem_cons.mp hcounts
    simp only [outcomes, List.map_cons]
    refine congr (congrArg List.cons (Prod.ext (hresult hfirst) hstate)) ?_
    rw [hstate]
    exact ih hafter hrest

end UnitState

/-! ## Libraries -/

def Step.isOwn : Step → Bool
  | .act .localLabel => true
  | _ => false

/-- Whether the body only jumps to the label in the first operand. -/
def isJump : List Op → Bool
  | [.act (.jumpIf _)] => true
  | _ => false

def isAmong (names : List String) (name : String) : Bool :=
  (names.map textKey).any fun key => Nat.beq (textKey name) key

theorem isAmong_iff {names : List String} {name : String} :
    isAmong names name = true ↔ name ∈ names := by
  simp [isAmong, textKey_inj]

/-- Whether the operation takes a label, given the instructions that take none, and the entries that only
jump. -/
def Op.takes (others jumps : List String) : Op → Bool
  | .act .placeLabel | .act (.jumpIf _) => true
  | .act (.emit opcode) => !isAmong others opcode
  | .call name => isAmong jumps name
  | _ => false

/-- Whether the label of the invocation is inserted only before operations that take it. -/
def isPairedBody (others jumps : List String) : List Op → Bool
  | [] => true
  | .act .localLabel :: op :: ops => op.takes others jumps && isPairedBody others jumps ops
  -- An insertion at the end of the body comes here too, and does not pass.
  | op :: ops => op.steps.all (!·.isOwn) && isPairedBody others jumps ops

/-- Whether the bodies of all entries are paired. -/
def Table.isPaired (t : Table) : Bool :=
  let others := (t.isa.instructions.filter fun i => decide (i.form ≠ .label)).map Instruction.name
  let jumps := (t.entries.filter fun e => isJump e.body).map Entry.name
  t.entries.all fun e => isPairedBody others jumps e.body

section

variable {t : Table} {others jumps : List String}
  (hothers : ∀ i ∈ t.isa.instructions, i.name ∉ others → i.form = .label)
  (hjumps : ∀ name ∈ jumps, ∀ e, t.find? name = some e → isJump e.body = true)

include hothers hjumps

theorem Op.Takes.of_eval {op : Op} (h : op.takes others jumps = true) : op.Takes t := by
  unfold Op.takes at h
  split at h
  · exact .place
  · exact .jump _
  · refine .emit fun i hfind => hothers i (List.mem_of_find?_eq_some hfind) ?_
    rw [InstructionSet.find?_name hfind, ← isAmong_iff]
    simpa using h
  · refine .call fun e hfind => ?_
    have hjump := hjumps _ (isAmong_iff.mp h) e hfind
    unfold isJump at hjump
    split at hjump
    · rename_i c hbody
      exact ⟨c, hbody⟩
    · cases hjump
  · cases h

theorem Table.PairedBody.of_eval {body : List Op} (h : isPairedBody others jumps body = true) :
    t.PairedBody body := by
  induction body using isPairedBody.induct with
  | case1 => exact .nil
  | case2 op ops ih =>
    simp only [isPairedBody, Bool.and_eq_true] at h
    exact .own (.of_eval hothers hjumps h.1) (ih h.2)
  | case3 op ops _ ih =>
    rw [isPairedBody, Bool.and_eq_true] at h
    · refine .other (fun hown => ?_) (ih h.2)
      have hnot := List.all_eq_true.mp h.1 _ hown
      cases hnot
    · assumption

end

theorem Library.paired_of_isPaired {lib : Library} (h : lib.table.isPaired = true) :
    lib.table.Paired := by
  intro e he
  refine .of_eval ?_ ?_ (List.all_eq_true.mp h e he)
  · intro i hi hname
    by_contra hform
    exact hname (List.mem_map_of_mem (List.mem_filter.mpr ⟨hi, decide_eq_true hform⟩))
  · intro name hname e₁ hfind
    obtain ⟨e₂, he₂, rfl⟩ := List.mem_map.mp hname
    obtain ⟨hmem, hjump⟩ := List.mem_filter.mp he₂
    cases hfind.symm.trans (Table.find?_eq_some_of_mem lib.table_checked.distinct hmem)
    exact hjump

theorem Catalog.paired {lib : Library} (hlib : lib ∈ Catalog.libraries) : lib.table.Paired := by
  have hwasm32 : wasm32.isPaired = true := by decide +kernel
  have hwasi : wasi.isPaired = true := by decide +kernel
  have htextifier : textifier.isPaired = true := by decide +kernel
  have hextension : extension.isPaired = true := by decide +kernel
  exact Library.paired_of_isPaired
    (table_of_mem_libraries (P := (·.isPaired = true)) hwasm32 hwasi htextifier hextension hlib)

/-! ## Other first labels -/

namespace Renumbering

/-- Every label of a counter without a bound gets `k` more. -/
def shift (k : Nat) : Renumbering where
  label l := ⟨l.number + k⟩
  counter c := .unbounded (c.next.number + k)
  Covers := LabelCounter.Unbounded
  covers_advance _ := .advance
  next _ := rfl
  advance h := by
    obtain ⟨n, rfl⟩ := h
    exact congrArg LabelCounter.unbounded (Nat.add_right_comm n k 1)

theorem shift_counts (k : Nat) {c : LabelCounter} (h : (shift k).Covers c) : (shift k).Counts c where
  overflowed := LabelCounter.Unbounded.overflowed h
  number i _ := by
    show i + k = 0 + k + i
    omega

/-- A sum overflows at the next number if it has overflowed or the next number does. -/
theorem overflow_add (n k : UInt32) :
    (decide (4294967296 ≤ n.toNat + k.toNat) || n + 1 + k == 0) =
      (n + 1 == 0 || decide (4294967296 ≤ (n + 1).toNat + k.toNat)) := by
  have hn := n.toNat_lt
  have hk := k.toNat_lt
  rw [Bool.eq_iff_iff]
  simp only [Bool.or_eq_true, decide_eq_true_eq, beq_iff_eq, ← UInt32.toNat_inj, UInt32.toNat_add,
    UInt32.toNat_zero, UInt32.toNat_one]
  omega

/-- Every label of a counter of 32 bits gets `k` more, in 32 bits. The counter overflows earlier. -/
def shiftWord (k : UInt32) : Renumbering where
  label l := ⟨(UInt32.ofNat l.number + k).toNat⟩
  counter
    | .unbounded n => .unbounded n
    | .word n overflowed => .word (n + k) (overflowed || decide (4294967296 ≤ n.toNat + k.toNat))
  Covers c := ∃ n overflowed, c = .word n overflowed
  covers_advance := by
    rintro _ ⟨n, overflowed, rfl⟩
    exact ⟨_, _, rfl⟩
  next := by
    rintro _ ⟨n, overflowed, rfl⟩
    simp only [LabelCounter.next, UInt32.ofNat_toNat]
  advance := by
    rintro _ ⟨n, overflowed, rfl⟩
    have hnext : n + k + 1 = n + 1 + k := by
      rw [UInt32.add_assoc, UInt32.add_comm k 1, UInt32.add_assoc]
    simp only [LabelCounter.advance]
    rw [hnext, Bool.or_assoc, Bool.or_assoc, overflow_add]

theorem shiftWord_counts {k : UInt32} {c : LabelCounter} (hc : (shiftWord k).Covers c)
    (h : ((shiftWord k).counter c).overflowed = false) : (shiftWord k).Counts c := by
  obtain ⟨n, overflowed, rfl⟩ := hc
  obtain ⟨hoverflowed, hbound⟩ := Bool.or_eq_false_iff.mp h
  have hsum := Nat.lt_of_not_le (of_decide_eq_false hbound)
  refine ⟨hoverflowed, fun i hi => ?_⟩
  have hle : i ≤ n.toNat := hi
  show (UInt32.ofNat i + k).toNat = (UInt32.ofNat 0 + k).toNat + i
  rw [UInt32.toNat_add, UInt32.toNat_add, UInt32.toNat_ofNat', UInt32.toNat_ofNat']
  omega

end Renumbering

/-- A unit of a library of the catalog whose labels are numbered from `k` does, instruction by
instruction, what a unit does whose labels are numbered from zero. Each succeeds or fails as there, with
the same failure, indentation, notices and call sites. The primitives, the labels taken and the open
constructs are the same once `k` is added to every generated label. So it is for labels that are counted
in 32 bits, unless the counter overflows. -/
theorem Catalog.outcomes_startingAt {lib : Library} (hlib : lib ∈ Catalog.libraries)
    (className : String) (calls : List (String × List String)) :
    (∀ k : Nat, UnitState.outcomes lib className { nesting := .startingAt k } calls =
      (UnitState.outcomes lib className { nesting := .startingAt 0 } calls).map
        (Renumbering.shift k).outcome) ∧
    ∀ k : UInt32,
      (∀ outcome ∈ UnitState.outcomes lib className { nesting := .startingAtWord k } calls,
        outcome.2.nesting.overflowed = false) →
      UnitState.outcomes lib className { nesting := .startingAtWord k } calls =
        (UnitState.outcomes lib className { nesting := .startingAtWord 0 } calls).map
          (Renumbering.shiftWord k).outcome := by
  have hpaired := Catalog.paired hlib
  constructor
  · intro k
    have hcovers : (Renumbering.shift k).Covers (Nesting.startingAt 0).counter := ⟨0, rfl⟩
    have hstart : ({ nesting := .startingAt k } : UnitState) =
        UnitState.renumber (.shift k) { nesting := .startingAt 0 } := by
      simp [UnitState.renumber, Nesting.renumber, Nesting.startingAt, Renumbering.shift, LabelCounter.next]
    rw [hstart]
    exact UnitState.outcomes_renumber hpaired hcovers fun outcome hmem =>
      Renumbering.shift_counts k (UnitState.outcomes_covers hpaired hcovers outcome hmem)
  · intro k hcounts
    have hcovers : (Renumbering.shiftWord k).Covers (Nesting.startingAtWord 0).counter := ⟨0, _, rfl⟩
    have hstart : ({ nesting := .startingAtWord k } : UnitState) =
        UnitState.renumber (.shiftWord k) { nesting := .startingAtWord 0 } := by
      have hword : k.toNat < 4294967296 := k.toNat_lt
      simp [UnitState.renumber, Nesting.renumber, Nesting.startingAtWord, Renumbering.shiftWord, hword]
    rw [hstart] at hcounts ⊢
    refine UnitState.outcomes_renumber hpaired hcovers fun outcome hmem =>
      Renumbering.shiftWord_counts (UnitState.outcomes_covers hpaired hcovers outcome hmem) ?_
    obtain ⟨outcome', hmem', hstate⟩ := UnitState.exists_outcome_renumber hpaired hcovers hmem
    have hoverflowed := hcounts outcome' hmem'
    rw [hstate] at hoverflowed
    exact hoverflowed

theorem selectionInBlock_outcomes_startingAt :
    let outcomes := fun nesting => UnitState.outcomes Catalog.wasm32Library "Module"
      { nesting } selectionInBlock
    let labels := fun nesting => (outcomes nesting).map fun outcome =>
      outcome.1.toOption.map Expansion.labels
    Catalog.wasm32Library ∈ Catalog.libraries ∧
    (∀ outcome ∈ outcomes (.startingAtWord 4294967290), outcome.2.nesting.overflowed = false) ∧
    labels (.startingAt 0) = [some [⟨0⟩], some [⟨1⟩], none, some []] ∧
    labels (.startingAt 5) = [some [⟨5⟩], some [⟨6⟩], none, some []] ∧
    labels (.startingAtWord 0) = [some [⟨0⟩], some [⟨1⟩], none, some []] ∧
    labels (.startingAtWord 4294967290) = [some [⟨4294967290⟩], some [⟨4294967291⟩], none, some []] := by
  intro outcomes labels
  have hlib : Catalog.wasm32Library ∈ Catalog.libraries := List.mem_cons_self
  have hevaluated :
      (∀ outcome ∈ outcomes (.startingAtWord 4294967290), outcome.2.nesting.overflowed = false) ∧
      labels (.startingAt 0) = [some [⟨0⟩], some [⟨1⟩], none, some []] ∧
      labels (.startingAtWord 0) = [some [⟨0⟩], some [⟨1⟩], none, some []] := by
    decide +kernel
  obtain ⟨hcounts, hzero, hzeroWord⟩ := hevaluated
  have hlabels : ∀ (r : Renumbering) (outcomes : List (Except Failure Expansion × UnitState)),
      ((outcomes.map r.outcome).map fun outcome => outcome.1.toOption.map Expansion.labels) =
        (outcomes.map fun outcome => outcome.1.toOption.map Expansion.labels).map
          (Option.map (List.map r.label)) := by
    intro r outcomes
    simp only [List.map_map]
    refine List.map_congr_left fun outcome _ => ?_
    obtain ⟨result, state⟩ := outcome
    cases result <;> rfl
  obtain ⟨hunbounded, hwords⟩ := Catalog.outcomes_startingAt hlib "Module" selectionInBlock
  refine ⟨hlib, hcounts, hzero, ?_, hzeroWord, ?_⟩
  · have h := hlabels (.shift 5) (outcomes (.startingAt 0))
    rw [← hunbounded 5] at h
    exact h.trans (congrArg _ hzero)
  · have h := hlabels (.shiftWord 4294967290) (outcomes (.startingAtWord 0))
    rw [← hwords 4294967290 hcounts] at h
    exact h.trans (congrArg _ hzeroWord)

end Lowering
