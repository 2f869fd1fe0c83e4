-- SUMMARY: What the checks of a table rule out never happens while an instruction is expanded.
import Lowering.Proofs.CallDepth
import Lowering.Proofs.Linked
import Lowering.Proofs.Positions
import Lowering.Proofs.Runs

/-!
# Configuration

Expansion has causes of failure for calls to entries that are missing, for instructions that the target
does not have, for descriptors that are none and for a type code without a type. A table is checked
before it becomes a library. The checks look at the steps of its entries, which are all that a run can
perform, so these causes never occur. The positions that the index and the calls of a library use are
positions of entries with the names that are asked for.
-/

namespace Lowering

/-! ## Causes of failure -/

/-- The result is no failure, or one that has the property. -/
def FailsOnly {ε α : Type} (Q : ε → Prop) (x : Except ε α) : Prop := ∀ failure, x = .error failure → Q failure

namespace FailsOnly

variable {ε α β : Type} {Q : ε → Prop}

theorem ok (a : α) : FailsOnly Q (.ok a) := fun _ h => nomatch h

theorem error {failure : ε} (h : Q failure) : FailsOnly (α := α) Q (.error failure) := by
  rintro _ ⟨⟩
  exact h

theorem bind {x : Except ε α} {f : α → Except ε β} (hx : FailsOnly Q x)
    (hf : ∀ a, x = .ok a → FailsOnly Q (f a)) : FailsOnly Q (x >>= f) := by
  cases x with
  | error failure => exact error (hx failure rfl)
  | ok a => exact hf a rfl

end FailsOnly

/-- The cause is none that the checks of a table rule out. -/
abbrev Cause.Expected (cause : Cause) : Prop := cause.isConfiguration = false

/-- The result is no failure that the checks of a table rule out. -/
abbrev Sound {α : Type} (x : Except Cause α) : Prop := FailsOnly Cause.Expected x

/-- The run does not stop for a cause that the checks of a table rule out. -/
abbrev SoundRun {α : Type} (x : Except Halt α) : Prop := FailsOnly (fun halt => halt.cause.Expected) x

theorem Sound.orHalt {α : Type} {x : Except Cause α} (h : Sound x) (inv : Invocation) :
    SoundRun (inv.orHalt x) := by
  cases x with
  | error cause => exact .error (h cause rfl)
  | ok a => exact .ok a

/-! ## Operands -/

namespace Invocation

theorem take_sound {α : Type} {inv : Invocation} {taking : Operands → Except Cause α × Operands}
    (h : ∀ ops, Sound (taking ops).1) : Sound (inv.take taking) := by
  have hfront := h inv.operands
  unfold take
  split
  · exact .ok _
  · rename_i cause rest heq
    rw [heq] at hfront
    exact .error (hfront cause rfl)

theorem valueType_sound (inv : Invocation) (declared : Option ValueType) :
    Sound (inv.valueType declared) := by
  unfold valueType
  split
  · exact .ok _
  · split
    · exact .ok _
    · exact .error rfl

end Invocation

theorem Field.int_sound (field : Field) (what : String) : Sound (field.int what) := by
  unfold Field.int
  split
  · exact .ok _
  · exact .error rfl

theorem Field.depth_sound (field : Field) : Sound field.depth := by
  have hint := field.int_sound "branch depth"
  unfold Field.depth
  split
  · split
    · exact .ok _
    · exact .error rfl
  · rename_i cause heq
    exact .error (hint cause heq)

namespace Operands

theorem takeText_sound (what : String) (ops : Operands) : Sound (takeText what ops).1 := by
  cases ops with
  | nil => exact .error rfl
  | cons field rest => exact .ok _

theorem takeInt_sound (what : String) (ops : Operands) : Sound (takeInt what ops).1 := by
  cases ops with
  | nil => exact .error rfl
  | cons field rest => exact field.int_sound what

theorem takeDepth_sound (ops : Operands) : Sound (takeDepth ops).1 := by
  cases ops with
  | nil => exact .error rfl
  | cons field rest => exact field.depth_sound

theorem takeLabel_sound (ops : Operands) : Sound (takeLabel ops).1 := by
  match ops with
  | [] => exact .error rfl
  | .label l :: rest => exact .ok _
  | .text s :: rest => exact .ok _

end Operands

theorem Check.run_sound (c : Check) (ops : Operands) : Sound (c.run ops).1 := by
  cases c with
  | expect token =>
    match ops with
    | [] => exact .error rfl
    | field :: rest =>
      simp only [Check.run]
      split
      · exact .ok _
      · exact .error rfl
  | reject token =>
    simp only [Check.run]
    split
    · exact .error rfl
    · exact .ok _
  | contains part =>
    match ops with
    | [] => exact .error rfl
    | .text s :: rest =>
      simp only [Check.run]
      split
      · exact .ok _
      · exact .error rfl
    | .label l :: rest => exact .error rfl

/-- Only the insertion of a type code needs a value type. -/
theorem Transform.apply_sound {t : Transform} {type : Option ValueType}
    (htype : t = .insertTypeCode → type ≠ none) (names : Naming) (ops : Operands) :
    Sound (Transform.apply names type ops t) := by
  cases t with
  | insertTypeCode =>
    cases type with
    | none => exact absurd rfl (htype rfl)
    | some type => exact .ok _
  | swap =>
    simp only [Transform.apply]
    split <;> exact .ok _
  | join separator =>
    simp only [Transform.apply]
    split <;> exact .ok _
  | dropFront front =>
    simp only [Transform.apply]
    split
    · split
      · exact .ok _
      · exact .error rfl
    · exact .error rfl
  | toMethod =>
    simp only [Transform.apply]
    split
    · split
      · exact .ok _
      · exact .error rfl
    · exact .error rfl
  | _ => exact .ok _

/-! ## Nesting -/

namespace Nesting

theorem enterElse_sound (n : Nesting) : Sound n.enterElse := by
  unfold enterElse
  split
  · exact .error rfl
  · split
    · split
      · exact .ok _
      · exact .error rfl
    · exact .error rfl

theorem close_sound (n : Nesting) : Sound n.close := by
  unfold close
  split
  · exact .error rfl
  · exact .ok _

theorem branchTarget_sound (n : Nesting) (depth : Nat) : Sound (n.branchTarget depth) := by
  unfold branchTarget
  split
  · exact .ok _
  · exact .error rfl

end Nesting

/-! ## Steps that a table admits -/

/-- The table has what the step refers to. -/
def Table.Admits (t : Table) : Step → Prop
  | .act (.emit opcode) => t.isa.has opcode = true
  | .act (.emitByType opcodes) => ∀ type, t.isa.has (opcodes.get type) = true
  | .act (.dynCall spec) => ∀ template, spec.descriptor = some template →
      (CallSpec.resolve? t.style template).isSome
  | .act _ => True
  | .call name => name ∈ t.names

theorem CallSpec.resolve?_of_check {spec : CallSpec} {style : Option SignatureStyle} {template : String}
    (hcheck : spec.check style = .ok ()) (htemplate : spec.descriptor = some template) :
    (resolve? style template).isSome := by
  simp only [check, htemplate] at hcheck
  split at hcheck
  · assumption
  · cases hcheck

/-- A checked table admits every step of its entries. -/
theorem Table.Checked.admits {t : Table} (ht : t.Checked) {e : Entry} (he : e ∈ t.entries) {step : Step}
    (hstep : step ∈ steps e.body) : t.Admits step := by
  have hsound := ht.sound e he step hstep
  cases step with
  | call name => exact ht.resolved e he name (List.mem_filterMap.mpr ⟨_, hstep, rfl⟩)
  | act a =>
    cases a with
    | emit opcode => simpa [Table.stepFault?, Table.Admits] using hsound
    | emitByType opcodes =>
      have hall : ∀ opcode ∈ opcodes.toList, t.isa.has opcode = true := by
        simpa [Table.stepFault?] using hsound
      exact fun type => hall _ (opcodes.get_mem_toList type)
    | dynCall spec =>
      intro template htemplate
      simp only [Table.stepFault?] at hsound
      split at hsound
      · exact CallSpec.resolve?_of_check ‹_› htemplate
      · cases hsound
    | _ => trivial

/-! ## Actions -/

namespace Scope

variable {scope : Scope}

theorem checkLabel_sound (label : LabelRef) : Sound (scope.checkLabel label) := by
  cases label with
  | generated label => exact .ok _
  | named name =>
    simp only [checkLabel]
    split
    · exact .error rfl
    · split
      · split
        · exact .ok _
        · exact .error rfl
      · exact .ok _

theorem takeLabel_sound (inv : Invocation) : Sound (scope.takeLabel inv) :=
  .bind (Invocation.take_sound Operands.takeLabel_sound) fun _ _ =>
    .bind (checkLabel_sound _) fun _ _ => .ok _

theorem emitInstruction_sound (i : Instruction) (inv : Invocation) :
    Sound (scope.emitInstruction i inv) := by
  unfold emitInstruction
  split
  · exact .ok _
  · exact .bind (Invocation.take_sound (Operands.takeText_sound _)) fun _ _ => .ok _
  · exact .bind (Invocation.take_sound (Operands.takeText_sound _)) fun _ _ =>
      .bind (Invocation.take_sound (Operands.takeText_sound _)) fun _ _ => .ok _
  · exact .bind (takeLabel_sound inv) fun _ _ => .ok _
  · exact .ok _

theorem emitNamed_sound {opcode : String} (h : scope.table.isa.has opcode = true) (inv : Invocation) :
    Sound (scope.emitNamed opcode inv) := by
  obtain ⟨i, hi⟩ := Option.isSome_iff_exists.mp h
  simp only [emitNamed, hi]
  exact emitInstruction_sound i inv

theorem branchTargets_sound (n : Nesting) (ops : Operands) : Sound (branchTargets n ops) := by
  induction ops with
  | nil => exact .ok _
  | cons field rest ih =>
    exact .bind field.depth_sound fun depth _ =>
      .bind (n.branchTarget_sound depth) fun _ _ => .bind ih fun _ _ => .ok _

theorem control_sound (declared : Option ValueType) (inv : Invocation) (kind : ControlKind) :
    Sound (scope.control declared inv kind) := by
  cases kind with
  | block | loop | ifThen => exact .ok _
  | elseArm => exact .bind inv.nesting.enterElse_sound fun _ _ => .ok _
  | close => exact .bind inv.nesting.close_sound fun _ _ => .ok _
  | branch | branchIf =>
    exact .bind (Invocation.take_sound Operands.takeDepth_sound) fun _ _ =>
      .bind (Nesting.branchTarget_sound _ _) fun _ _ => .ok _
  | branchTable =>
    refine .bind (branchTargets_sound _ _) fun targets _ => ?_
    split
    · exact .error rfl
    · exact .ok _
  | exit =>
    simp only [control]
    split <;> exact .ok _

theorem callDescriptor_sound {spec : CallSpec} (h : scope.table.Admits (.act (.dynCall spec)))
    (inv : Invocation) : Sound (scope.callDescriptor spec inv) := by
  unfold callDescriptor
  split
  · rename_i template htemplate
    obtain ⟨descriptor, hresolve⟩ := Option.isSome_iff_exists.mp (h template htemplate)
    have hresolved : spec.resolved? scope.table.style = some descriptor := by
      rw [CallSpec.resolved?, htemplate, Option.bind_some, hresolve]
    rw [hresolved]
    exact .ok _
  · refine .bind (Invocation.take_sound (Operands.takeText_sound _)) fun taken _ => ?_
    dsimp only
    split
    · exact .ok _
    · exact .error rfl

theorem staticArgs_sound (inv : Invocation) (source : ArgSource) : Sound (staticArgs inv source) := by
  cases source with
  | fixed arg => exact .ok _
  | operandInt =>
    refine .bind (Invocation.take_sound (Operands.takeInt_sound _)) fun taken _ => ?_
    dsimp only
    split
    · exact .ok _
    · exact .error rfl
  | operandHandles => exact .ok _

theorem allStaticArgs_sound (inv : Invocation) (sources : List ArgSource) :
    Sound (allStaticArgs inv sources) := by
  induction sources generalizing inv with
  | nil => exact .ok _
  | cons source sources ih =>
    exact .bind (staticArgs_sound inv source) fun taken _ => .bind (ih taken.2) fun _ _ => .ok _

theorem emitCall_sound {spec : CallSpec} (h : scope.table.Admits (.act (.dynCall spec)))
    (inv : Invocation) : Sound (scope.emitCall spec inv) :=
  .bind (callDescriptor_sound h inv) fun _ _ => .bind (allStaticArgs_sound _ _) fun _ _ => .ok _

/-- A type code is inserted only once the value type is known. -/
theorem applyTransform_sound (declared : Option ValueType) (t : Transform) (inv : Invocation) :
    Sound (scope.applyTransform declared t inv) := by
  unfold applyTransform
  dsimp only
  split
  · refine .bind (inv.valueType_sound declared) fun typed _ => ?_
    exact .bind (Transform.apply_sound (fun _ => Option.some_ne_none _) _ _) fun _ _ => .ok _
  · rename_i hother
    refine .bind (Transform.apply_sound (fun htype => absurd htype hother) _ _) fun _ _ => ?_
    exact .ok _

/-- An action that the table admits fails for none of the causes that its checks rule out. -/
theorem perform_sound {a : Action} (ha : scope.table.Admits (.act a)) (declared : Option ValueType)
    (inv : Invocation) : Sound (scope.perform declared inv a) := by
  cases a with
  | emit opcode => exact emitNamed_sound ha inv
  | emitByType opcodes =>
    exact .bind (inv.valueType_sound declared) fun typed _ => emitNamed_sound (ha typed.1) typed.2
  | load type =>
    refine .bind (Invocation.take_sound (Operands.takeText_sound _)) fun taken _ => ?_
    dsimp only
    split
    · exact .ok _
    · exact .error rfl
  | transform t => exact applyTransform_sound declared t inv
  | check c => exact .bind (Invocation.take_sound c.run_sound) fun _ _ => .ok _
  | unsupported hint => exact .error rfl
  | ignored reason => exact .ok _
  | dynCall spec => exact emitCall_sound ha inv
  | control kind => exact control_sound declared inv kind
  | jumpIf c => exact .bind (takeLabel_sound inv) fun _ _ => .ok _
  | localLabel => exact .ok _
  | placeLabel => exact .bind (takeLabel_sound inv) fun _ _ => .ok _

end Scope

/-! ## Runs -/

/-- In a checked table, operations whose steps are admitted fail for none of the causes that the checks
rule out, however deep their calls go. -/
theorem Op.Evaluates.sound {scope : Scope} (ht : scope.table.Checked) {stack : List String}
    {declared : Option ValueType} {inv : Invocation} {ops : List Op} {result : Except Halt Invocation}
    (h : Op.Evaluates scope stack declared inv ops result)
    (hops : ∀ step ∈ Op.allSteps ops, scope.table.Admits step) : SoundRun result := by
  -- The induction is on the evaluation, so that the bodies of called entries are covered too.
  induction h with
  | nil => exact .ok _
  | @act _ _ _ a _ ops _ ha _ ih =>
    exact ih fun step hstep => hops step (List.mem_cons_of_mem _ hstep)
  | @actFails _ _ _ a _ _ ha =>
    have hadmits := hops (.act a) (by simp [Op.allSteps, Op.steps])
    exact .error (Scope.perform_sound hadmits _ _ _ ha)
  | @call _ _ _ name e _ ops _ _ hfind _ _ _ ih =>
    exact ih fun step hstep => hops step (List.mem_cons_of_mem _ hstep)
  | callFails _ hfind _ ih =>
    exact ih fun step hstep => ht.admits (Table.find?_mem hfind) hstep
  | @unresolved _ _ _ name _ hfind =>
    have hname : name ∈ scope.table.names := hops (.call name) (by simp [Op.allSteps, Op.steps])
    have hsome := Table.find?_isSome_iff.mpr hname
    rw [hfind] at hsome
    cases hsome
  | untyped htype => exact .error (Invocation.valueType_sound _ _ _ htype)
  | single _ _ _ ih =>
    refine ih fun step hstep => hops step ?_
    simp only [allSteps_append, Op.allSteps, Op.steps, List.mem_append] at hstep ⊢
    exact hstep.imp_left .inl
  | double _ _ _ ih =>
    refine ih fun step hstep => hops step ?_
    simp only [allSteps_append, Op.allSteps, Op.steps, List.mem_append] at hstep ⊢
    exact hstep.imp_left .inr
  | seq _ ih =>
    refine ih fun step hstep => hops step ?_
    simpa only [allSteps_append, Op.allSteps, Op.steps] using hstep

theorem UnitState.invoke_sound {scope : Scope} (ht : scope.table.Checked) {e : Entry}
    (he : e ∈ scope.table.entries) (state : UnitState) (operands : List String) :
    SoundRun (state.invoke scope e operands) := by
  refine .bind ?_ fun inv _ => ?_
  · have hevaluates : Op.Evaluates scope [e.name] e.type (state.start operands) e.body
        (scope.runEntry scope.table.entries.length e (state.start operands)) :=
      (Scope.evaluates_iff ht he (Nat.le_refl _)).mpr rfl
    exact hevaluates.sound ht fun step hstep => ht.admits he hstep
  · refine Sound.orHalt ?_ inv
    unfold Invocation.complete
    split
    · exact .ok _
    · exact .error rfl

/-- A mnemonic that selects no entry is unknown, ambiguous or auxiliary. -/
theorem Library.lookup_sound {lib : Library} {mnemonic : String} {failure : Failure}
    (h : lib.lookup mnemonic = .error failure) : failure.cause.Expected := by
  unfold Library.lookup at h
  split at h
  · cases h
    unfold Library.unselected
    split <;> rfl
  · split at h
    · cases h
      rfl
    · split at h
      · cases h
      · cases h
        rfl

theorem UnitState.expand_sound {state : UnitState} {lib : Library} {className mnemonic : String}
    {operands : List String} {failure : Failure}
    (h : (state.expand lib className mnemonic operands).1 = .error failure) : failure.cause.Expected := by
  unfold expand expandBy at h
  split at h
  · rename_i hlookup
    cases h
    exact Library.lookup_sound hlookup
  · rename_i hlookup
    split at h
    · rename_i halt hinvoke
      cases h
      have he := (Library.lookup_eq_ok hlookup).1
      exact @invoke_sound ⟨lib.table, className, mnemonic⟩ lib.table_checked _ he state operands halt
        hinvoke
    · cases h

/-! ## Libraries -/

/-- Every library is what building its table gives. -/
theorem Library.build_table (lib : Library) : lib.table.build = .ok lib := by
  obtain ⟨t, index, hchecked, rfl⟩ := lib
  unfold Table.build
  split
  · rfl
  · rename_i fault hfault
    cases hfault.symm.trans hchecked

/-- A call goes to the position of an entry with the name called. -/
theorem Table.Checked.call_position {t : Table} (ht : t.Checked) {e : Entry} (he : e ∈ t.entries)
    {callee : String} (hcallee : callee ∈ e.calls) :
    ∃ (id : Nat) (e' : Entry), t.entries[id]? = some e' ∧ e'.name = callee ∧
        t.find? callee = some e' := by
  have hsome := Table.find?_isSome_iff.mpr (ht.resolved e he callee hcallee)
  obtain ⟨e', hfind⟩ := Option.isSome_iff_exists.mp hsome
  obtain ⟨id, hid⟩ := List.mem_iff_getElem?.mp (Table.find?_mem hfind)
  exact ⟨id, e', hid, Table.find?_name hfind, hfind⟩

/-- A table that has been built never fails for a reason of its own. Whatever the state of a unit, the
mnemonic and the operands, no expansion fails because of a call that is not resolved, an instruction
that the target lacks, a descriptor that is none, a type code without a type or calls that do not end.
Every position that the index gives for a mnemonic is that of an entry that the mnemonic spells, and
every call of an entry goes to the position of an entry with the name called. All calls are resolved to
these positions, each entry keeping its own position and its calls, and expansions that follow them are
those by name. -/
theorem Table.build_rules_out_faults {t : Table} {lib : Library} (h : t.build = .ok lib) :
    (∀ (state : UnitState) (className mnemonic : String) (operands : List String) (failure : Failure),
      (state.expand lib className mnemonic operands).1 = .error failure →
        failure.cause.isConfiguration = false) ∧
    (∀ mnemonic id, lib.index.select? mnemonic = some id →
      t.Spells mnemonic id ∨ t.Spells (canonical mnemonic) id) ∧
    (∀ mnemonic, ∀ id ∈ lib.index.candidates mnemonic,
      ∃ e, t.entries[id]? = some e ∧ canonical e.name = canonical mnemonic) ∧
    (∀ e ∈ t.entries, ∀ callee ∈ e.calls,
      ∃ (id : Nat) (e' : Entry), t.entries[id]? = some e' ∧ e'.name = callee ∧
        t.find? callee = some e') ∧
    t.resolve = .ok lib.linked ∧ lib.linked.map LinkedEntry.entry = t.entries ∧
    (∀ linked ∈ lib.linked, linked.calls.map Prod.fst = linked.entry.calls ∧
      ∀ call ∈ linked.calls, ∃ callee, lib.linked[call.2]? = some callee ∧ callee.entry.name = call.1) ∧
    ∀ (state : UnitState) (className mnemonic : String) (operands : List String),
      state.expandLinked lib className mnemonic operands =
        state.expand lib className mnemonic operands := by
  obtain rfl := Table.build_table h
  refine ⟨fun _ _ _ _ _ hfails => UnitState.expand_sound hfails,
    fun _ _ => Library.spells_of_select?, fun _ _ => Library.candidate_eq,
    fun e he callee hcallee => lib.table_checked.call_position he hcallee, lib.resolve_eq,
    (Table.resolve_eq_ok lib.resolve_eq).1, fun _ => lib.linked_calls, ?_⟩
  exact fun state className mnemonic operands => state.expandLinked_eq lib className mnemonic operands

/-- The operand is no type, so neither arm of the choice is taken. -/
theorem nestedCalls_build_rules_out_faults :
    nestedCalls.table.build = .ok nestedCalls ∧
    (∃ failure, (UnitState.expand {} nestedCalls "Module" "outer" ["V128"]).1 = .error failure ∧
      failure.cause.isConfiguration = false) ∧
    UnitState.expandLinked {} nestedCalls "Module" "outer" ["V128"] =
      UnitState.expand {} nestedCalls "Module" "outer" ["V128"] := by
  have hbuild := nestedCalls.build_table
  have hfails : (UnitState.expand {} nestedCalls "Module" "outer" ["V128"]).1.toOption = none := by
    decide +kernel
  obtain ⟨hcauses, -, -, -, -, -, -, hlinked⟩ := Table.build_rules_out_faults hbuild
  refine ⟨hbuild, ?_, hlinked {} "Module" "outer" ["V128"]⟩
  cases hexpand : (UnitState.expand {} nestedCalls "Module" "outer" ["V128"]).1 with
  | error failure => exact ⟨failure, rfl, hcauses _ _ _ _ _ hexpand⟩
  | ok x =>
    rw [hexpand] at hfails
    cases hfails

end Lowering
