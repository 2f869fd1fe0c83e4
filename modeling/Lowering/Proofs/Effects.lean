-- SUMMARY: What one action can do to the nesting, to the operands and to the labels of the output.
import Mathlib.Data.List.Basic
import Lowering.Proofs.Runs

/-!
# Effects of actions

Whatever an action is, it does one of a few things to the labels of a unit: it emits primitives that
place no label, or it opens, switches or closes one construct, or it inserts or places the label of the
invocation. Everything else about it is left open here. Properties of the nesting and of labels are
proved from these effects, so no other proof looks into the actions.
-/

namespace Lowering

/-! ## Labels in primitives -/

namespace Primitive

/-- The generated label that a primitive places. -/
def placed? : Primitive → Option Label
  | label (.generated l) => some l
  | _ => none

/-- The labels that a primitive may jump to. -/
def targets : Primitive → List LabelRef
  | jump _ target => [target]
  | tableSwitch _ _ default targets => targets ++ [default]
  | _ => []

/-- The labels that a primitive mentions. -/
def labels : Primitive → List LabelRef
  | jump _ target => [target]
  | label target => [target]
  | tableSwitch _ _ default targets => targets ++ [default]
  | insn _ _ | dynCall _ => []

/-- A label that a primitive mentions is placed by it, or one of its targets. -/
theorem mem_labels_generated {p : Primitive} {l : Label} (h : .generated l ∈ p.labels) :
    p.placed? = some l ∨ .generated l ∈ p.targets := by
  cases p with
  | label target =>
    obtain rfl := List.mem_singleton.mp h
    exact .inl rfl
  | jump | tableSwitch => exact .inr h
  | insn | dynCall => cases h

theorem mem_labels_of_mem_targets {p : Primitive} {target : LabelRef} (h : target ∈ p.targets) :
    target ∈ p.labels := by
  cases p with
  | jump | tableSwitch => exact h
  | insn | label | dynCall => cases h

end Primitive

theorem FixedInstruction.placed?_primitive (i : FixedInstruction) : i.primitive.placed? = none := rfl

theorem FixedInstruction.targets_primitive (i : FixedInstruction) : i.primitive.targets = [] := rfl

/-! ## Operands -/

/-- Every label among the first operands is among the second. -/
def Operands.LabelsFrom (ops ops' : Operands) : Prop := ∀ l, .label l ∈ ops → Field.label l ∈ ops'

namespace Operands

theorem LabelsFrom.refl (ops : Operands) : ops.LabelsFrom ops := fun _ h => h

theorem labelsFrom_tail {field : Field} {rest : Operands} : Operands.LabelsFrom rest (field :: rest) :=
  fun _ h => List.mem_cons_of_mem _ h

theorem labelsFrom_nil {ops : Operands} : Operands.LabelsFrom [] ops := fun _ h => nomatch h

theorem labelsFrom_text {s : String} {ops ops' : Operands} (h : ops.LabelsFrom ops') :
    Operands.LabelsFrom (.text s :: ops) ops' := by
  intro l hl
  simp only [List.mem_cons, reduceCtorEq, false_or] at hl
  exact h l hl

theorem labelsFrom_mapFirstText (f : String → String) (ops : Operands) :
    (ops.mapFirstText f).LabelsFrom ops := by
  match ops with
  | [] => exact LabelsFrom.refl _
  | .text s :: rest => exact labelsFrom_text labelsFrom_tail
  | .label l :: rest => exact LabelsFrom.refl _

end Operands

/-- A transform makes no labels. -/
theorem Transform.apply_labelsFrom {names : Naming} {type : Option ValueType} {ops ops' : Operands}
    {t : Transform} (h : Transform.apply names type ops t = .ok ops') : ops'.LabelsFrom ops := by
  open Operands in
  cases t with
  | swap =>
    match ops with
    | [] | [_] =>
      cases h
      exact LabelsFrom.refl _
    | a :: b :: rest =>
      cases h
      intro l hl
      simp only [List.mem_cons] at hl ⊢
      exact or_left_comm.mp hl
  | insert text =>
    cases h
    exact labelsFrom_text (LabelsFrom.refl _)
  | insertMethod owner name descriptor =>
    cases h
    exact labelsFrom_text (LabelsFrom.refl _)
  | insertTypeCode =>
    cases type with
    | none => cases h
    | some type =>
      cases h
      exact labelsFrom_text (LabelsFrom.refl _)
  | join separator =>
    rw [Transform.apply] at h
    split at h
    · cases h
      exact LabelsFrom.refl _
    · cases h
      exact labelsFrom_text labelsFrom_nil
  | dropFront front =>
    simp only [Transform.apply] at h
    split at h
    · split at h
      · cases h
        exact labelsFrom_text labelsFrom_tail
      · cases h
    · cases h
  | replace | surround | lower | upper | toDescriptor =>
    cases h
    exact labelsFrom_mapFirstText _ _
  | skip =>
    cases h
    exact fun l hl => List.mem_of_mem_tail hl
  | skipAll =>
    cases h
    exact labelsFrom_nil
  | toMethod =>
    simp only [Transform.apply] at h
    split at h
    · split at h
      · cases h
        exact labelsFrom_text labelsFrom_tail
      · cases h
    · cases h

theorem Check.run_labelsFrom {c : Check} {ops rest : Operands} {result : Except Cause Unit}
    (h : c.run ops = (result, rest)) : rest.LabelsFrom ops := by
  open Operands in
  cases c with
  | expect token =>
    match ops with
    | [] =>
      cases h
      exact LabelsFrom.refl _
    | field :: tail =>
      rw [Check.run] at h
      split at h <;> cases h <;> exact labelsFrom_tail
  | reject token =>
    rw [Check.run] at h
    split at h <;> cases h <;> exact LabelsFrom.refl _
  | contains part =>
    match ops with
    | [] =>
      cases h
      exact LabelsFrom.refl _
    | .text s :: tail =>
      rw [Check.run] at h
      split at h <;> cases h <;> exact LabelsFrom.refl _
    | .label l :: tail =>
      cases h
      exact LabelsFrom.refl _

/-! ## Effects -/

/-- The part that an action plays in the nesting. -/
def Action.role : Action → IndentRole
  | .control kind => kind.role
  | _ => .none

/-- Primitives that place no label, and whose generated targets are operands of the invocation or
branch targets of the open constructs. -/
structure Invocation.Emittable (inv : Invocation) (ps : List Primitive) : Prop where
  places : ∀ p ∈ ps, p.placed? = none
  targets : ∀ p ∈ ps, ∀ l, .generated l ∈ p.targets →
    Field.label l ∈ inv.operands ∨ ∃ f ∈ inv.nesting.frames, l = f.branchTarget

/-- What an action of the given role does to an invocation, unless it is about the label of the
invocation. -/
inductive Effect (scope : Scope) (inv : Invocation) : IndentRole → Invocation → Prop where
  | emits {operands : Operands} {nextSite : Nat} {annotated : Option ValueType}
      {ps : List Primitive} {notices : List String} (hoperands : operands.LabelsFrom inv.operands)
      (hemits : inv.Emittable ps) :
      Effect scope inv .none
        { inv with operands, nextSite, annotated, primitives := inv.primitives ++ ps, notices }
  | opensBlock :
      Effect scope inv .opens { inv with nesting := (inv.nesting.openBlock scope.mnemonic).2 }
  | opensLoop :
      Effect scope inv .opens
        { inv with
          nesting := (inv.nesting.openLoop scope.mnemonic).2
          primitives := inv.primitives ++
            [.label (.generated (inv.nesting.openLoop scope.mnemonic).1)] }
  | opensIf {c : Condition} :
      Effect scope inv .opens
        { inv with
          nesting := (inv.nesting.openIf scope.mnemonic).2
          primitives := inv.primitives ++ (scope.table.isa.test c true).primitives
            (.generated (inv.nesting.openIf scope.mnemonic).1) }
  | entersElse {frame : Frame} {outer : List Frame} {pending : Label}
      (hframes : inv.nesting.frames = frame :: outer) (hif : frame.kind = .ifThen)
      (hpending : frame.pendingElse = some pending) :
      Effect scope inv .reopens
        { inv with
          nesting := { inv.nesting with
            frames := { frame with kind := .elseArm, pendingElse := none } :: outer
            indent := frame.indent + 1 }
          primitives := inv.primitives ++ [.jump scope.table.isa.goto (.generated frame.exit),
            .label (.generated pending)] }
  | closes {frame : Frame} {outer : List Frame} (hframes : inv.nesting.frames = frame :: outer) :
      Effect scope inv .closes
        { inv with
          nesting := { inv.nesting with frames := outer, indent := frame.indent }
          primitives := inv.primitives ++ Scope.closingLabels frame }

/-! ## Taking operands -/

namespace Invocation

theorem take_eq_ok {α : Type} {inv inv' : Invocation} {a : α}
    {taking : Operands → Except Cause α × Operands} (h : inv.take taking = .ok (a, inv')) :
    ∃ rest, taking inv.operands = (.ok a, rest) ∧ inv' = { inv with operands := rest } := by
  unfold take at h
  split at h
  · rename_i hrest
    cases h
    exact ⟨_, hrest, rfl⟩
  · cases h

/-- Taking makes no labels. -/
def TakesLabels {α : Type} (taking : Operands → Except Cause α × Operands) : Prop :=
  ∀ ops result rest, taking ops = (result, rest) → rest.LabelsFrom ops

theorem take_labelsFrom {α : Type} {inv inv' : Invocation} {a : α}
    {taking : Operands → Except Cause α × Operands} (htaking : TakesLabels taking)
    (h : inv.take taking = .ok (a, inv')) :
    ∃ rest, rest.LabelsFrom inv.operands ∧ inv' = { inv with operands := rest } := by
  obtain ⟨rest, hfront, rfl⟩ := take_eq_ok h
  exact ⟨rest, htaking _ _ _ hfront, rfl⟩

theorem takeText_takesLabels (what : String) : TakesLabels (Operands.takeText what) := by
  intro ops result rest h
  cases ops with
  | nil => cases h; exact Operands.labelsFrom_nil
  | cons field tail => cases h; exact Operands.labelsFrom_tail

theorem takeInt_takesLabels (what : String) : TakesLabels (Operands.takeInt what) := by
  intro ops result rest h
  cases ops with
  | nil => cases h; exact Operands.labelsFrom_nil
  | cons field tail => cases h; exact Operands.labelsFrom_tail

theorem takeDepth_takesLabels : TakesLabels Operands.takeDepth := by
  intro ops result rest h
  cases ops with
  | nil => cases h; exact Operands.labelsFrom_nil
  | cons field tail => cases h; exact Operands.labelsFrom_tail

end Invocation

/-- A label operand is taken from the front, and a generated one stood there as it is. -/
theorem Scope.takeLabel_eq_ok {scope : Scope} {inv inv' : Invocation} {target : LabelRef}
    (h : scope.takeLabel inv = .ok (target, inv')) :
    ∃ field rest, inv.operands = field :: rest ∧ inv' = { inv with operands := rest } ∧
      ∀ l, target = .generated l → field = .label l := by
  obtain ⟨⟨ref, inv₁⟩, htake, h⟩ := ok_of_bind_ok h
  obtain ⟨checked, hcheck, h⟩ := ok_of_bind_ok h
  cases h
  obtain ⟨rest, hfront, rfl⟩ := Invocation.take_eq_ok htake
  cases hops : inv.operands with
  | nil => simp [hops, Operands.takeLabel] at hfront
  | cons field tail =>
    rw [hops] at hfront
    cases field with
    | label l =>
      cases hfront
      cases hcheck
      exact ⟨_, _, rfl, rfl, fun l' hl' => by cases hl'; rfl⟩
    | text s =>
      cases hfront
      refine ⟨_, _, rfl, rfl, fun l hl => ?_⟩
      subst hl
      simp only [Scope.checkLabel] at hcheck
      split at hcheck
      · cases hcheck
      · split at hcheck
        · split at hcheck <;> cases hcheck
        · cases hcheck

/-! ## Reading -/

/-- Nothing but the operands and the annotated type differs, and the operands have got no labels. -/
def Invocation.Reads (inv inv' : Invocation) : Prop :=
  ∃ operands annotated, operands.LabelsFrom inv.operands ∧ inv' = { inv with operands, annotated }

namespace Invocation

variable {inv inv' inv'' : Invocation}

theorem Reads.refl (inv : Invocation) : inv.Reads inv := ⟨_, _, .refl _, rfl⟩

theorem Reads.trans (h : inv.Reads inv') (h' : inv'.Reads inv'') : inv.Reads inv'' := by
  obtain ⟨operands, annotated, hfrom, rfl⟩ := h
  obtain ⟨operands', annotated', hfrom', rfl⟩ := h'
  exact ⟨operands', annotated', fun l hl => hfrom l (hfrom' l hl), rfl⟩

theorem Reads.primitives (h : inv.Reads inv') : inv'.primitives = inv.primitives := by
  obtain ⟨operands, annotated, -, rfl⟩ := h
  rfl

theorem Reads.nextSite (h : inv.Reads inv') : inv'.nextSite = inv.nextSite := by
  obtain ⟨operands, annotated, -, rfl⟩ := h
  rfl

theorem take_reads {α : Type} {a : α} {taking : Operands → Except Cause α × Operands}
    (htaking : TakesLabels taking) (h : inv.take taking = .ok (a, inv')) : inv.Reads inv' := by
  obtain ⟨rest, hrest, rfl⟩ := take_labelsFrom htaking h
  exact ⟨rest, _, hrest, rfl⟩

theorem valueType_reads {declared : Option ValueType} {type : ValueType}
    (h : inv.valueType declared = .ok (type, inv')) : inv.Reads inv' := by
  unfold valueType at h
  split at h
  · cases h
    exact .refl inv
  · split at h
    · cases h
      exact ⟨_, _, fun l hl => List.mem_of_mem_tail hl, rfl⟩
    · cases h

theorem returnType_reads {declared type : Option ValueType}
    (h : inv.returnType declared = (type, inv')) : inv.Reads inv' := by
  unfold returnType at h
  split at h
  · cases h
    exact .refl inv
  · split at h
    · cases h
      exact ⟨_, _, fun l hl => List.mem_of_mem_tail hl, rfl⟩
    · cases h
      exact .refl inv

end Invocation

namespace Scope

variable {scope : Scope} {inv inv' : Invocation}

theorem takeLabel_reads {target : LabelRef} (h : scope.takeLabel inv = .ok (target, inv')) :
    inv.Reads inv' := by
  obtain ⟨field, rest, hoperands, rfl, -⟩ := takeLabel_eq_ok h
  exact ⟨rest, _, hoperands ▸ Operands.labelsFrom_tail, rfl⟩

theorem callDescriptor_reads {spec : CallSpec} {descriptor : String}
    (h : scope.callDescriptor spec inv = .ok (descriptor, inv')) : inv.Reads inv' := by
  unfold callDescriptor at h
  split at h
  · split at h
    · cases h
      exact .refl _
    · cases h
  · obtain ⟨⟨text, inv₁⟩, htext, h⟩ := ok_of_bind_ok h
    have hreads := Invocation.take_reads (Invocation.takeText_takesLabels _) htext
    simp only at h
    split at h
    · cases h
      exact hreads
    · cases h

theorem staticArgs_reads {source : ArgSource} {args : List StaticArg}
    (h : staticArgs inv source = .ok (args, inv')) : inv.Reads inv' := by
  cases source with
  | fixed arg =>
    cases h
    exact .refl _
  | operandInt =>
    obtain ⟨⟨value, inv₁⟩, hvalue, h⟩ := ok_of_bind_ok h
    simp only at h
    split at h
    · cases h
      exact Invocation.take_reads (Invocation.takeInt_takesLabels _) hvalue
    · cases h
  | operandHandles =>
    cases h
    exact ⟨_, _, Operands.labelsFrom_nil, rfl⟩

theorem allStaticArgs_reads {sources : List ArgSource} {args : List StaticArg}
    (h : allStaticArgs inv sources = .ok (args, inv')) : inv.Reads inv' := by
  induction sources generalizing inv args with
  | nil =>
    cases h
    exact .refl _
  | cons source sources ih =>
    obtain ⟨⟨first, inv₁⟩, hfirst, h⟩ := ok_of_bind_ok h
    obtain ⟨⟨more, inv₂⟩, hmore, h⟩ := ok_of_bind_ok h
    cases h
    exact (staticArgs_reads hfirst).trans (ih hmore)

end Scope

/-! ## Emission -/

namespace Invocation.Emittable

variable {inv : Invocation}

theorem nil : inv.Emittable [] := ⟨by simp, by simp⟩

theorem insn (opcode : String) (args : List String) : inv.Emittable [.insn opcode args] := by
  constructor <;> simp [Primitive.placed?, Primitive.targets]

theorem dynCall (site : CallSite) : inv.Emittable [.dynCall site] := by
  constructor <;> simp [Primitive.placed?, Primitive.targets]

theorem jump {opcode : String} {target : LabelRef}
    (h : ∀ l, target = .generated l →
      Field.label l ∈ inv.operands ∨ ∃ f ∈ inv.nesting.frames, l = f.branchTarget) :
    inv.Emittable [.jump opcode target] := by
  refine ⟨by simp [Primitive.placed?], fun p hp l hl => ?_⟩
  simp only [List.mem_singleton] at hp
  subst hp
  exact h l (List.mem_singleton.mp hl).symm

theorem append {ps qs : List Primitive} (hps : inv.Emittable ps) (hqs : inv.Emittable qs) :
    inv.Emittable (ps ++ qs) := by
  refine ⟨fun p hp => ?_, fun p hp => ?_⟩
  · exact (List.mem_append.mp hp).elim (hps.places p) (hqs.places p)
  · exact (List.mem_append.mp hp).elim (hps.targets p) (hqs.targets p)

theorem fixed (is : List FixedInstruction) : inv.Emittable (is.map FixedInstruction.primitive) := by
  constructor
  · intro p hp
    obtain ⟨i, -, rfl⟩ := List.mem_map.mp hp
    exact i.placed?_primitive
  · intro p hp l hl
    obtain ⟨i, -, rfl⟩ := List.mem_map.mp hp
    simp [i.targets_primitive] at hl

theorem test {t : ConditionTest} {target : LabelRef}
    (h : ∀ l, target = .generated l →
      Field.label l ∈ inv.operands ∨ ∃ f ∈ inv.nesting.frames, l = f.branchTarget) :
    inv.Emittable (t.primitives target) :=
  (fixed t.prelude).append (jump h)

end Invocation.Emittable

theorem Nesting.branchTarget_eq_ok {n : Nesting} {depth : Nat} {target : Label}
    (h : n.branchTarget depth = .ok target) : ∃ f ∈ n.frames, target = f.branchTarget := by
  unfold Nesting.branchTarget at h
  split at h
  · rename_i frame hframe
    cases h
    exact ⟨frame, List.mem_of_getElem? hframe, rfl⟩
  · cases h

theorem Nesting.enterElse_eq_ok {n n' : Nesting} {labels : ElseLabels}
    (h : n.enterElse = .ok (labels, n')) :
    ∃ frame outer pending, n.frames = frame :: outer ∧ frame.kind = .ifThen ∧
      frame.pendingElse = some pending ∧ labels = ⟨frame.exit, pending⟩ ∧
      n' = { n with frames := { frame with kind := .elseArm, pendingElse := none } :: outer
                    indent := frame.indent + 1 } := by
  unfold Nesting.enterElse at h
  split at h
  · cases h
  · rename_i frame outer hframes
    split at h
    · rename_i hif
      split at h
      · rename_i pending hpending
        cases h
        exact ⟨frame, outer, pending, hframes, hif, hpending, rfl, rfl⟩
      · cases h
    · cases h

theorem Nesting.close_eq_ok {n n' : Nesting} {frame : Frame} (h : n.close = .ok (frame, n')) :
    ∃ outer, n.frames = frame :: outer ∧ n' = { n with frames := outer, indent := frame.indent } := by
  unfold Nesting.close at h
  split at h
  · cases h
  · rename_i outer hframes
    cases h
    exact ⟨outer, hframes, rfl⟩

theorem Scope.branchTargets_eq_ok {n : Nesting} {ops : Operands} {targets : List LabelRef}
    (h : Scope.branchTargets n ops = .ok targets) :
    ∀ l, .generated l ∈ targets → ∃ f ∈ n.frames, l = f.branchTarget := by
  induction ops generalizing targets with
  | nil =>
    cases h
    exact fun l hl => nomatch hl
  | cons field rest ih =>
    obtain ⟨depth, -, h⟩ := ok_of_bind_ok h
    obtain ⟨target, htarget, h⟩ := ok_of_bind_ok h
    obtain ⟨others, hothers, h⟩ := ok_of_bind_ok h
    cases h
    intro l hl
    cases hl with
    | head => exact Nesting.branchTarget_eq_ok htarget
    | tail _ hl => exact ih hothers l hl

/-! ## The effect of an action -/

namespace Effect

variable {scope : Scope} {inv inv' inv'' : Invocation}

theorem taken {operands : Operands} (h : operands.LabelsFrom inv.operands) :
    Effect scope inv .none { inv with operands } := by
  have h : Effect scope inv .none { inv with operands, primitives := inv.primitives ++ [] } :=
    .emits h .nil
  rwa [List.append_nil] at h

theorem refl (scope : Scope) (inv : Invocation) : Effect scope inv .none inv :=
  taken (Operands.LabelsFrom.refl inv.operands)

theorem of_reads (h : inv.Reads inv') : Effect scope inv .none inv' := by
  obtain ⟨operands, annotated, hfrom, rfl⟩ := h
  have heffect : Effect scope inv .none
      { inv with operands, annotated, primitives := inv.primitives ++ [] } := .emits hfrom .nil
  rwa [List.append_nil] at heffect

theorem emitted {ps : List Primitive} (h : inv.Emittable ps) :
    Effect scope inv .none (inv.emitAll ps) :=
  .emits (Operands.LabelsFrom.refl inv.operands) h

theorem trans (h : Effect scope inv .none inv') (h' : Effect scope inv' .none inv'') :
    Effect scope inv .none inv'' := by
  cases h with
  | emits hoperands hemits =>
    cases h' with
    | emits hoperands' hemits' =>
      rw [List.append_assoc]
      refine .emits (fun l hl => hoperands l (hoperands' l hl)) (hemits.append ⟨hemits'.places, ?_⟩)
      exact fun p hp l hl => (hemits'.targets p hp l hl).imp_left (hoperands l)

end Effect

theorem Invocation.valueType_effect {scope : Scope} {inv inv' : Invocation}
    {declared : Option ValueType} {type : ValueType}
    (h : inv.valueType declared = .ok (type, inv')) : Effect scope inv .none inv' :=
  .of_reads (valueType_reads h)

theorem Invocation.returnType_effect {scope : Scope} {inv inv' : Invocation}
    {declared type : Option ValueType} (h : inv.returnType declared = (type, inv')) :
    Effect scope inv .none inv' :=
  .of_reads (returnType_reads h)

namespace Scope

variable {scope : Scope} {inv inv' : Invocation} {declared : Option ValueType}

theorem take_effect {α : Type} {a : α} {taking : Operands → Except Cause α × Operands}
    (htaking : Invocation.TakesLabels taking) (h : inv.take taking = .ok (a, inv')) :
    Effect scope inv .none inv' :=
  .of_reads (Invocation.take_reads htaking h)

/-- Taking a label and then emitting primitives that only refer to it. -/
theorem takeLabel_emitAll_effect {target : LabelRef} {ps : List Primitive}
    (h : scope.takeLabel inv = .ok (target, inv'))
    (hps : (∀ l, target = .generated l →
      Field.label l ∈ inv.operands ∨ ∃ f ∈ inv.nesting.frames, l = f.branchTarget) →
        inv.Emittable ps) :
    Effect scope inv .none (inv'.emitAll ps) := by
  obtain ⟨field, rest, hops, rfl, hfield⟩ := takeLabel_eq_ok h
  have hrest : Operands.LabelsFrom rest inv.operands := hops ▸ Operands.labelsFrom_tail
  refine .emits hrest (hps fun l hl => .inl ?_)
  rw [hops, hfield l hl]
  exact List.mem_cons_self

theorem emitInstruction_effect {i : Instruction} (h : scope.emitInstruction i inv = .ok inv') :
    Effect scope inv .none inv' := by
  unfold emitInstruction at h
  split at h
  · cases h
    exact .emitted (.insn _ _)
  · obtain ⟨⟨a, inv₁⟩, ha, h⟩ := ok_of_bind_ok h
    cases h
    exact (take_effect (Invocation.takeText_takesLabels _) ha).trans (.emitted (.insn _ _))
  · obtain ⟨⟨a, inv₁⟩, ha, h⟩ := ok_of_bind_ok h
    obtain ⟨⟨b, inv₂⟩, hb, h⟩ := ok_of_bind_ok h
    cases h
    exact ((take_effect (Invocation.takeText_takesLabels _) ha).trans
      (take_effect (Invocation.takeText_takesLabels _) hb)).trans (.emitted (.insn _ _))
  · obtain ⟨⟨target, inv₁⟩, htarget, h⟩ := ok_of_bind_ok h
    cases h
    exact takeLabel_emitAll_effect htarget .jump
  · cases h
    exact (Effect.taken Operands.labelsFrom_nil).trans (.emitted (.insn _ _))

theorem emitNamed_effect {opcode : String} (h : scope.emitNamed opcode inv = .ok inv') :
    Effect scope inv .none inv' := by
  unfold emitNamed at h
  split at h
  · exact emitInstruction_effect h
  · cases h

theorem callDescriptor_effect {spec : CallSpec} {descriptor : String}
    (h : scope.callDescriptor spec inv = .ok (descriptor, inv')) : Effect scope inv .none inv' :=
  .of_reads (callDescriptor_reads h)

theorem allStaticArgs_effect {sources : List ArgSource} {args : List StaticArg}
    (h : allStaticArgs inv sources = .ok (args, inv')) : Effect scope inv .none inv' :=
  .of_reads (allStaticArgs_reads h)

theorem emitCall_effect {spec : CallSpec} (h : scope.emitCall spec inv = .ok inv') :
    Effect scope inv .none inv' := by
  obtain ⟨⟨descriptor, inv₁⟩, hdescriptor, h⟩ := ok_of_bind_ok h
  obtain ⟨⟨args, inv₂⟩, hargs, h⟩ := ok_of_bind_ok h
  cases h
  exact ((callDescriptor_effect hdescriptor).trans (allStaticArgs_effect hargs)).trans
    (.emits (Operands.LabelsFrom.refl _) (.dynCall _))

theorem applyTransform_effect {t : Transform}
    (h : scope.applyTransform declared t inv = .ok inv') : Effect scope inv .none inv' := by
  unfold applyTransform at h
  simp only at h
  split at h
  · obtain ⟨⟨type, inv₁⟩, htype, h⟩ := ok_of_bind_ok h
    obtain ⟨ops, hops, h⟩ := ok_of_bind_ok h
    cases h
    exact (Invocation.valueType_effect htype).trans (.taken (Transform.apply_labelsFrom hops))
  · obtain ⟨ops, hops, h⟩ := ok_of_bind_ok h
    cases h
    exact .taken (Transform.apply_labelsFrom hops)

theorem control_effect {kind : ControlKind} (h : scope.control declared inv kind = .ok inv') :
    Effect scope inv kind.role inv' := by
  cases kind with
  | block =>
    cases h
    exact .opensBlock
  | loop =>
    cases h
    exact .opensLoop
  | ifThen c =>
    cases h
    exact .opensIf
  | elseArm =>
    obtain ⟨⟨labels, nesting⟩, helse, h⟩ := ok_of_bind_ok h
    cases h
    obtain ⟨frame, outer, pending, hframes, hif, hpending, rfl, rfl⟩ := Nesting.enterElse_eq_ok helse
    simp only [emitGoto, Invocation.emit, List.append_assoc, List.cons_append, List.nil_append]
    exact .entersElse hframes hif hpending
  | close =>
    obtain ⟨⟨frame, nesting⟩, hclose, h⟩ := ok_of_bind_ok h
    cases h
    obtain ⟨outer, hframes, rfl⟩ := Nesting.close_eq_ok hclose
    exact .closes hframes
  | branch =>
    obtain ⟨⟨depth, inv₁⟩, hdepth, h⟩ := ok_of_bind_ok h
    obtain ⟨target, htarget, h⟩ := ok_of_bind_ok h
    cases h
    refine (take_effect Invocation.takeDepth_takesLabels hdepth).trans (.emitted (.jump ?_))
    rintro l ⟨⟩
    exact .inr (Nesting.branchTarget_eq_ok htarget)
  | branchIf c =>
    obtain ⟨⟨depth, inv₁⟩, hdepth, h⟩ := ok_of_bind_ok h
    obtain ⟨target, htarget, h⟩ := ok_of_bind_ok h
    cases h
    refine (take_effect Invocation.takeDepth_takesLabels hdepth).trans (.emitted (.test ?_))
    rintro l ⟨⟩
    exact .inr (Nesting.branchTarget_eq_ok htarget)
  | branchTable =>
    obtain ⟨targets, htargets, h⟩ := ok_of_bind_ok h
    split at h
    · cases h
    · rename_i last hlast
      cases h
      refine .emits Operands.labelsFrom_nil ⟨by simp [Primitive.placed?], fun p hp l hl => .inr ?_⟩
      rw [List.mem_singleton.mp hp, Primitive.targets,
        List.dropLast_append_getLast? last hlast] at hl
      exact branchTargets_eq_ok htargets l hl
  | exit =>
    simp only [control] at h
    split at h
    all_goals
      rename_i hreturn
      cases h
      exact (Invocation.returnType_effect hreturn).trans (.emitted (.insn _ _))

/-- What an action does, unless it is about the label of the invocation. -/
theorem perform_effect {a : Action} (hlocal : a ≠ .localLabel) (hplace : a ≠ .placeLabel)
    (h : scope.perform declared inv a = .ok inv') : Effect scope inv a.role inv' := by
  cases a with
  | emit opcode => exact emitNamed_effect h
  | emitByType opcodes =>
    obtain ⟨⟨type, inv₁⟩, htype, h⟩ := ok_of_bind_ok h
    exact (Invocation.valueType_effect htype).trans (emitNamed_effect h)
  | load type =>
    obtain ⟨⟨text, inv₁⟩, htext, h⟩ := ok_of_bind_ok h
    simp only at h
    split at h
    · rename_i i _
      cases h
      exact (take_effect (Invocation.takeText_takesLabels _) htext).trans (.emitted (.fixed [i]))
    · cases h
  | transform t => exact applyTransform_effect h
  | check c =>
    obtain ⟨⟨_, inv₁⟩, hcheck, h⟩ := ok_of_bind_ok h
    cases h
    exact take_effect (fun _ _ _ => Check.run_labelsFrom) hcheck
  | unsupported hint => cases h
  | ignored reason =>
    cases h
    have heffect : Effect scope inv .none
        { inv with notices := inv.notices ++ [reason], primitives := inv.primitives ++ [] } :=
      .emits (Operands.LabelsFrom.refl _) .nil
    rwa [List.append_nil] at heffect
  | dynCall spec => exact emitCall_effect h
  | control kind => exact control_effect h
  | jumpIf c =>
    obtain ⟨⟨target, inv₁⟩, htarget, h⟩ := ok_of_bind_ok h
    cases h
    exact takeLabel_emitAll_effect htarget .test
  | localLabel => exact absurd rfl hlocal
  | placeLabel => exact absurd rfl hplace

end Scope

end Lowering
