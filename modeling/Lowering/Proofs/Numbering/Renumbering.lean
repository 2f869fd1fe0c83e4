-- SUMMARY: Other numbers for all generated labels, and that actions on operands without labels allow for it.
import Lowering.Proofs.LabelCount

/-!
# Renumbered labels

The labels that a unit has generated are given other numbers, and its counter is replaced by one that gives
these numbers in order. Then an action does what it has done before, with the other numbers, and it fails
as it has failed before. An action could only depend on the number of a label by turning the label into
text, and the only labels that it may turn into text are those among the operands.
-/

namespace Lowering

/-! ## Renumberings -/

/-- Other labels for those that a counter gives, and the counter that gives them in order. -/
structure Renumbering where
  label : Label → Label
  counter : LabelCounter → LabelCounter
  /-- The counters whose labels get other numbers. -/
  Covers : LabelCounter → Prop
  covers_advance : ∀ c, Covers c → Covers c.advance
  next : ∀ {c}, Covers c → (counter c).next = label c.next
  advance : ∀ {c}, Covers c → (counter c).advance = counter c.advance

/-- The counter has not overflowed, and the labels up to its next one get numbers without a gap. -/
structure Renumbering.Counts (r : Renumbering) (c : LabelCounter) : Prop where
  overflowed : c.overflowed = false
  number : ∀ i ≤ c.next.number, (r.label ⟨i⟩).number = (r.label ⟨0⟩).number + i

def LabelRef.renumber (r : Renumbering) : LabelRef → LabelRef
  | .generated l => .generated (r.label l)
  | .named name => .named name

def Primitive.renumber (r : Renumbering) : Primitive → Primitive
  | .insn opcode operands => .insn opcode operands
  | .jump opcode target => .jump opcode (target.renumber r)
  | .label l => .label (l.renumber r)
  | .tableSwitch opcode low default targets =>
    .tableSwitch opcode low (default.renumber r) (targets.map (LabelRef.renumber r))
  | .dynCall site => .dynCall site

def Frame.renumber (r : Renumbering) (f : Frame) : Frame :=
  { f with
    exit := r.label f.exit
    entry := f.entry.map r.label
    pendingElse := f.pendingElse.map r.label }

def Nesting.renumber (r : Renumbering) (n : Nesting) : Nesting :=
  { n with frames := n.frames.map (Frame.renumber r), counter := r.counter n.counter }

def UnitState.renumber (r : Renumbering) (state : UnitState) : UnitState :=
  { state with nesting := state.nesting.renumber r }

def Expansion.renumber (r : Renumbering) (x : Expansion) : Expansion :=
  { x with primitives := x.primitives.map (Primitive.renumber r), labels := x.labels.map r.label }

/-- The invocation with other numbers for the labels that it has taken and put out. Its operands stay, so
this is for an invocation that has no label among them. -/
def Invocation.renumber (r : Renumbering) (inv : Invocation) : Invocation :=
  { inv with
    nesting := inv.nesting.renumber r
    localLabel := inv.localLabel.map r.label
    primitives := inv.primitives.map (Primitive.renumber r) }

/-- No operand is a label, and the labels are those of a counter for which there are other numbers. -/
structure Invocation.Textual (r : Renumbering) (inv : Invocation) : Prop where
  operands : ∀ l, .label l ∉ inv.operands
  counter : r.Covers inv.nesting.counter

/-- Going on with a changed value gives the changed result, if that holds for every value. -/
theorem bind_map_eq {ε α α' β β' : Type} {x : Except ε α} {f : α → Except ε β}
    {f' : α' → Except ε β'} {g : α → α'} {g' : β → β'}
    (h : ∀ a, x = .ok a → f' (g a) = (f a).map g') : (x.map g >>= f') = (x >>= f).map g' := by
  cases x with
  | error e => rfl
  | ok a => exact h a rfl

/-- The same for a value that is not changed. -/
theorem bind_eq_map {ε α β β' : Type} {x : Except ε α} {f : α → Except ε β} {f' : α → Except ε β'}
    {g' : β → β'} (h : ∀ a, x = .ok a → f' a = (f a).map g') : (x >>= f') = (x >>= f).map g' := by
  cases x with
  | error e => rfl
  | ok a => exact h a rfl

/-! ## Nesting -/

theorem Frame.branchTarget_renumber (r : Renumbering) (f : Frame) :
    (f.renumber r).branchTarget = r.label f.branchTarget := by
  obtain ⟨kind, exit, entry, _, _, _⟩ := f
  cases entry with
  | none => rfl
  | some entry => exact (apply_ite r.label (kind = .loop) entry exit).symm

namespace Nesting

theorem openBlock_renumber (r : Renumbering) {n : Nesting} (hn : r.Covers n.counter)
    (opener : String) :
    (n.renumber r).openBlock opener =
      (r.label (n.openBlock opener).1, (n.openBlock opener).2.renumber r) := by
  simp [openBlock_eq, renumber, Frame.renumber, r.next hn, r.advance hn]

theorem openLoop_renumber (r : Renumbering) {n : Nesting} (hn : r.Covers n.counter)
    (opener : String) :
    (n.renumber r).openLoop opener =
      (r.label (n.openLoop opener).1, (n.openLoop opener).2.renumber r) := by
  simp [openLoop_eq, renumber, Frame.renumber, r.next hn, r.advance hn,
    r.next (r.covers_advance _ hn), r.advance (r.covers_advance _ hn)]

theorem openIf_renumber (r : Renumbering) {n : Nesting} (hn : r.Covers n.counter) (opener : String) :
    (n.renumber r).openIf opener =
      (r.label (n.openIf opener).1, (n.openIf opener).2.renumber r) := by
  simp [openIf_eq, renumber, Frame.renumber, r.next hn, r.advance hn,
    r.next (r.covers_advance _ hn), r.advance (r.covers_advance _ hn)]

theorem enterElse_renumber (r : Renumbering) (n : Nesting) :
    (n.renumber r).enterElse = n.enterElse.map fun entered =>
      (⟨r.label entered.1.exit, r.label entered.1.start⟩, entered.2.renumber r) := by
  obtain ⟨frames, _, _⟩ := n
  match frames with
  | [] => rfl
  | ⟨kind, _, _, pending, _, _⟩ :: outer => cases kind <;> cases pending <;> rfl

theorem close_renumber (r : Renumbering) (n : Nesting) :
    (n.renumber r).close = n.close.map fun closed => (closed.1.renumber r, closed.2.renumber r) := by
  obtain ⟨frames, _, _⟩ := n
  cases frames <;> rfl

theorem branchTarget_renumber (r : Renumbering) (n : Nesting) (depth : Nat) :
    (n.renumber r).branchTarget depth = (n.branchTarget depth).map (r.label) := by
  have hframe : (n.renumber r).frames[depth]? = n.frames[depth]?.map (Frame.renumber r) := List.getElem?_map
  have hdepth : (n.renumber r).depth = n.depth := List.length_map _
  unfold branchTarget
  rw [hframe, hdepth]
  cases n.frames[depth]? with
  | none => rfl
  | some frame => exact congrArg Except.ok (frame.branchTarget_renumber r)

end Nesting

theorem Scope.branchTargets_renumber (r : Renumbering) (n : Nesting) (ops : Operands) :
    branchTargets (n.renumber r) ops = (branchTargets n ops).map (List.map (LabelRef.renumber r)) := by
  induction ops with
  | nil => rfl
  | cons field rest ih =>
    simp only [branchTargets, Nesting.branchTarget_renumber, ih]
    refine bind_eq_map fun depth _ => ?_
    refine bind_map_eq fun target _ => ?_
    exact bind_map_eq fun targets _ => rfl

theorem ConditionTest.primitives_renumber (r : Renumbering) (test : ConditionTest) (target : LabelRef) :
    test.primitives (target.renumber r) = (test.primitives target).map (Primitive.renumber r) := by
  simp [primitives, Primitive.renumber, FixedInstruction.primitive]

theorem Scope.closingLabels_renumber (r : Renumbering) (f : Frame) :
    closingLabels (f.renumber r) = (closingLabels f).map (Primitive.renumber r) := by
  obtain ⟨_, _, _, pending, _, _⟩ := f
  cases pending <;> rfl

/-! ## Operands -/

namespace Invocation

theorem renumber_nesting (r : Renumbering) (inv : Invocation) :
    (inv.renumber r).nesting = inv.nesting.renumber r := rfl

theorem emitAll_renumber (r : Renumbering) (inv : Invocation) (ps : List Primitive) :
    (inv.renumber r).emitAll (ps.map (Primitive.renumber r)) = (inv.emitAll ps).renumber r := by
  simp [emitAll, renumber]

theorem emit_renumber (r : Renumbering) (inv : Invocation) (p : Primitive) :
    (inv.renumber r).emit (p.renumber r) = (inv.emit p).renumber r := inv.emitAll_renumber r [p]

theorem take_renumber {α : Type} (r : Renumbering) (inv : Invocation)
    (taking : Operands → Except Cause α × Operands) :
    (inv.renumber r).take taking = (inv.take taking).map (Prod.map id (renumber r)) := by
  unfold take
  simp only [renumber]
  split <;> rfl

theorem valueType_renumber (r : Renumbering) (inv : Invocation) (declared : Option ValueType) :
    (inv.renumber r).valueType declared = (inv.valueType declared).map (Prod.map id (renumber r)) := by
  unfold valueType
  simp only [renumber]
  split
  · rfl
  · split <;> rfl

theorem returnType_renumber (r : Renumbering) (inv : Invocation) (declared : Option ValueType) :
    (inv.renumber r).returnType declared = Prod.map id (renumber r) (inv.returnType declared) := by
  unfold returnType
  simp only [renumber]
  split
  · rfl
  · split <;> rfl

end Invocation

theorem Effect.textual {r : Renumbering} {scope : Scope} {role : IndentRole} {inv inv' : Invocation}
    (h : Effect scope inv role inv') (hinv : inv.Textual r) : inv'.Textual r :=
  ⟨fun l hl => hinv.operands l (h.labelsFrom l hl), h.counter_keeps r.covers_advance hinv.counter⟩

theorem Invocation.textual_types (r : Renumbering) (scope : Scope) :
    KeptByTypes (Invocation.Textual r) :=
  fun _ _ _ _ hinv htype => (@Invocation.valueType_effect scope _ _ _ _ htype).textual hinv

/-! ## Actions -/

namespace Scope

variable (r : Renumbering) (scope : Scope) (declared : Option ValueType) (inv : Invocation)

theorem emitTest_renumber (c : Condition) (negated : Bool) (target : LabelRef) :
    scope.emitTest c negated (target.renumber r) (inv.renumber r) =
      (scope.emitTest c negated target inv).renumber r := by
  rw [emitTest, ConditionTest.primitives_renumber, Invocation.emitAll_renumber, emitTest]

theorem emitGoto_renumber (target : Label) :
    scope.emitGoto (r.label target) (inv.renumber r) = (scope.emitGoto target inv).renumber r :=
  inv.emit_renumber r (.jump _ (.generated target))

theorem control_renumber {inv : Invocation} (hcounter : r.Covers inv.nesting.counter)
    (kind : ControlKind) :
    scope.control declared (inv.renumber r) kind =
      (scope.control declared inv kind).map (Invocation.renumber r) := by
  cases kind with
  | block =>
    simp only [control, Invocation.renumber_nesting, Nesting.openBlock_renumber r hcounter]
    rfl
  | loop =>
    simp only [control, Invocation.renumber_nesting, Nesting.openLoop_renumber r hcounter]
    exact congrArg Except.ok (Invocation.emit_renumber r { inv with nesting := _ } (.label (.generated _)))
  | ifThen c =>
    simp only [control, Invocation.renumber_nesting, Nesting.openIf_renumber r hcounter]
    exact congrArg Except.ok (scope.emitTest_renumber r { inv with nesting := _ } c true (.generated _))
  | elseArm =>
    simp only [control, Invocation.renumber_nesting, Nesting.enterElse_renumber]
    refine bind_map_eq fun entered _ => congrArg Except.ok ?_
    have hgoto := scope.emitGoto_renumber r { inv with nesting := entered.2 } entered.1.exit
    exact (congrArg (Invocation.emit · _) hgoto).trans (Invocation.emit_renumber r _ (.label (.generated _)))
  | close =>
    simp only [control, Invocation.renumber_nesting, Nesting.close_renumber]
    refine bind_map_eq fun closed _ => congrArg Except.ok ?_
    rw [closingLabels_renumber]
    exact Invocation.emitAll_renumber r { inv with nesting := closed.2 } _
  | branch =>
    simp only [control, Invocation.take_renumber]
    refine bind_map_eq fun taken _ => ?_
    simp only [Prod.map, Invocation.renumber_nesting, Nesting.branchTarget_renumber]
    refine bind_map_eq fun target _ => congrArg Except.ok ?_
    exact scope.emitGoto_renumber r taken.2 target
  | branchIf c =>
    simp only [control, Invocation.take_renumber]
    refine bind_map_eq fun taken _ => ?_
    simp only [Prod.map, Invocation.renumber_nesting, Nesting.branchTarget_renumber]
    refine bind_map_eq fun target _ => congrArg Except.ok ?_
    exact scope.emitTest_renumber r taken.2 c false (.generated target)
  | branchTable =>
    simp only [control, Invocation.renumber_nesting, branchTargets_renumber]
    refine bind_map_eq fun targets _ => ?_
    rw [List.getLast?_map]
    cases targets.getLast? with
    | none => rfl
    | some last =>
      simp only [Option.map_some, ← List.map_dropLast]
      exact congrArg Except.ok (Invocation.emit_renumber r { inv with operands := [] } (.tableSwitch ..))
  | exit =>
    simp only [control, Invocation.returnType_renumber]
    obtain ⟨type, inv₁⟩ := inv.returnType declared
    cases type <;> exact congrArg Except.ok (inv₁.emit_renumber r (.insn _ []))

theorem callDescriptor_renumber (spec : CallSpec) :
    scope.callDescriptor spec (inv.renumber r) =
      (scope.callDescriptor spec inv).map (Prod.map id (Invocation.renumber r)) := by
  unfold callDescriptor
  split
  · split <;> rfl
  · simp only [Invocation.take_renumber]
    refine bind_map_eq fun taken _ => ?_
    simp only [Prod.map, id]
    split <;> rfl

theorem staticArgs_renumber (source : ArgSource) :
    staticArgs (inv.renumber r) source =
      (staticArgs inv source).map (Prod.map id (Invocation.renumber r)) := by
  cases source with
  | fixed arg => rfl
  | operandInt =>
    simp only [staticArgs, Invocation.take_renumber]
    refine bind_map_eq fun taken _ => ?_
    simp only [Prod.map, id]
    split <;> rfl
  | operandHandles => rfl

theorem allStaticArgs_renumber (sources : List ArgSource) :
    allStaticArgs (inv.renumber r) sources =
      (allStaticArgs inv sources).map (Prod.map id (Invocation.renumber r)) := by
  induction sources generalizing inv with
  | nil => rfl
  | cons source sources ih =>
    simp only [allStaticArgs, staticArgs_renumber]
    refine bind_map_eq fun taken _ => ?_
    simp only [Prod.map, ih]
    exact bind_map_eq fun more _ => rfl

theorem emitCall_renumber (spec : CallSpec) :
    scope.emitCall spec (inv.renumber r) = (scope.emitCall spec inv).map (Invocation.renumber r) := by
  simp only [emitCall, callDescriptor_renumber]
  refine bind_map_eq fun described _ => ?_
  simp only [Prod.map, allStaticArgs_renumber]
  refine bind_map_eq fun given _ => congrArg Except.ok ?_
  exact Invocation.emit_renumber r { given.2 with nextSite := given.2.nextSite + 1 } (.dynCall _)

theorem applyTransform_renumber (t : Transform) :
    scope.applyTransform declared t (inv.renumber r) =
      (scope.applyTransform declared t inv).map (Invocation.renumber r) := by
  unfold applyTransform
  simp only
  split
  · simp only [Invocation.valueType_renumber]
    refine bind_map_eq fun typed _ => ?_
    exact bind_eq_map fun operands _ => rfl
  · exact bind_eq_map fun operands _ => rfl

/-- A label that is taken from operands without labels has a name and no number. -/
theorem takeLabel_renumber {inv : Invocation} (hinv : inv.Textual r) :
    scope.takeLabel (inv.renumber r) =
      (scope.takeLabel inv).map (Prod.map (LabelRef.renumber r) (Invocation.renumber r)) := by
  simp only [takeLabel, Invocation.take_renumber]
  refine bind_map_eq fun taken htaken => ?_
  refine bind_eq_map fun label hlabel => congrArg Except.ok ?_
  cases label with
  | named name => rfl
  | generated l =>
    have htake : scope.takeLabel inv = .ok (.generated l, taken.2) := by
      rw [takeLabel, bind_of_ok htaken]
      exact bind_of_ok hlabel _
    obtain ⟨field, rest, hops, -, hfield⟩ := takeLabel_eq_ok htake
    refine absurd ?_ (hinv.operands l)
    rw [hops, hfield l rfl]
    exact List.mem_cons_self

theorem emitInstruction_renumber (i : Instruction) {inv : Invocation} (hinv : inv.Textual r) :
    scope.emitInstruction i (inv.renumber r) = (scope.emitInstruction i inv).map (Invocation.renumber r) := by
  unfold emitInstruction
  simp only
  split
  · exact congrArg Except.ok (inv.emit_renumber r (.insn _ []))
  · simp only [Invocation.take_renumber]
    refine bind_map_eq fun taken _ => ?_
    exact congrArg Except.ok (taken.2.emit_renumber r (.insn _ _))
  · simp only [Invocation.take_renumber]
    refine bind_map_eq fun taken _ => ?_
    simp only [Prod.map, Invocation.take_renumber]
    refine bind_map_eq fun taken' _ => ?_
    exact congrArg Except.ok (taken'.2.emit_renumber r (.insn _ _))
  · simp only [scope.takeLabel_renumber r hinv]
    refine bind_map_eq fun taken _ => ?_
    exact congrArg Except.ok (taken.2.emit_renumber r (.jump _ taken.1))
  · exact congrArg Except.ok (Invocation.emit_renumber r { inv with operands := [] } (.insn _ _))

theorem emitNamed_renumber (opcode : String) {inv : Invocation} (hinv : inv.Textual r) :
    scope.emitNamed opcode (inv.renumber r) = (scope.emitNamed opcode inv).map (Invocation.renumber r) := by
  unfold emitNamed
  split
  · exact scope.emitInstruction_renumber r _ hinv
  · rfl

/-- No action depends on the numbers of labels as long as none is among the operands, and none adds to
these except the insertion of the label of the invocation. -/
theorem perform_renumber {a : Action} (ha : a ≠ .localLabel) {inv : Invocation} (hinv : inv.Textual r) :
    scope.perform declared (inv.renumber r) a =
      (scope.perform declared inv a).map (Invocation.renumber r) := by
  cases a with
  | emit opcode => exact scope.emitNamed_renumber r opcode hinv
  | emitByType opcodes =>
    simp only [perform, Invocation.valueType_renumber]
    exact bind_map_eq fun typed htyped =>
      scope.emitNamed_renumber r _ (Invocation.textual_types r scope hinv htyped)
  | load type =>
    simp only [perform, Invocation.take_renumber]
    refine bind_map_eq fun taken _ => ?_
    simp only [Prod.map, id]
    split
    · exact congrArg Except.ok (taken.2.emit_renumber r (.insn _ _))
    · rfl
  | transform t => exact scope.applyTransform_renumber r declared inv t
  | check c =>
    simp only [perform, Invocation.take_renumber]
    exact bind_map_eq fun taken _ => rfl
  | unsupported hint => rfl
  | ignored reason => rfl
  | dynCall spec => exact scope.emitCall_renumber r inv spec
  | control kind => exact scope.control_renumber r declared hinv.counter kind
  | jumpIf c =>
    simp only [perform, scope.takeLabel_renumber r hinv]
    refine bind_map_eq fun taken _ => congrArg Except.ok ?_
    exact scope.emitTest_renumber r taken.2 c false taken.1
  | localLabel => exact absurd rfl ha
  | placeLabel =>
    simp only [perform, scope.takeLabel_renumber r hinv]
    refine bind_map_eq fun taken _ => congrArg Except.ok ?_
    exact taken.2.emit_renumber r (.label taken.1)

end Scope

end Lowering
