-- SUMMARY: What the instructions of structured control expand to, in terms of the nesting.
import Lowering.Proofs.Control.Program
import Lowering.Proofs.Resolution
import Lowering.Proofs.Runs

/-!
# Expansion of structured control

The control instructions of a library emit fixed instructions, most of them none, and then call an entry
that performs one control action. What such an instruction expands to follows from that action alone.
-/

namespace Lowering

/-! ## Entries that perform one control action -/

/-- The entry emits the instructions `setup`, which take no operands, and then performs one control
action through a call. -/
def Table.Performs (t : Table) (e : Entry) (setup : List String) (kind : ControlKind) : Prop :=
  e.type = none ∧ ∃ callee e', e.body = setup.map Op.emit ++ [.call callee] ∧
    t.find? callee = some e' ∧ e'.type = none ∧ e'.body = [.control kind] ∧
    ∀ opcode ∈ setup, t.isa.find? opcode = some ⟨opcode, .none⟩

/-- Instructions without operands. -/
def plainInsns (opcodes : List String) : List Primitive := opcodes.map fun opcode => .insn opcode []

theorem Op.runAll_emits {scope : Scope} {onCall : CallHandler} {declared : Option ValueType}
    {inv : Invocation} {opcodes : List String}
    (h : ∀ opcode ∈ opcodes, scope.table.isa.find? opcode = some ⟨opcode, .none⟩) :
    Op.runAll scope onCall declared inv (opcodes.map Op.emit) =
      .ok (inv.emitAll (plainInsns opcodes)) := by
  induction opcodes generalizing inv with
  | nil => simp [plainInsns, Invocation.emitAll, Op.runAll]
  | cons opcode opcodes ih =>
    have hfirst : Op.run scope onCall declared inv (Op.emit opcode) =
        .ok (inv.emit (.insn opcode [])) := by
      simp only [Op.emit, Op.run, Scope.perform, Scope.emitNamed, h opcode List.mem_cons_self]
      rfl
    rw [List.map_cons, Op.runAll_cons, hfirst]
    refine (ih fun o ho => h o (List.mem_cons_of_mem _ ho)).trans ?_
    simp [plainInsns, Invocation.emitAll, Invocation.emit]

/-- An entry that performs a control action does so after its setup. -/
theorem Table.Performs.runEntry {scope : Scope} {e : Entry} {setup : List String} {kind : ControlKind}
    (h : scope.table.Performs e setup kind) {bound : Nat} (hbound : 0 < bound) (inv : Invocation) :
    let inv' := inv.emitAll (plainInsns setup)
    scope.runEntry bound e inv = inv'.orHalt (scope.control none inv' kind) := by
  obtain ⟨htype, callee, e', hbody, hfind, htype', hbody', hsetup⟩ := h
  obtain ⟨bound, rfl⟩ := Nat.exists_eq_succ_of_ne_zero (Nat.pos_iff_ne_zero.mp hbound)
  rw [Scope.runEntry, hbody, htype, Op.runAll_append, Op.runAll_emits hsetup]
  show Op.runAll scope _ none (inv.emitAll (plainInsns setup)) [.call callee] = _
  rw [Op.runAll_cons, Op.run, Scope.call, hfind]
  simp only [htype', hbody', Option.none_or]
  rw [Op.control, Op.runAll_singleton, Scope.perform]
  cases scope.control none (inv.emitAll (plainInsns setup)) kind <;> rfl

/-- The mnemonic selects an entry that performs a control action after its setup. -/
def Library.Performs (lib : Library) (mnemonic : String) (setup : List String) (kind : ControlKind) :
    Prop :=
  ∃ id e, lib.lookup mnemonic = .ok (id, e) ∧ lib.table.Performs e setup kind

/-- The line expands to the primitives and leaves the unit in the second state. -/
def UnitState.Expands (lib : Library) (className : String) (state : UnitState) (line : Line)
    (ps : List Primitive) (state' : UnitState) : Prop :=
  ∃ x, state.expand lib className line.1 line.2 = (.ok x, state') ∧ x.primitives = ps

/-- An external entry expands to what its body emits, if the body succeeds and leaves no operands. -/
theorem Library.expands_iff {lib : Library} {e : Entry} (he : e ∈ lib.table.entries)
    (hexternal : e.visibility = .external) {className : String} {state state' : UnitState}
    {operands : List String} {ps : List Primitive} :
    state.Expands lib className (e.name, operands) ps state' ↔
      ∃ inv, Scope.runEntry ⟨lib.table, className, e.name⟩ lib.table.entries.length e
          (state.start operands) = .ok inv ∧
        inv.operands = [] ∧ inv.primitives = ps ∧ inv.unit = state' := by
  obtain ⟨id, hlookup⟩ := lib.lookup_name he hexternal
  constructor
  · rintro ⟨x, hx, rfl⟩
    obtain ⟨id', e', inv, hlookup', hinvoke, hprimitives, rfl⟩ := UnitState.expand_eq_ok hx
    obtain ⟨-, rfl⟩ := Prod.mk.inj (Except.ok.inj (hlookup.symm.trans hlookup'))
    obtain ⟨hrun, hoperands⟩ := UnitState.invoke_eq_ok_iff.mp hinvoke
    exact ⟨inv, hrun, hoperands, hprimitives.symm, rfl⟩
  · rintro ⟨inv, hrun, hoperands, rfl, rfl⟩
    exact UnitState.expand_of_invoke hlookup (UnitState.invoke_eq_ok_iff.mpr ⟨hrun, hoperands⟩)

theorem Nesting.branchTarget_of_frame {n : Nesting} {depth : Nat} {frame : Frame}
    (h : n.frames[depth]? = some frame) : n.branchTarget depth = .ok frame.branchTarget := by
  simp only [Nesting.branchTarget, h]

/-- A depth is taken from the operands with its value. -/
theorem Depth.take_eq (depth : Depth) (state : UnitState) (ps : List Primitive) :
    ((state.start [depth.text]).emitAll ps).take Operands.takeDepth =
      .ok (depth.value, (state.start []).emitAll ps) := by
  simp only [Invocation.take, Invocation.emitAll, UnitState.start, Operands.ofTexts, List.map_cons,
    Operands.takeDepth, depth.reads]

theorem branchTargets_of_frames {n : Nesting} {depths : List Depth} {frames : List Frame}
    (h : depths.map (fun d => n.frames[d.value]?) = frames.map some) :
    Scope.branchTargets n (Operands.ofTexts (depths.map Depth.text)) =
      .ok (frames.map fun f => .generated f.branchTarget) := by
  induction depths generalizing frames with
  | nil =>
    cases frames with
    | nil => rfl
    | cons => cases h
  | cons depth depths ih =>
    cases frames with
    | nil => cases h
    | cons frame frames =>
      obtain ⟨hframe, hrest⟩ := List.cons.inj h
      rw [List.map_cons, Operands.ofTexts, List.map_cons, Scope.branchTargets, bind_of_ok depth.reads,
        bind_of_ok (Nesting.branchTarget_of_frame hframe)]
      exact bind_of_ok (ih hrest) _

namespace Library.Performs

variable {lib : Library} {mnemonic : String} {setup : List String} {kind : ControlKind}

/-- A control instruction expands to its setup and what its action emits, if the action succeeds and
leaves no operands. -/
theorem expands (h : lib.Performs mnemonic setup kind) {state : UnitState} {className : String}
    {operands : List String} {inv : Invocation}
    (hcontrol : Scope.control ⟨lib.table, className, mnemonic⟩ none
      ((state.start operands).emitAll (plainInsns setup)) kind = .ok inv)
    (hoperands : inv.operands = []) :
    state.Expands lib className (mnemonic, operands) inv.primitives inv.unit := by
  obtain ⟨id, e, hlookup, hperforms⟩ := h
  have hpos : 0 < lib.table.entries.length :=
    List.length_pos_of_mem (Library.lookup_eq_ok hlookup).1
  refine UnitState.expand_of_invoke hlookup (UnitState.invoke_eq_ok_iff.mpr ⟨?_, hoperands⟩)
  rw [Table.Performs.runEntry hperforms hpos, hcontrol]
  rfl

/-! ## Constructs -/

variable (className : String) (state : UnitState)

theorem block (h : lib.Performs mnemonic [] .block) :
    state.Expands lib className (mnemonic, []) [] ⟨(state.nesting.openBlock mnemonic).2, state.nextSite⟩ :=
  h.expands rfl rfl

theorem loop (h : lib.Performs mnemonic [] .loop) :
    state.Expands lib className (mnemonic, []) [.label (.generated (state.nesting.openLoop mnemonic).1)]
      ⟨(state.nesting.openLoop mnemonic).2, state.nextSite⟩ :=
  h.expands rfl rfl

theorem ifThen {c : Condition} (h : lib.Performs mnemonic setup (.ifThen c)) :
    state.Expands lib className (mnemonic, [])
      (plainInsns setup ++
        (lib.table.isa.test c true).primitives (.generated (state.nesting.openIf mnemonic).1))
      ⟨(state.nesting.openIf mnemonic).2, state.nextSite⟩ :=
  h.expands rfl rfl

variable {state}

theorem elseArm (h : lib.Performs mnemonic [] .elseArm) {frame : Frame} {outer : List Frame}
    {pending : Label} (hframes : state.nesting.frames = frame :: outer) (hif : frame.kind = .ifThen)
    (hpending : frame.pendingElse = some pending) :
    state.Expands lib className (mnemonic, [])
      [.jump lib.table.isa.goto (.generated frame.exit), .label (.generated pending)]
      ⟨⟨{ frame with kind := .elseArm, pendingElse := none } :: outer, state.nesting.counter,
        frame.indent + 1⟩, state.nextSite⟩ := by
  have helse : state.nesting.enterElse = .ok (⟨frame.exit, pending⟩,
      ⟨{ frame with kind := .elseArm, pendingElse := none } :: outer, state.nesting.counter,
        frame.indent + 1⟩) := by
    simp only [Nesting.enterElse, hframes, hif, hpending, if_true]
  exact h.expands (bind_of_ok helse _) rfl

theorem close (h : lib.Performs mnemonic [] .close) {frame : Frame} {outer : List Frame}
    (hframes : state.nesting.frames = frame :: outer) :
    state.Expands lib className (mnemonic, []) (Scope.closingLabels frame)
      ⟨⟨outer, state.nesting.counter, frame.indent⟩, state.nextSite⟩ := by
  have hclose : state.nesting.close =
      .ok (frame, ⟨outer, state.nesting.counter, frame.indent⟩) := by
    simp only [Nesting.close, hframes]
  exact h.expands (bind_of_ok hclose _) rfl

/-! ## Branches -/

theorem branch (h : lib.Performs mnemonic [] .branch) (depth : Depth) {frame : Frame}
    (hframe : state.nesting.frames[depth.value]? = some frame) :
    state.Expands lib className (mnemonic, [depth.text])
      [.jump lib.table.isa.goto (.generated frame.branchTarget)] state := by
  refine @expands _ _ _ _ h _ _ _ (Scope.emitGoto ⟨lib.table, className, mnemonic⟩ frame.branchTarget
    (state.start [])) ?_ rfl
  rw [Scope.control, bind_of_ok (depth.take_eq state _)]
  exact bind_of_ok (Nesting.branchTarget_of_frame hframe) _

theorem branchIf {c : Condition} (h : lib.Performs mnemonic setup (.branchIf c)) (depth : Depth)
    {frame : Frame} (hframe : state.nesting.frames[depth.value]? = some frame) :
    state.Expands lib className (mnemonic, [depth.text])
      (plainInsns setup ++
        (lib.table.isa.test c false).primitives (.generated frame.branchTarget)) state := by
  refine @expands _ _ _ _ h _ _ _ (Scope.emitTest ⟨lib.table, className, mnemonic⟩ c false
    (.generated frame.branchTarget) ((state.start []).emitAll (plainInsns setup))) ?_ rfl
  rw [Scope.control, bind_of_ok (depth.take_eq state _)]
  exact bind_of_ok (Nesting.branchTarget_of_frame hframe) _

theorem branchTable (h : lib.Performs mnemonic [] .branchTable) (depths : List Depth) (last : Depth)
    {frames : List Frame} {default : Frame}
    (hframes : depths.map (fun d => state.nesting.frames[d.value]?) = frames.map some)
    (hdefault : state.nesting.frames[last.value]? = some default) :
    state.Expands lib className (mnemonic, (depths ++ [last]).map Depth.text)
      [.tableSwitch lib.table.isa.tableSwitch 0 (.generated default.branchTarget)
        (frames.map fun f => .generated f.branchTarget)] state := by
  have htargets : Scope.branchTargets state.nesting
      (Operands.ofTexts ((depths ++ [last]).map Depth.text)) =
      .ok ((frames ++ [default]).map fun f => .generated f.branchTarget) := by
    refine branchTargets_of_frames ?_
    simp [hframes, hdefault]
  refine @expands _ _ _ _ h _ _ _ ((state.start []).emit (.tableSwitch lib.table.isa.tableSwitch 0
    (.generated default.branchTarget) (frames.map fun f => .generated f.branchTarget))) ?_ rfl
  refine (bind_of_ok htargets _).trans ?_
  rw [List.map_append, List.map_singleton]
  simp only [List.getLast?_append, List.getLast?_singleton, Option.some_or, List.dropLast_concat]
  rfl

theorem exit (h : lib.Performs mnemonic [] .exit) (result : Option ResultType) :
    state.Expands lib className (mnemonic, result.toList.map ResultType.text)
      [match result with
        | some r => .insn (lib.table.isa.typedReturn.get r.type) []
        | none => .insn lib.table.isa.voidReturn []] state := by
  refine @expands _ _ _ _ h _ _ _ ((state.start []).emit _) ?_ rfl
  cases result with
  | none => rfl
  | some r =>
    have hreturn : ((state.start [r.text]).emitAll (plainInsns [])).returnType none =
        (some r.type, state.start []) := by
      simp only [Invocation.returnType, Invocation.emitAll, UnitState.start, Operands.ofTexts,
        List.map_cons, Option.or, Operands.firstText?, List.head?_cons, Option.bind_some, Field.text?,
        r.reads]
      rfl
    rw [Option.toList_some, List.map_singleton, Scope.control]
    simp only [hreturn]

end Library.Performs

end Lowering
