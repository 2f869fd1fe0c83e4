-- SUMMARY: Whatever an instruction expands to is code of the target, with labels that it may mention.
import Lowering.Proofs.LabelHistory

/-!
# Target code

The primitives of an expansion come from many places: emitted instructions, loads of constants, tests of
conditions, structured control, returns and dynamic calls. All of them choose opcodes that the target
has, with the operands that their form asks for, and refer to labels that the unit has taken or that the
library lets the source name.
-/

namespace Lowering

/-! ## Forms -/

/-- An instruction of the form carries this number of operands. A jump is no such instruction. -/
def OperandForm.Carries : OperandForm → Nat → Prop
  | none, n => n = 0
  | one, n => n = 1
  | two, n => n = 2
  | label, _ => False
  | rest, _ => True

namespace InstructionSet

/-- The opcode is that of an instruction other than a jump, which carries such operands. -/
def Insn (isa : InstructionSet) (opcode : String) (operands : List String) : Prop :=
  ∃ form, isa.find? opcode = some ⟨opcode, form⟩ ∧ form.Carries operands.length

/-- The opcode is that of a jump. -/
def Jump (isa : InstructionSet) (opcode : String) : Prop :=
  isa.find? opcode = some ⟨opcode, .label⟩

theorem Insn.of_find? {isa : InstructionSet} {opcode : String} {i : Instruction}
    {operands : List String} (hfind : isa.find? opcode = some i)
    (hcarries : i.form.Carries operands.length) : isa.Insn i.name operands := by
  have hname : i.name = opcode := find?_name hfind
  subst hname
  exact ⟨i.form, hfind, hcarries⟩

theorem Jump.of_find? {isa : InstructionSet} {opcode : String} {i : Instruction}
    (hfind : isa.find? opcode = some i) (hform : i.form = .label) : isa.Jump i.name := by
  have hname : i.name = opcode := find?_name hfind
  subst hname
  rw [Jump, hfind, ← hform]

/-- The choices that an instruction set makes for control, conditions, returns and constants are its own
instructions. -/
structure Regular (isa : InstructionSet) : Prop where
  goto : isa.Jump isa.goto
  jump (c : Condition) (negated : Bool) : isa.Jump (isa.test c negated).jump
  prelude (c : Condition) (negated : Bool) :
    ∀ i ∈ (isa.test c negated).prelude, isa.Insn i.opcode i.operand.toList
  voidReturn : isa.Insn isa.voidReturn []
  typedReturn (type : ValueType) : isa.Insn (isa.typedReturn.get type) []
  load (unsigned : Bool) (type : ValueType) (text : String) (i : FixedInstruction) :
    isa.load unsigned type text = .ok i → isa.Insn i.opcode i.operand.toList

end InstructionSet

/-! ## The Java virtual machine -/

namespace Jvm

/-- The instructions that control, conditions, returns and constants choose from. -/
def chosen : List Instruction :=
  [⟨"goto", .label⟩, ⟨"ifeq", .label⟩, ⟨"ifne", .label⟩, ⟨"iflt", .label⟩, ⟨"ifgt", .label⟩,
   ⟨"ifle", .label⟩, ⟨"ifge", .label⟩, ⟨"if_icmpeq", .label⟩, ⟨"if_icmpne", .label⟩,
   ⟨"if_icmplt", .label⟩, ⟨"if_icmpgt", .label⟩, ⟨"if_icmple", .label⟩, ⟨"if_icmpge", .label⟩,
   ⟨"invokestatic", .one⟩, ⟨"lcmp", .none⟩, ⟨"fcmpl", .none⟩, ⟨"fcmpg", .none⟩, ⟨"dcmpl", .none⟩,
   ⟨"dcmpg", .none⟩, ⟨"return", .none⟩, ⟨"ireturn", .none⟩, ⟨"lreturn", .none⟩, ⟨"freturn", .none⟩,
   ⟨"dreturn", .none⟩, ⟨"iconst_m1", .none⟩, ⟨"iconst_0", .none⟩, ⟨"iconst_1", .none⟩,
   ⟨"iconst_2", .none⟩, ⟨"iconst_3", .none⟩, ⟨"iconst_4", .none⟩, ⟨"iconst_5", .none⟩,
   ⟨"lconst_0", .none⟩, ⟨"lconst_1", .none⟩, ⟨"fconst_0", .none⟩, ⟨"fconst_1", .none⟩,
   ⟨"fconst_2", .none⟩, ⟨"dconst_0", .none⟩, ⟨"dconst_1", .none⟩, ⟨"bipush", .one⟩,
   ⟨"sipush", .one⟩, ⟨"ldc", .one⟩, ⟨"ldc2_w", .one⟩]

theorem find?_chosen {i : Instruction} (hi : i ∈ chosen) : jvm.find? i.name = some i := by
  have hall : (chosen.all fun i => decide (jvm.keyed.find? (textKey i.name) = some i)) = true := by
    decide +kernel
  rw [InstructionSet.find?_eq_keyed]
  exact of_decide_eq_true (List.all_eq_true.mp hall i hi)

theorem jump_of_mem {opcode : String} (h : ⟨opcode, .label⟩ ∈ chosen) : jvm.Jump opcode :=
  find?_chosen h

theorem insn_none {opcode : String} (h : ⟨opcode, .none⟩ ∈ chosen) : jvm.Insn opcode [] :=
  ⟨.none, find?_chosen h, rfl⟩

theorem insn_one (opcode operand : String) (h : ⟨opcode, .one⟩ ∈ chosen) :
    jvm.Insn opcode [operand] :=
  ⟨.one, find?_chosen h, rfl⟩

theorem jump_jump (c : Condition) : jvm.Jump (jump c) := by
  have hzero : ∀ c, jvm.Jump (zeroJump c) := by
    intro c
    cases c <;> exact jump_of_mem (by decide +kernel)
  cases c with
  | nonZero => exact hzero .ne
  | zero => exact hzero .eq
  | int c => cases c <;> exact jump_of_mem (by decide +kernel)
  | unsignedInt c | long c | unsignedLong c | float c | double c => exact hzero c

theorem insn_prelude (c : Condition) : ∀ i ∈ prelude c, jvm.Insn i.opcode i.operand.toList := by
  intro i hi
  unfold prelude at hi
  split at hi
  · cases hi
  · cases hi
  · cases hi
  all_goals obtain rfl := List.mem_singleton.mp hi
  · exact insn_one "invokestatic" _ (by decide +kernel)
  · exact insn_none (by decide +kernel)
  · exact insn_one "invokestatic" _ (by decide +kernel)
  all_goals exact insn_none (by decide +kernel)

/-! ## Constants -/

theorem insn_intLoad (v : Int) : jvm.Insn (intLoad v).opcode (intLoad v).operand.toList := by
  unfold intLoad
  iterate 7
    split
    · exact insn_none (by decide +kernel)
  split
  · exact insn_one "bipush" _ (by decide +kernel)
  · split
    · exact insn_one "sipush" _ (by decide +kernel)
    · exact insn_one "ldc" _ (by decide +kernel)

theorem insn_longLoad (v : Int) : jvm.Insn (longLoad v).opcode (longLoad v).operand.toList := by
  unfold longLoad
  split
  · exact insn_none (by decide +kernel)
  · split
    · exact insn_none (by decide +kernel)
    · exact insn_one "ldc2_w" _ (by decide +kernel)

theorem insn_loadInt {text : String} {i : FixedInstruction} (h : loadInt text = .ok i) :
    jvm.Insn i.opcode i.operand.toList := by
  unfold loadInt at h
  split at h
  · cases h
  · split at h
    · obtain rfl := Except.ok.inj h
      exact insn_intLoad _
    · cases h

theorem insn_loadLong {unsigned : Bool} {text : String} {i : FixedInstruction}
    (h : loadLong unsigned text = .ok i) : jvm.Insn i.opcode i.operand.toList := by
  unfold loadLong at h
  split at h
  · cases h
  · split at h
    · cases h
    · split at h
      · obtain rfl := Except.ok.inj h
        exact insn_longLoad _
      · cases h

theorem insn_loadFloat {text : String} {i : FixedInstruction} (h : loadFloat text = .ok i) :
    jvm.Insn i.opcode i.operand.toList := by
  unfold loadFloat at h
  split at h
  · cases h
  · obtain rfl := Except.ok.inj h
    iterate 3
      split
      · exact insn_none (by decide +kernel)
    exact insn_one "ldc" _ (by decide +kernel)

theorem insn_loadDouble {text : String} {i : FixedInstruction} (h : loadDouble text = .ok i) :
    jvm.Insn i.opcode i.operand.toList := by
  unfold loadDouble at h
  split at h
  · cases h
  · obtain rfl := Except.ok.inj h
    iterate 2
      split
      · exact insn_none (by decide +kernel)
    exact insn_one "ldc2_w" _ (by decide +kernel)

theorem insn_loadConstant {unsigned : Bool} {type : ValueType} {text : String} {i : FixedInstruction}
    (h : loadConstant unsigned type text = .ok i) : jvm.Insn i.opcode i.operand.toList := by
  cases type with
  | i32 => exact insn_loadInt h
  | i64 => exact insn_loadLong h
  | f32 => exact insn_loadFloat h
  | f64 => exact insn_loadDouble h

end Jvm

theorem jvm_regular : jvm.Regular where
  goto := Jvm.jump_of_mem (by decide +kernel)
  jump c negated := Jvm.jump_jump _
  prelude c negated := Jvm.insn_prelude c
  voidReturn := Jvm.insn_none (by decide +kernel)
  typedReturn type := by cases type <;> exact Jvm.insn_none (by decide +kernel)
  load _ _ _ _ := Jvm.insn_loadConstant

/-! ## Primitives -/

namespace Primitive

/-- The opcode of the primitive is one of the target, used as the target has it. -/
def IsCode (isa : InstructionSet) : Primitive → Prop
  | insn opcode operands => isa.Insn opcode operands
  | jump opcode _ => isa.Jump opcode
  | tableSwitch opcode _ _ _ => opcode = isa.tableSwitch
  | label _ | dynCall _ => True

end Primitive

/-- The library lets the source name the label. -/
def Table.AllowsName (t : Table) (name : String) : Prop :=
  t.has .structuredLabels = false ∧ ∀ form, t.labelForm = some form → form.accepts name = true

/-- The primitive is code for the target, and its named labels are allowed. -/
structure Primitive.Fits (t : Table) (p : Primitive) : Prop where
  isCode : p.IsCode t.isa
  names : ∀ name, .named name ∈ p.labels → t.AllowsName name

namespace Primitive.Fits

variable {t : Table}

theorem insn {opcode : String} {operands : List String} (h : t.isa.Insn opcode operands) :
    Fits t (.insn opcode operands) := ⟨h, nofun⟩

theorem fixed {i : FixedInstruction} (h : t.isa.Insn i.opcode i.operand.toList) :
    Fits t i.primitive := .insn h

theorem dynCall (site : CallSite) : Fits t (.dynCall site) := ⟨trivial, nofun⟩

theorem placed (l : Label) : Fits t (.label (.generated l)) := by
  refine ⟨trivial, fun name hname => ?_⟩
  cases List.mem_singleton.mp hname

theorem jump {opcode : String} {target : LabelRef} (hjump : t.isa.Jump opcode)
    (htarget : ∀ name, target = .named name → t.AllowsName name) : Fits t (.jump opcode target) :=
  ⟨hjump, fun name hname => htarget name (List.mem_singleton.mp hname).symm⟩

theorem test (hisa : t.isa.Regular) (c : Condition) (negated : Bool) {target : LabelRef}
    (htarget : ∀ name, target = .named name → t.AllowsName name) :
    ∀ p ∈ (t.isa.test c negated).primitives target, Fits t p := by
  intro p hp
  rcases List.mem_append.mp hp with hp | hp
  · obtain ⟨i, hi, rfl⟩ := List.mem_map.mp hp
    exact .fixed (hisa.prelude c negated i hi)
  · obtain rfl := List.mem_singleton.mp hp
    exact .jump (hisa.jump c negated) htarget

end Primitive.Fits

/-! ## Operands that are taken -/

theorem Invocation.take_primitives {α : Type} {inv inv' : Invocation} {a : α}
    {taking : Operands → Except Cause α × Operands} (h : inv.take taking = .ok (a, inv')) :
    inv'.primitives = inv.primitives := by
  obtain ⟨rest, -, rfl⟩ := take_eq_ok h
  rfl

namespace Scope

variable {scope : Scope} {inv inv' : Invocation} {declared : Option ValueType}

theorem checkLabel_allows {label target : LabelRef} (h : scope.checkLabel label = .ok target) :
    ∀ name, target = .named name → scope.table.AllowsName name := by
  intro name hname
  subst hname
  cases label with
  | generated l => cases h
  | named written =>
    simp only [checkLabel] at h
    split at h
    · cases h
    · rename_i hunstructured
      refine ⟨Bool.eq_false_iff.mpr hunstructured, fun form hform => ?_⟩
      simp only [hform] at h
      split at h
      · cases h
        assumption
      · cases h

/-- A label that is taken from the operands is one that may be referred to. -/
theorem takeLabel_allows {target : LabelRef} (h : scope.takeLabel inv = .ok (target, inv')) :
    inv'.primitives = inv.primitives ∧
      ∀ name, target = .named name → scope.table.AllowsName name := by
  obtain ⟨⟨label, inv₁⟩, htake, h⟩ := ok_of_bind_ok h
  obtain ⟨checked, hcheck, h⟩ := ok_of_bind_ok h
  cases h
  exact ⟨Invocation.take_primitives htake, checkLabel_allows hcheck⟩

end Scope

/-! ## Actions -/

/-- Every primitive that the invocation has emitted fits the table. -/
def Invocation.Fits (t : Table) (inv : Invocation) : Prop := ∀ p ∈ inv.primitives, p.Fits t

namespace Invocation.Fits

variable {t : Table} {inv inv' : Invocation}

theorem of_eq (h : inv.Fits t) (heq : inv'.primitives = inv.primitives) : inv'.Fits t := by
  unfold Invocation.Fits
  rw [heq]
  exact h

theorem emitAll (h : inv.Fits t) {ps : List Primitive} (hps : ∀ p ∈ ps, p.Fits t) :
    (inv.emitAll ps).Fits t :=
  fun p hp => (List.mem_append.mp hp).elim (h p) (hps p)

theorem emit (h : inv.Fits t) {p : Primitive} (hp : p.Fits t) : (inv.emit p).Fits t :=
  h.emitAll fun _ hq => List.mem_singleton.mp hq ▸ hp

end Invocation.Fits

namespace Scope

variable {scope : Scope} {inv inv' : Invocation} {declared : Option ValueType}

theorem emitNamed_fits {opcode : String} (h : inv.Fits scope.table)
    (hemit : scope.emitNamed opcode inv = .ok inv') : inv'.Fits scope.table := by
  unfold emitNamed at hemit
  split at hemit
  · rename_i i hfind
    unfold emitInstruction at hemit
    split at hemit
    · rename_i hform
      cases hemit
      exact h.emit (.insn (.of_find? hfind (by rw [hform]; rfl)))
    · rename_i hform
      obtain ⟨⟨a, inv₁⟩, ha, hemit⟩ := ok_of_bind_ok hemit
      cases hemit
      exact (h.of_eq (Invocation.take_primitives ha)).emit
        (.insn (.of_find? hfind (by rw [hform]; rfl)))
    · rename_i hform
      obtain ⟨⟨a, inv₁⟩, ha, hemit⟩ := ok_of_bind_ok hemit
      obtain ⟨⟨b, inv₂⟩, hb, hemit⟩ := ok_of_bind_ok hemit
      cases hemit
      exact ((h.of_eq (Invocation.take_primitives ha)).of_eq (Invocation.take_primitives hb)).emit
        (.insn (.of_find? hfind (by rw [hform]; rfl)))
    · rename_i hform
      obtain ⟨⟨target, inv₁⟩, htarget, hemit⟩ := ok_of_bind_ok hemit
      cases hemit
      obtain ⟨hsame, hallows⟩ := takeLabel_allows htarget
      exact (h.of_eq hsame).emit (.jump (.of_find? hfind hform) hallows)
    · rename_i hform
      cases hemit
      exact (h.of_eq rfl).emit (.insn (.of_find? hfind (by rw [hform]; trivial)))
  · cases hemit

theorem emitCall_fits {spec : CallSpec} (h : inv.Fits scope.table)
    (hemit : scope.emitCall spec inv = .ok inv') : inv'.Fits scope.table := by
  obtain ⟨⟨descriptor, inv₁⟩, hdescriptor, hemit⟩ := ok_of_bind_ok hemit
  obtain ⟨⟨args, inv₂⟩, hargs, hemit⟩ := ok_of_bind_ok hemit
  cases hemit
  have hsame := ((callDescriptor_reads hdescriptor).trans (allStaticArgs_reads hargs)).primitives
  exact (h.of_eq hsame).emit (.dynCall _)

theorem branchTargets_generated {n : Nesting} {ops : Operands} {targets : List LabelRef}
    (h : branchTargets n ops = .ok targets) (name : String) : .named name ∉ targets := by
  induction ops generalizing targets with
  | nil =>
    cases h
    exact List.not_mem_nil
  | cons field rest ih =>
    obtain ⟨depth, -, h⟩ := ok_of_bind_ok h
    obtain ⟨target, -, h⟩ := ok_of_bind_ok h
    obtain ⟨others, hothers, h⟩ := ok_of_bind_ok h
    cases h
    intro hmem
    cases hmem with
    | tail _ hmem => exact ih hothers hmem

theorem control_fits (hisa : scope.table.isa.Regular) {kind : ControlKind} (h : inv.Fits scope.table)
    (hcontrol : scope.control declared inv kind = .ok inv') : inv'.Fits scope.table := by
  have hgenerated : ∀ (l : Label) (name : String), .generated l = LabelRef.named name →
      scope.table.AllowsName name := nofun
  cases kind with
  | block =>
    cases hcontrol
    exact h.of_eq rfl
  | loop =>
    cases hcontrol
    exact (h.of_eq rfl).emit (.placed _)
  | ifThen c =>
    cases hcontrol
    exact (h.of_eq rfl).emitAll (.test hisa c true (hgenerated _))
  | elseArm =>
    obtain ⟨⟨labels, nesting⟩, -, hcontrol⟩ := ok_of_bind_ok hcontrol
    cases hcontrol
    exact ((h.of_eq rfl).emit (.jump hisa.goto (hgenerated _))).emit (.placed _)
  | close =>
    obtain ⟨⟨frame, nesting⟩, -, hcontrol⟩ := ok_of_bind_ok hcontrol
    cases hcontrol
    refine (h.of_eq rfl).emitAll fun p hp => ?_
    obtain ⟨l, -, rfl⟩ := List.mem_map.mp hp
    exact .placed l
  | branch =>
    obtain ⟨⟨depth, inv₁⟩, hdepth, hcontrol⟩ := ok_of_bind_ok hcontrol
    obtain ⟨target, -, hcontrol⟩ := ok_of_bind_ok hcontrol
    cases hcontrol
    exact (h.of_eq (Invocation.take_primitives hdepth)).emit (.jump hisa.goto (hgenerated _))
  | branchIf c =>
    obtain ⟨⟨depth, inv₁⟩, hdepth, hcontrol⟩ := ok_of_bind_ok hcontrol
    obtain ⟨target, -, hcontrol⟩ := ok_of_bind_ok hcontrol
    cases hcontrol
    exact (h.of_eq (Invocation.take_primitives hdepth)).emitAll (.test hisa c false (hgenerated _))
  | branchTable =>
    obtain ⟨targets, htargets, hcontrol⟩ := ok_of_bind_ok hcontrol
    split at hcontrol
    · cases hcontrol
    · rename_i last hlast
      cases hcontrol
      refine (h.of_eq rfl).emit ⟨rfl, fun name hname => ?_⟩
      rw [Primitive.labels, List.dropLast_append_getLast? last hlast] at hname
      exact absurd hname (branchTargets_generated htargets name)
  | exit =>
    simp only [control] at hcontrol
    split at hcontrol
    · rename_i type inv₁ hreturn
      cases hcontrol
      exact (h.of_eq (Invocation.returnType_reads hreturn).primitives).emit (.insn (hisa.typedReturn type))
    · rename_i inv₁ hreturn
      cases hcontrol
      exact (h.of_eq (Invocation.returnType_reads hreturn).primitives).emit (.insn hisa.voidReturn)

/-- Whatever an action emits fits the table. -/
theorem perform_fits (hisa : scope.table.isa.Regular) (a : Action) :
    Keeps (Invocation.Fits scope.table) (scope.perform declared · a) := by
  intro inv inv' h hact
  cases a with
  | emit opcode => exact emitNamed_fits h hact
  | emitByType opcodes =>
    obtain ⟨⟨type, inv₁⟩, htype, hact⟩ := ok_of_bind_ok hact
    exact emitNamed_fits (h.of_eq (Invocation.valueType_reads htype).primitives) hact
  | load type =>
    obtain ⟨⟨text, inv₁⟩, htext, hact⟩ := ok_of_bind_ok hact
    dsimp only at hact
    split at hact
    · rename_i i hload
      cases hact
      exact (h.of_eq (Invocation.take_primitives htext)).emit (.fixed (hisa.load _ _ _ _ hload))
    · cases hact
  | transform t =>
    simp only [perform, applyTransform] at hact
    split at hact
    · obtain ⟨⟨type, inv₁⟩, htype, hact⟩ := ok_of_bind_ok hact
      obtain ⟨ops, -, hact⟩ := ok_of_bind_ok hact
      cases hact
      exact (h.of_eq (Invocation.valueType_reads htype).primitives).of_eq rfl
    · obtain ⟨ops, -, hact⟩ := ok_of_bind_ok hact
      cases hact
      exact h.of_eq rfl
  | check c =>
    obtain ⟨⟨_, inv₁⟩, hcheck, hact⟩ := ok_of_bind_ok hact
    cases hact
    exact h.of_eq (Invocation.take_primitives hcheck)
  | unsupported hint => cases hact
  | ignored reason =>
    cases hact
    exact h.of_eq rfl
  | dynCall spec => exact emitCall_fits h hact
  | control kind => exact control_fits hisa h hact
  | jumpIf c =>
    obtain ⟨⟨target, inv₁⟩, htarget, hact⟩ := ok_of_bind_ok hact
    cases hact
    obtain ⟨hsame, hallows⟩ := takeLabel_allows htarget
    exact (h.of_eq hsame).emitAll (.test hisa c false hallows)
  | localLabel =>
    cases hact
    refine h.of_eq ?_
    unfold Invocation.insertLocalLabel
    split <;> rfl
  | placeLabel =>
    obtain ⟨⟨target, inv₁⟩, htarget, hact⟩ := ok_of_bind_ok hact
    cases hact
    obtain ⟨hsame, hallows⟩ := takeLabel_allows htarget
    exact (h.of_eq hsame).emit
      ⟨trivial, fun name hname => hallows name (List.mem_singleton.mp hname).symm⟩

end Scope

/-! ## Instructions -/

/-- Everything that an invocation emits fits the table. -/
theorem UnitState.invoke_fits {scope : Scope} (hisa : scope.table.isa.Regular) {state : UnitState}
    {e : Entry} {operands : List String} {inv : Invocation}
    (h : state.invoke scope e operands = .ok inv) : inv.Fits scope.table := by
  have hstable : scope.Stable (Invocation.Fits scope.table) (fun _ => True) (fun _ => True) :=
    { types := fun _ _ _ _ hfits htype => hfits.of_eq (Invocation.valueType_reads htype).primitives
      acts := fun declared a _ => Scope.perform_fits hisa a
      closed := fun _ _ _ _ step _ => step.among_all }
  have hstart : (state.start operands).Fits scope.table := nofun
  exact invoke_stable hstable hstart h

/-- In a library for the Java virtual machine, whatever instructions a unit has been given before, what
an instruction expands to is code for the machine: every instruction is in its table and has the
operands of its form, every jump is in its table as one, every switch is the machine's switch. Every
label by name is one that the library accepts, which none is where branches name a depth. As long as the
counter of the labels, which may start at any number of 32 bits, does not overflow, the unit has taken
every generated label that is mentioned. -/
theorem Library.expansion_is_target_code (lib : Library) (hisa : lib.isa = jvm) (className : String)
    (first : UInt32) (calls : List (String × List String)) {mnemonic : String} {operands : List String}
    {x : Expansion} {state : UnitState}
    (h : (History.ofCalls lib className (.word first false) calls).state.expand lib className mnemonic
      operands = (.ok x, state)) :
    ∀ p ∈ x.primitives, p.IsCode jvm ∧
      (∀ name, .named name ∈ p.labels → lib.table.AllowsName name) ∧
      (state.nesting.overflowed = false →
        ∀ l, .generated l ∈ p.labels → l.Within first.toNat state.nesting.nextLabel) := by
  obtain ⟨id, e, inv, -, hinvoke, hprimitives, rfl⟩ := UnitState.expand_eq_ok h
  have htable : lib.table.isa = jvm := hisa
  have hregular : lib.table.isa.Regular := htable ▸ jvm_regular
  have hfits := @UnitState.invoke_fits ⟨lib.table, className, mnemonic⟩ hregular _ _ _ _ hinvoke
  intro p hp
  rw [hprimitives] at hp
  refine ⟨htable ▸ (hfits p hp).isCode, (hfits p hp).names, fun hcounts l hl => ?_⟩
  have hbefore := History.ofCalls_accounted lib className (.word first false) calls
    (UnitState.since_of_invoke hinvoke hcounts).1
  have hwithin := UnitState.invoke_within hbefore.nesting hinvoke hcounts
  rw [History.ofCalls_first] at hwithin
  exact hwithin.mentioned p hp l hl

/-- A selection by an unsigned comparison inside a loop, of values of which each takes two slots. -/
theorem Library.selection_in_loop_is_target_code :
    Catalog.wasm32Library.isa = jvm ∧
    ∃ x state, (History.ofCalls Catalog.wasm32Library "Module" (.word 5 false)
        [("LOOP", [])]).state.expand Catalog.wasm32Library "Module" "I32_SELECTLT_U" ["I64"] =
          (.ok x, state) ∧
      .jump "iflt" (.generated ⟨7⟩) ∈ x.primitives ∧ state.nesting.overflowed = false ∧
      ∀ p ∈ x.primitives, p.IsCode jvm ∧
        ∀ l, .generated l ∈ p.labels → l.Within 5 state.nesting.nextLabel := by
  have hisa : Catalog.wasm32Library.isa = jvm := rfl
  have hevaluated :
      let outcome := (History.ofCalls Catalog.wasm32Library "Module" (.word 5 false)
        [("LOOP", [])]).state.expand Catalog.wasm32Library "Module" "I32_SELECTLT_U" ["I64"]
      outcome.1.toOption.map (fun x => decide (.jump "iflt" (.generated ⟨7⟩) ∈ x.primitives)) =
        some true ∧ outcome.2.nesting.overflowed = false := by
    decide +kernel
  obtain ⟨hjump, hcounts⟩ := hevaluated
  obtain ⟨x, state, hexpand, hjump⟩ := exists_ok_of_toOption hjump
  rw [hexpand] at hcounts
  refine ⟨hisa, x, state, hexpand, of_decide_eq_true hjump, hcounts, fun p hp => ?_⟩
  obtain ⟨hcode, -, hlabels⟩ :=
    Library.expansion_is_target_code _ hisa "Module" 5 [("LOOP", [])] hexpand p hp
  exact ⟨hcode, hlabels hcounts⟩

/-- The last number of 32 bits: a branch to a block that has taken it jumps to a label that is none of
those from the first to the next, which is zero again. -/
theorem Library.branch_at_last_number_outside :
    Catalog.wasm32Library.isa = jvm ∧
    ∃ x state, (History.ofCalls Catalog.wasm32Library "Module" (.word 4294967295 false)
        [("BLOCK", [])]).state.expand Catalog.wasm32Library "Module" "BR" ["0"] = (.ok x, state) ∧
      x.primitives = [.jump "goto" (.generated ⟨4294967295⟩)] ∧ state.nesting.nextLabel = 0 ∧
      ¬ (Label.mk 4294967295).Within 4294967295 state.nesting.nextLabel := by
  have hevaluated :
      let outcome := (History.ofCalls Catalog.wasm32Library "Module" (.word 4294967295 false)
        [("BLOCK", [])]).state.expand Catalog.wasm32Library "Module" "BR" ["0"]
      outcome.1.toOption.map Expansion.primitives =
        some [.jump "goto" (.generated ⟨4294967295⟩)] ∧ outcome.2.nesting.nextLabel = 0 := by
    decide +kernel
  obtain ⟨hjump, hnext⟩ := hevaluated
  obtain ⟨x, state, hexpand, hprimitives⟩ := exists_ok_of_toOption hjump
  rw [hexpand] at hnext
  refine ⟨rfl, x, state, hexpand, hprimitives, hnext, fun hwithin => ?_⟩
  exact absurd (hnext ▸ hwithin.2) (Nat.not_lt_zero _)

end Lowering
