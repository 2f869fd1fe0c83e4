-- SUMMARY: What comparisons and selections expand to, in every state of a unit.
import Lowering.Proofs.Comparison.Relation
import Lowering.Proofs.Control.Lowering

/-!
# Expansion of comparisons

A comparison that stands alone emits instructions through nested calls and touches nothing else, and what
it emits computes the relation. A selection takes a label of its own for the jump over the exchange of its
two values. What both emit can be evaluated from the table, without a state.
-/

namespace Lowering

/-! ## Straight-line entries -/

namespace Table

/-- The primitives that operations emit, if all they do is emit instructions without operands, call
static methods and call other entries. -/
def straightOps? (t : Table) (called : String → Option (List Primitive)) :
    List Op → Option (List Primitive)
  | [] => some []
  | .act (.emit opcode) :: ops =>
    match t.isa.keyed.find? (textKey opcode) with
    | some ⟨name, .none⟩ => (t.straightOps? called ops).map (.insn name [] :: ·)
    | _ => none
  | .act (.transform (.insertMethod owner method descriptor)) :: .act (.emit opcode) :: ops =>
    match t.isa.keyed.find? (textKey opcode) with
    | some ⟨name, .one⟩ =>
      (t.straightOps? called ops).map (.insn name [s!"{owner}/{method}{descriptor}"] :: ·)
    | _ => none
  | .call name :: ops => do
    let ps ← called name
    let rest ← t.straightOps? called ops
    return ps ++ rest
  | _ => none

/-- The primitives that a call emits through at most `bound` nested entries, if they are
straight-line. -/
def straight? (t : Table) : Nat → String → Option (List Primitive)
  | 0, _ => none
  | bound + 1, name =>
    match t.locate? name with
    | some (e, _) => t.straightOps? (t.straight? bound) e.body
    | none => none

end Table

theorem Invocation.emitAll_emitAll (inv : Invocation) (ps ps' : List Primitive) :
    (inv.emitAll ps).emitAll ps' = inv.emitAll (ps ++ ps') := by
  simp [emitAll]

/-- Whatever the invocation, straight-line operations emit the primitives evaluated for them. -/
theorem Table.straightOps?_sound {scope : Scope} {onCall : CallHandler}
    {called : String → Option (List Primitive)}
    (hcalled : ∀ name ps, called name = some ps →
      ∀ declared inv, onCall name declared inv = .ok (inv.emitAll ps))
    {ops : List Op} {ps : List Primitive} (h : scope.table.straightOps? called ops = some ps)
    (declared : Option ValueType) (inv : Invocation) :
    Op.runAll scope onCall declared inv ops = .ok (inv.emitAll ps) := by
  fun_induction Table.straightOps? scope.table called ops generalizing ps inv with
  | case1 =>
    cases h
    simp [Op.runAll, Invocation.emitAll]
  | case2 opcode ops name hfind ih =>
    obtain ⟨rest, hrest, rfl⟩ := Option.map_eq_some_iff.mp h
    rw [← InstructionSet.find?_eq_keyed] at hfind
    rw [Op.runAll_cons, Op.run, Scope.perform, Scope.emitNamed_none hfind]
    exact (ih hrest _).trans (congrArg _ (Invocation.emitAll_emitAll inv [_] rest))
  | case3 => cases h
  | case4 owner method descriptor opcode ops name hfind ih =>
    obtain ⟨rest, hrest, rfl⟩ := Option.map_eq_some_iff.mp h
    rw [← InstructionSet.find?_eq_keyed] at hfind
    have hemit : scope.emitNamed opcode
        { inv with operands := .text s!"{owner}/{method}{descriptor}" :: inv.operands } =
          .ok (inv.emit (.insn name [s!"{owner}/{method}{descriptor}"])) := by
      simp only [Scope.emitNamed, hfind]
      rfl
    rw [Op.runAll_cons, Op.run]
    show Op.runAll scope onCall declared _ (.act (.emit opcode) :: ops) = _
    rw [Op.runAll_cons, Op.run, Scope.perform, hemit]
    exact (ih hrest _).trans (congrArg _ (Invocation.emitAll_emitAll inv [_] rest))
  | case5 => cases h
  | case6 name ops ih =>
    obtain ⟨first, hfirst, h⟩ := Option.bind_eq_some_iff.mp h
    obtain ⟨rest, hrest, h⟩ := Option.bind_eq_some_iff.mp h
    cases h
    rw [Op.runAll_cons, Op.run, hcalled name first hfirst]
    exact (ih hrest _).trans (congrArg _ (Invocation.emitAll_emitAll inv first rest))
  | case7 => cases h

theorem Table.straight?_sound {scope : Scope} {within bound : Nat} (hbound : within ≤ bound)
    {name : String} {ps : List Primitive} (h : scope.table.straight? within name = some ps)
    (declared : Option ValueType) (inv : Invocation) :
    scope.call bound name declared inv = .ok (inv.emitAll ps) := by
  induction within generalizing bound name ps declared inv with
  | zero => cases h
  | succ within ih =>
    obtain ⟨bound, rfl⟩ := Nat.exists_eq_succ_of_ne_zero (by omega : bound ≠ 0)
    rw [straight?] at h
    split at h
    · rename_i e i hlocate
      have hfind : scope.table.find? name = some e := by rw [find?_eq_locate?, hlocate, Option.map_some]
      simp only [Scope.call, hfind]
      exact straightOps?_sound (fun _ _ hcalled => ih (by omega) hcalled) h _ inv
    · cases h

/-- The primitives of an external entry that is straight-line. -/
def Table.straightEntry? (t : Table) (mnemonic : String) : Option (List Primitive) :=
  match t.locate? mnemonic with
  | some (e, _) => if e.visibility = .external then t.straightOps? (t.straight? 3) e.body else none
  | none => none

/-- A straight-line instruction expands to its primitives and leaves every state as it is. -/
theorem Library.expands_straight {lib : Library} {mnemonic : String} {ps : List Primitive}
    (hlength : 3 ≤ lib.table.entries.length) (h : lib.table.straightEntry? mnemonic = some ps)
    (className : String) (state : UnitState) :
    state.Expands lib className (mnemonic, []) ps state := by
  unfold Table.straightEntry? at h
  split at h
  · rename_i e i hlocate
    obtain ⟨hentry, rfl⟩ := Table.locate?_eq_some hlocate
    split at h
    · rename_i hexternal
      obtain ⟨id, hlookup⟩ := lib.lookup_name (List.mem_of_getElem? hentry) hexternal
      have hrun : Scope.runEntry ⟨lib.table, className, e.name⟩ lib.table.entries.length e
          (state.start []) = .ok ((state.start []).emitAll ps) :=
        Table.straightOps?_sound (fun _ _ => Table.straight?_sound hlength) h _ _
      exact UnitState.expand_of_invoke hlookup (UnitState.invoke_eq_ok_iff.mpr ⟨hrun, rfl⟩)
    · cases h
  · cases h

/-! ## Selections -/

/-- The instruction that exchanges two values, leaving the upper one on top as well. -/
def exchangeOpcode : Width → String
  | .single => "dup_x1"
  | .double => "dup2_x2"

def dropOpcode : Width → String
  | .single => "pop"
  | .double => "pop2"

/-- The exchange of two values. -/
def exchange (width : Width) : List Primitive :=
  plainInsns [exchangeOpcode width, dropOpcode width]

/-- What a selection emits: a test that holds jumps to the label over the exchange. -/
def selection (isa : InstructionSet) (setup : List String) (c : Condition) (width : Width)
    (target : LabelRef) : List Primitive :=
  plainInsns setup ++ (isa.test c false).primitives target ++ exchange width ++ [.label target] ++
    plainInsns [dropOpcode width]

/-- The table has the stack operations that selections use. -/
structure Table.Stacks (t : Table) : Prop where
  exchanges : t.find? "aux_swapnn" =
    some (Catalog.auxiliary "aux_swapnn" [.call "aux_dupn_xn", .call "aux_popn"])
  duplicates : t.find? "aux_dupn_xn" =
    some (Catalog.auxiliary "aux_dupn_xn" [.byWidth "dup_x1" "dup2_x2"])
  drops : t.find? "aux_popn" = some (Catalog.auxiliary "aux_popn" [.byWidth "pop" "pop2"])
  opcodes : ∀ opcode ∈ ["dup_x1", "dup2_x2", "pop", "pop2"], t.isa.find? opcode = some ⟨opcode, .none⟩

namespace Scope

variable {scope : Scope}

/-- An entry that depends on the width of the value type emits one of two instructions. -/
theorem call_byWidth {name : String} {opcode : Width → String}
    (hfind : scope.table.find? name =
      some (Catalog.auxiliary name [.byWidth (opcode .single) (opcode .double)]))
    (hopcode : ∀ width, scope.table.isa.find? (opcode width) = some ⟨opcode width, .none⟩)
    {inv inv' : Invocation} {type : ValueType} (htype : inv.valueType none = .ok (type, inv'))
    (bound : Nat) :
    scope.call (bound + 1) name none inv = .ok (inv'.emitAll (plainInsns [opcode type.width])) := by
  have hemits : ∀ width, Op.runAll scope (scope.call bound) none inv' ([opcode width].map Op.emit) =
      .ok (inv'.emitAll (plainInsns [opcode width])) :=
    fun width => Op.runAll_emits (by simpa using hopcode width)
  simp only [call, hfind, Catalog.auxiliary, Option.or_none, Op.byWidth]
  rw [Op.runAll_cons, Op.run]
  simp only [htype]
  cases type.width with
  | single => exact bind_of_ok (hemits .single) _
  | double => exact bind_of_ok (hemits .double) _

variable (ht : scope.table.Stacks) {inv : Invocation} {type : ValueType}

include ht in
theorem call_drop {inv' : Invocation} (htype : inv.valueType none = .ok (type, inv')) (bound : Nat) :
    scope.call (bound + 1) "aux_popn" none inv =
      .ok (inv'.emitAll (plainInsns [dropOpcode type.width])) :=
  call_byWidth ht.drops (fun width => ht.opcodes _ (by cases width <;> simp [dropOpcode])) htype bound

include ht in
theorem call_exchange {inv' : Invocation} (htype : inv.valueType none = .ok (type, inv'))
    (hkept : ∀ ps, (inv'.emitAll ps).valueType none = .ok (type, inv'.emitAll ps)) (bound : Nat) :
    scope.call (bound + 2) "aux_swapnn" none inv = .ok (inv'.emitAll (exchange type.width)) := by
  have hfirst : scope.call (bound + 1) "aux_dupn_xn" none inv =
      .ok (inv'.emitAll (plainInsns [exchangeOpcode type.width])) :=
    call_byWidth ht.duplicates (fun width => ht.opcodes _ (by cases width <;> simp [exchangeOpcode]))
      htype bound
  rw [call, ht.exchanges]
  simp only [Catalog.auxiliary, Option.or_none]
  rw [Op.runAll_cons, Op.run, bind_of_ok hfirst, Op.runAll_cons, Op.run,
    bind_of_ok (call_drop ht (hkept _) bound), Invocation.emitAll_emitAll]
  rfl

end Scope

/-! ### Tests -/

/-- Whether the operation jumps to the label in the first operand if the condition holds. -/
def Table.testsOn (t : Table) (c : Condition) : Op → Bool
  | .act (.emit opcode) =>
    decide (t.isa.keyed.find? (textKey opcode) = some ⟨opcode, .label⟩) &&
      decide (t.isa.test c false = ⟨[], opcode⟩)
  | .call name =>
    match t.locate? name with
    | some (e, _) =>
      match e.body with
      | [.act (.jumpIf c')] => decide (c' = c)
      | _ => false
    | none => false
  | _ => false

theorem Table.testsOn_sound {scope : Scope} {c : Condition} {test : Op}
    (h : scope.table.testsOn c test = true) (bound : Nat) (inv : Invocation) (target : Label) :
    Op.run scope (scope.call (bound + 1)) none
        { inv with operands := .label target :: inv.operands } test =
      .ok (inv.emitAll ((scope.table.isa.test c false).primitives (.generated target))) := by
  unfold testsOn at h
  split at h
  · rename_i opcode
    simp only [Bool.and_eq_true, decide_eq_true_eq] at h
    obtain ⟨hfind, htest⟩ := h
    rw [← InstructionSet.find?_eq_keyed] at hfind
    rw [Op.run, Scope.perform, Scope.emitNamed, hfind, htest]
    rfl
  · rename_i name
    split at h
    · rename_i e i hlocate
      have hfind : scope.table.find? name = some e := by rw [find?_eq_locate?, hlocate, Option.map_some]
      split at h
      · rename_i c' hbody
        obtain rfl := of_decide_eq_true h
        simp only [Op.run, Scope.call, hfind, hbody]
        rfl
      · cases h
    · cases h
  · cases h

/-! ### Entries -/

/-- The test of a selection after the instructions `setup`, if that is what the operations are. -/
def selectionTest? : List String → List Op → Option Op
  | [], [.act .localLabel, test, .call "aux_swapnn", .act .localLabel, .act .placeLabel,
      .call "aux_popn"] => some test
  | opcode :: setup, .act (.emit opcode') :: ops =>
    if opcode = opcode' then selectionTest? setup ops else none
  | _, _ => none

theorem selectionTest?_eq_some {setup : List String} {ops : List Op} {test : Op}
    (h : selectionTest? setup ops = some test) :
    ops = setup.map Op.emit ++ Catalog.selectOn test := by
  fun_induction selectionTest? setup ops with
  | case1 test' =>
    cases h
    rfl
  | case2 opcode setup ops ih => rw [ih h, List.map_cons, List.cons_append, Op.emit]
  | case3 => cases h
  | case4 => cases h

/-- Whether the mnemonic names a selection by the condition, by the search tree. -/
def Table.selects (t : Table) (mnemonic : String) (setup : List String) (c : Condition) : Bool :=
  match t.locate? mnemonic with
  | none => false
  | some (e, _) =>
    decide (e.visibility = .external) && e.type.isNone &&
    setup.all (fun opcode => decide (t.isa.keyed.find? (textKey opcode) = some ⟨opcode, .none⟩)) &&
    (selectionTest? setup e.body).any (t.testsOn c)

/-- The type of the selected values as it is written is read when it is needed. -/
theorem ResultType.valueType_eq (a : ResultType) {inv : Invocation}
    (hoperands : inv.operands = [.text a.text]) (hannotated : inv.annotated = none) :
    inv.valueType none =
      .ok (a.type, { inv with operands := [], annotated := some a.type }) := by
  simp [Invocation.valueType, hannotated, hoperands, Operands.firstText?, Field.text?, a.reads]

/-- The operations of a selection take a label and emit the selection by it. -/
theorem Scope.runAll_selectOn {scope : Scope} (ht : scope.table.Stacks) {c : Condition} {test : Op}
    (htest : scope.table.testsOn c test = true) (bound : Nat) {inv : Invocation} (a : ResultType)
    (hoperands : inv.operands = [.text a.text]) (hannotated : inv.annotated = none)
    (hlocal : inv.localLabel = none) :
    ∃ inv', Op.runAll scope (scope.call (bound + 2)) none inv (Catalog.selectOn test) = .ok inv' ∧
      inv'.operands = [] ∧ inv'.nesting = inv.nesting.allocate.2 ∧ inv'.nextSite = inv.nextSite ∧
      inv'.primitives = inv.primitives ++
        selection scope.table.isa [] c a.type.width (.generated inv.nesting.allocate.1) := by
  -- The label is taken first, and the type when the values are exchanged.
  let l := inv.nesting.allocate.1
  let labelled : Invocation := { inv with nesting := inv.nesting.allocate.2, localLabel := some l }
  let tested := labelled.emitAll ((scope.table.isa.test c false).primitives (.generated l))
  let typed : Invocation := { tested with operands := [], annotated := some a.type }
  let exchanged := typed.emitAll (exchange a.type.width)
  let placed := exchanged.emit (.label (.generated l))
  have hlabel : inv.insertLocalLabel =
      { labelled with operands := .label l :: labelled.operands } := by
    simp only [Invocation.insertLocalLabel, hlocal]
    rfl
  have htested := Table.testsOn_sound htest (bound + 1) labelled l
  have htype : tested.valueType none = .ok (a.type, typed) := a.valueType_eq hoperands hannotated
  have hexchanged := call_exchange ht htype (fun _ => rfl) bound
  have hagain : Op.run scope (scope.call (bound + 2)) none exchanged (.act .localLabel) =
      .ok { exchanged with operands := [.label l] } := rfl
  have hplaced : Op.run scope (scope.call (bound + 2)) none { exchanged with operands := [.label l] }
      (.act .placeLabel) = .ok placed := rfl
  have hkept : placed.valueType none = .ok (a.type, placed) := rfl
  have hdropped := call_drop ht hkept (bound + 1)
  refine ⟨placed.emitAll (plainInsns [dropOpcode a.type.width]), ?_, rfl, rfl, rfl, ?_⟩
  · rw [Catalog.selectOn, Op.runAll_cons, Op.run, Scope.perform, hlabel]
    refine (Op.runAll_cons ..).trans ((bind_of_ok htested _).trans ?_)
    refine (Op.runAll_cons ..).trans ((bind_of_ok hexchanged _).trans ?_)
    refine (Op.runAll_cons ..).trans ((bind_of_ok hagain _).trans ?_)
    refine (Op.runAll_cons ..).trans ((bind_of_ok hplaced _).trans ?_)
    exact (Op.runAll_cons ..).trans (bind_of_ok hdropped _)
  · simp [placed, exchanged, typed, tested, labelled, Invocation.emitAll, Invocation.emit, selection,
      plainInsns, l]

/-- A selection expands, in every state, to the selection by the next label. -/
theorem Library.expands_selection {lib : Library} (ht : lib.table.Stacks)
    (hlength : 3 ≤ lib.table.entries.length) {mnemonic : String} {setup : List String} {c : Condition}
    (h : lib.table.selects mnemonic setup c = true) (className : String) (state : UnitState)
    (a : ResultType) :
    state.Expands lib className (mnemonic, [a.text])
      (selection lib.table.isa setup c a.type.width (.generated state.nesting.allocate.1))
      ⟨state.nesting.allocate.2, state.nextSite⟩ := by
  unfold Table.selects at h
  split at h
  · cases h
  · rename_i e i hlocate
    obtain ⟨hentry, rfl⟩ := Table.locate?_eq_some hlocate
    simp only [Bool.and_eq_true, List.all_eq_true, decide_eq_true_eq, Option.isNone_iff_eq_none,
      Option.any_eq_true] at h
    obtain ⟨⟨⟨hexternal, htype⟩, hsetup⟩, test, htest, htests⟩ := h
    obtain ⟨id, hlookup⟩ := lib.lookup_name (List.mem_of_getElem? hentry) hexternal
    obtain ⟨bound, hbound⟩ := Nat.exists_eq_add_of_le' hlength
    let scope : Scope := ⟨lib.table, className, e.name⟩
    have hemits : Op.runAll scope (scope.call lib.table.entries.length) none (state.start [a.text])
        (setup.map Op.emit) = .ok ((state.start [a.text]).emitAll (plainInsns setup)) :=
      Op.runAll_emits fun opcode hopcode => by
        rw [InstructionSet.find?_eq_keyed]
        exact hsetup opcode hopcode
    obtain ⟨inv, hrun, hoperands, hnesting, hsite, hprimitives⟩ :=
      @Scope.runAll_selectOn scope ht c test htests (bound + 1)
        ((state.start [a.text]).emitAll (plainInsns setup)) a rfl rfl rfl
    have hentire : scope.runEntry lib.table.entries.length e (state.start [a.text]) = .ok inv := by
      rw [Scope.runEntry, htype, selectionTest?_eq_some htest, Op.runAll_append, bind_of_ok hemits,
        hbound]
      exact hrun
    obtain ⟨x, hexpand, hx⟩ := UnitState.expand_of_invoke hlookup
      (UnitState.invoke_eq_ok_iff.mpr ⟨hentire, hoperands⟩)
    have hunit : inv.unit = ⟨state.nesting.allocate.2, state.nextSite⟩ := by
      rw [Invocation.unit, hnesting, hsite]
      rfl
    refine ⟨x, hunit ▸ hexpand, hx.trans (hprimitives.trans ?_)⟩
    simp [scope, selection, Invocation.emitAll, UnitState.start, plainInsns]

/-! ## WebAssembly -/

namespace Catalog

theorem wasm32_find? {e : Entry} (he : e ∈ auxiliaryEntries) : wasm32.find? e.name = some e := by
  refine Table.find?_eq_some_of_mem wasm32_ordered.distinct ?_
  simp [wasm32, wasmTable_entries, wasmEntries, he]

theorem wasm32_stacks : wasm32.Stacks where
  exchanges := wasm32_find? (List.mem_of_getElem? (i := 15) rfl)
  duplicates := wasm32_find? (List.mem_of_getElem? (i := 14) rfl)
  drops := wasm32_find? (List.mem_of_getElem? (i := 12) rfl)
  opcodes := by decide +kernel

theorem wasm32_length : 3 ≤ wasm32.entries.length := by decide +kernel

/-- The table has a selection, and every comparison both alone and fused with a selection. -/
theorem wasm32_comparisons : wasm32.selects "SELECT" [] .nonZero = true ∧ ∀ c : Comparison,
    wasm32.straightEntry? c.name = some (c.code.map Instr.primitive) ∧
      wasm32.selects c.selectName (c.setup.map fun i => i.fixed.opcode) c.condition = true := by
  have hall : (wasm32.selects "SELECT" [] .nonZero && Comparison.all.all fun c =>
      decide (wasm32.straightEntry? c.name = some (c.code.map Instr.primitive)) &&
        wasm32.selects c.selectName (c.setup.map fun i => i.fixed.opcode) c.condition) = true := by
    decide +kernel
  simp only [Bool.and_eq_true, List.all_eq_true, decide_eq_true_eq] at hall
  exact ⟨hall.1, fun c => hall.2 c c.mem_all⟩

/-- Every entry of the table that compares is one of the comparisons. -/
theorem comparisonEntries_named {e : Entry} (he : e ∈ comparisonEntries) :
    ∃ c : Comparison, e.name = c.name := by
  have hall : (comparisonEntries.all fun e => Comparison.all.any fun c =>
      Nat.beq (textKey e.name) (textKey c.name)) = true := by
    decide +kernel
  obtain ⟨c, -, hc⟩ := List.any_eq_true.mp (List.all_eq_true.mp hall e he)
  rw [Table.beq_textKey, beq_iff_eq] at hc
  exact ⟨c, hc⟩

end Catalog

/-! ## Comparisons that stand alone -/

/-- The entries that compare are the comparisons, and these expand in every state to instructions without
a jump. On all operands, whatever integer of the right sign the platform returns for them and however it
orders floats, they leave one in place of the operands if the relation holds, and else zero. -/
theorem Catalog.wasm32_comparisons_compute :
    (∀ e ∈ comparisonEntries, ∃ c : Comparison, e.name = c.name) ∧
    ∀ {p : Platform} {c : Comparison} (x : Comparison.Operands p c) (className : String)
      (state : UnitState) (s : Stack p),
      ∃ code, state.Expands wasm32Library className (c.name, []) code state ∧
        (∀ primitive ∈ code, ∃ opcode operands, primitive = .insn opcode operands) ∧
        p.run code ⟨none, x.values ++ s⟩ = some ⟨none, .int (if x.holds then 1 else 0) :: s⟩ := by
  refine ⟨fun e he => comparisonEntries_named he, ?_⟩
  intro p c x className state s
  have hstraight := (wasm32_comparisons.2 c).1
  refine ⟨c.code.map Instr.primitive, ?_, ?_, ?_⟩
  · exact @Library.expands_straight wasm32Library _ _ wasm32_length hstraight className state
  · intro primitive hprimitive
    obtain ⟨i, -, rfl⟩ := List.mem_map.mp hprimitive
    exact ⟨_, _, rfl⟩
  · exact Platform.run_instrs (Comparison.code_exec x s)

/-- The integer farthest from zero that stands for an ordering. -/
def farthest : Ordering → BitVec 32
  | .lt => BitVec.intMin 32
  | .eq => 0
  | .gt => BitVec.intMax 32

theorem sign_farthest (o : Ordering) : sign (farthest o) = o := by
  cases o <;> decide

/-- A platform that returns the least and the greatest integer for a comparison. Its floats are the
integers and one float that is not a number. -/
def Platform.farApart : Platform where
  Single := Option Int
  Double := Option Int
  singleOrder := fun a b => do return ordering (← a) (← b)
  doubleOrder := fun a b => do return ordering (← a) (← b)
  intCompare := fun a b => farthest (ordering a.toInt b.toInt)
  intCompareUnsigned := fun a b => farthest (ordering a.toNat b.toNat)
  longCompareUnsigned := fun a b => farthest (ordering a.toNat b.toNat)
  sign_intCompare := fun _ _ => sign_farthest _
  sign_intCompareUnsigned := fun _ _ => sign_farthest _
  sign_longCompareUnsigned := fun _ _ => sign_farthest _

/-- The least integer is not greater than the greatest when both are signed, but is when both are
unsigned. A float that is not a number is not less than another, but differs from it. -/
theorem Catalog.farApart_comparisons_compute :
    let state : UnitState := ⟨{}, 0⟩
    let least : Value .farApart := .int (BitVec.intMin 32)
    let greatest : Value .farApart := .int (BitVec.intMax 32)
    let leaves (mnemonic : String) (operands : Stack .farApart) (result : BitVec 32) : Prop :=
      ∃ code, state.Expands wasm32Library "Module" (mnemonic, []) code state ∧
        Platform.farApart.run code ⟨none, operands⟩ = some ⟨none, [.int result]⟩
    leaves "I32_GT_S" [greatest, least] 0 ∧ leaves "I32_GT_U" [greatest, least] 1 ∧
    leaves "F64_LT" [.double (some 3), .double none] 0 ∧
    leaves "F64_NE" [.double (some 3), .double none] 1 := by
  intro state least greatest leaves
  have hleaves : ∀ {c : Comparison} (x : c.Operands .farApart),
      leaves c.name x.values (if x.holds then 1 else 0) := by
    intro c x
    obtain ⟨code, hexpands, -, hrun⟩ := wasm32_comparisons_compute.2 x "Module" state []
    rw [List.append_nil] at hrun
    exact ⟨code, hexpands, hrun⟩
  refine ⟨?_, ?_, ?_, ?_⟩
  · exact hleaves (.int (.gt .signed) (BitVec.intMin 32) (BitVec.intMax 32))
  · exact hleaves (.int (.gt .unsigned) (BitVec.intMin 32) (BitVec.intMax 32))
  · exact hleaves (.double .lt none (some 3))
  · exact hleaves (.double .ne none (some 3))

end Lowering
