-- SUMMARY: A fused comparison does what the comparison does before an if, a branch or a selection.
import Lowering.Proofs.Comparison.Expansion

/-!
# Fused comparisons

A comparison followed by an `if`, a branch or a `select` leaves an integer that is then tested. Fused, the
operands are tested themselves, or the integer that their comparison leaves before it is reduced. In both
cases the test jumps exactly if the comparison holds, or exactly if it does not where it is negated.
-/

namespace Lowering

/-! ## Tests -/

theorem Compare.holds_negated (c : Compare) (negated : Bool) (o : Ordering) :
    (if negated then c.negate else c).holds o = (c.holds o != negated) := by
  cases negated with
  | false => exact (Bool.bne_false _).symm
  | true => exact (c.holds_negate o).trans (Bool.bne_true _).symm

namespace Platform

variable {p : Platform}

theorem run_jump (opcode : String) (target : LabelRef) (s : Stack p) :
    p.run [.jump opcode target] ⟨none, s⟩ = p.jump opcode target s :=
  Option.bind_fun_some _

/-- Instructions that leave an integer, and a jump by its comparison with zero. -/
theorem run_zeroJump {is : List Instr} {s s' : Stack p} {r : BitVec 32}
    (h : Instr.execAll p is s = some (.int r :: s')) (c : Compare) (negated : Bool)
    (target : LabelRef) :
    p.run (is.map Instr.primitive ++ [.jump (Jvm.zeroJump (if negated then c.negate else c)) target])
        ⟨none, s⟩ =
      some ⟨if c.holds (sign r) != negated then some target else none, s'⟩ := by
  rw [run_append, run_instrs h, Option.bind_some, run_jump, jump_zeroJump, Compare.holds_negated]

end Platform

namespace Comparison

variable {p : Platform} {c : Comparison}

/-- The setup and the test of a fused comparison. -/
def test (c : Comparison) (negated : Bool) (target : LabelRef) : List Primitive :=
  c.setup.map Instr.primitive ++ (Jvm.test c.condition negated).primitives target

/-- The comparison that stands alone, and the test whether it has left a number other than zero. -/
def unfusedTest (c : Comparison) (negated : Bool) (target : LabelRef) : List Primitive :=
  c.code.map Instr.primitive ++ (Jvm.test .nonZero negated).primitives target

/-- The test of a comparison that stands alone jumps by the comparison. -/
theorem unfusedTest_run (x : Operands p c) (negated : Bool) (target : LabelRef) (s : Stack p) :
    p.run (c.unfusedTest negated target) ⟨none, x.values ++ s⟩ =
      some ⟨if x.holds != negated then some target else none, s⟩ := by
  have hjump := Platform.run_zeroJump (code_exec x s) .ne negated target
  have hholds : Compare.ne.holds (sign (if x.holds then 1 else 0)) = x.holds := by
    cases x.holds <;> decide
  rw [hholds] at hjump
  rw [← hjump, unfusedTest]
  cases negated <;> rfl

/-- The test of a fused comparison jumps by the comparison. -/
theorem test_run (x : Operands p c) (negated : Bool) (target : LabelRef) (s : Stack p) :
    p.run (c.test negated target) ⟨none, x.values ++ s⟩ =
      some ⟨if x.holds != negated then some target else none, s⟩ := by
  -- Unless the operands are tested themselves, they are compared as they are without the fusion.
  have hcompared : c.test negated target = c.threeWay.map Instr.primitive ++
        [.jump (Jvm.zeroJump (if negated then c.compare.negate else c.compare)) target] →
      p.run (c.test negated target) ⟨none, x.values ++ s⟩ =
        some ⟨if x.holds != negated then some target else none, s⟩ := by
    intro htest
    obtain ⟨r, hexec, hholds, -⟩ := threeWay_exec x s
    rw [htest, Platform.run_zeroJump hexec, hholds]
  cases x with
  | zeroInt a =>
    have hexec : Instr.execAll p [] (.int a :: s) = some (.int a :: s) := rfl
    have hjump := Platform.run_zeroJump hexec .eq negated target
    have hholds : Compare.eq.holds (sign a) = (a == 0) := IntRelation.holds_order .eq a 0
    rw [hholds] at hjump
    cases negated <;> exact hjump
  | zeroLong a => exact hcompared (by cases negated <;> rfl)
  | int r a b =>
    have hholds := IntRelation.holds_order r a b
    cases hread : r.signedness with
    | signed =>
      have htest : (int r).test negated target =
          [.jump (Jvm.intJump (if negated then r.compare.negate else r.compare)) target] := by
        simp only [test, setup, condition, hread]
        cases negated <;> rfl
      simp only [IntRelation.order, hread] at hholds
      rw [htest, Platform.run_jump]
      exact (Platform.jump_intJump _ target a b s).trans
        (by rw [Compare.holds_negated, hholds]; rfl)
    | unsigned =>
      refine hcompared ?_
      simp only [test, setup, condition, threeWay, hread]
      cases negated <;> rfl
  | long r a b =>
    refine hcompared ?_
    cases hread : r.signedness with
    | signed | unsigned =>
      simp only [test, setup, condition, threeWay, hread]
      cases negated <;> rfl
  | float c a b => exact hcompared (by cases c <;> cases negated <;> rfl)
  | double c a b => exact hcompared (by cases c <;> cases negated <;> rfl)

end Comparison

/-! ## Selections -/

namespace Platform

variable {p : Platform}

/-- While a jump is pending, instructions are passed over. -/
theorem run_pending (is : List Instr) (target : LabelRef) (s : Stack p) :
    p.run (is.map Instr.primitive) ⟨some target, s⟩ = some ⟨some target, s⟩ := by
  induction is with
  | nil => rfl
  | cons i is ih => exact ih

/-- The label of a jump ends it. -/
theorem run_label (pending : Option LabelRef) (target : LabelRef) (s : Stack p)
    (h : ∀ l, pending = some l → l = target) :
    p.run [.label target] ⟨pending, s⟩ = some ⟨none, s⟩ := by
  cases pending with
  | none => rfl
  | some l =>
    obtain rfl := h l rfl
    show (some (if l = l then State.mk none s else State.mk (some l) s)).bind some = _
    rw [if_pos rfl, Option.bind_some]

end Platform

/-- The exchange of two values as instructions. -/
def exchangeInstrs : Width → List Instr
  | .single => [.dupX1, .pop]
  | .double => [.dup2X2, .pop2]

def dropInstr : Width → Instr
  | .single => .pop
  | .double => .pop2

section

variable {p : Platform} {width : Width}

theorem dropInstr_exec {v : Value p} (hv : v.width = width) (s : Stack p) :
    Instr.execAll p [dropInstr width] (v :: s) = some s := by
  cases width with
  | single =>
    show (if v.width = .single then some s else none).bind some = _
    rw [if_pos hv, Option.bind_some]
  | double =>
    show ((Stack.topTwo? (v :: s)).map Prod.snd).bind some = _
    rw [Stack.topTwo?_double hv, Option.map_some, Option.bind_some]

variable {first second : Value p} (hfirst : first.width = width) (hsecond : second.width = width)

include hfirst hsecond

theorem exchangeInstrs_exec (s : Stack p) :
    Instr.execAll p (exchangeInstrs width) (second :: first :: s) = some (first :: second :: s) := by
  have hdropped := dropInstr_exec hsecond (first :: second :: s)
  cases width with
  | single =>
    have hexec : Instr.dupX1.exec p (second :: first :: s) = some (second :: first :: second :: s) :=
      if_pos ⟨hsecond, hfirst⟩
    exact (congrArg (·.bind (Instr.execAll p [.pop])) hexec).trans hdropped
  | double =>
    have hexec : Instr.dup2X2.exec p (second :: first :: s) =
        some (second :: first :: second :: s) := by
      show (Stack.topTwo? (second :: first :: s)).bind (fun top => (Stack.topTwo? top.2).bind
        fun next => some (top.1 ++ next.1 ++ top.1 ++ next.2)) = _
      rw [Stack.topTwo?_double hsecond, Option.bind_some, Stack.topTwo?_double hfirst,
        Option.bind_some]
      rfl
    exact (congrArg (·.bind (Instr.execAll p [.pop2])) hexec).trans hdropped

/-- After a test that jumps to the label of a selection, the first value is left, and else the second. -/
theorem selection_run {front : List Primitive} {target : LabelRef} {s₀ s : Stack p} {holds : Bool}
    (hfront : p.run front ⟨none, s₀⟩ =
      some ⟨if holds then some target else none, second :: first :: s⟩) :
    p.run (front ++ exchange width ++ [.label target] ++ plainInsns [dropOpcode width]) ⟨none, s₀⟩ =
      some ⟨none, (if holds then first else second) :: s⟩ := by
  have hexchange : exchange width = (exchangeInstrs width).map Instr.primitive := by
    cases width <;> rfl
  have hdrop : plainInsns [dropOpcode width] = [dropInstr width].map Instr.primitive := by
    cases width <;> rfl
  rw [Platform.run_append, Platform.run_append, Platform.run_append, hfront, hexchange, hdrop]
  cases holds with
  | true =>
    have hpending := Platform.run_pending (exchangeInstrs width) target (second :: first :: s)
    have hlabel := Platform.run_label (some target) target (second :: first :: s) (by simp)
    have hdropped := Platform.run_instrs (dropInstr_exec hsecond (first :: s))
    rw [if_pos rfl, Option.bind_some, hpending, Option.bind_some, hlabel, Option.bind_some, hdropped]
    rfl
  | false =>
    have hexchanged := Platform.run_instrs (exchangeInstrs_exec hfirst hsecond s)
    have hlabel := Platform.run_label none target (first :: second :: s) (by simp)
    have hdropped := Platform.run_instrs (dropInstr_exec hfirst (second :: s))
    rw [if_neg Bool.false_ne_true, Option.bind_some, hexchanged, Option.bind_some, hlabel,
      Option.bind_some, hdropped]
    rfl

end

/-! ## Lines -/

/-- In the state, the lines expand to code that takes the machine from the stack to the result. -/
def UnitState.Executes (lib : Library) (className : String) (state : UnitState) (lines : List Line)
    {p : Platform} (s : Stack p) (result : p.State) : Prop :=
  ∃ code state', state.expandAll lib className lines = .ok (code, state') ∧
    p.run code ⟨none, s⟩ = some result

/-- Both lists of lines expand to code that takes the machine from the stack to the result. -/
def UnitState.Agree (lib : Library) (className : String) (state : UnitState) (lines lines' : List Line)
    {p : Platform} (s : Stack p) (result : p.State) : Prop :=
  state.Executes lib className lines s result ∧ state.Executes lib className lines' s result

namespace UnitState.Expands

variable {lib : Library} {className : String} {state state₁ state₂ : UnitState} {line line' : Line}
  {code code' : List Primitive} {p : Platform} {s : Stack p} {result : p.State}

theorem executes (h : state.Expands lib className line code state₁)
    (hrun : p.run code ⟨none, s⟩ = some result) : state.Executes lib className [line] s result :=
  ⟨code ++ [], state₁, expandAll_cons h rfl, by rwa [List.append_nil]⟩

theorem executes_pair (h : state.Expands lib className line code state₁)
    (h' : state₁.Expands lib className line' code' state₂)
    (hrun : p.run (code ++ code') ⟨none, s⟩ = some result) :
    state.Executes lib className [line, line'] s result :=
  ⟨code ++ (code' ++ []), state₂, expandAll_cons h (expandAll_cons h' rfl), by rwa [List.append_nil]⟩

end UnitState.Expands

namespace Comparison

/-- A fused comparison as a test of structured control. -/
def fusedTest (c : Comparison) : Test :=
  .fused c.type.name c.relation c.condition (c.setup.map fun i => i.fixed.opcode)

theorem fusedTest_mem (c : Comparison) : c.fusedTest ∈ Test.all := by
  have hall : (all.all fun c => decide (c.fusedTest ∈ Test.all)) = true := by decide +kernel
  exact of_decide_eq_true (List.all_eq_true.mp hall c c.mem_all)

theorem test_eq (c : Comparison) (negated : Bool) (target : LabelRef) :
    c.test negated target = plainInsns (c.setup.map fun i => i.fixed.opcode) ++
      (Jvm.test c.condition negated).primitives target := by
  cases c <;> rfl

end Comparison

/-- Every fused instruction of the table is a comparison fused with an `if`, a branch or a selection. -/
theorem Catalog.fusedEntries_named {e : Entry} (he : e ∈ fusedEntries) :
    ∃ c : Comparison, e.name = c.ifName ∨ e.name = c.branchName ∨ e.name = c.selectName := by
  have hall : (fusedEntries.all fun e => Comparison.all.any fun c =>
      [c.ifName, c.branchName, c.selectName].any fun name =>
        Nat.beq (textKey e.name) (textKey name)) = true := by
    decide +kernel
  obtain ⟨c, -, hc⟩ := List.any_eq_true.mp (List.all_eq_true.mp hall e he)
  simp only [List.any_cons, List.any_nil, Bool.or_false, Bool.or_eq_true, Table.beq_textKey,
    beq_iff_eq] at hc
  exact ⟨c, hc⟩

/-- The fused entries are the comparisons fused with an `if`, a branch or a selection. In every state of a
unit and for all operands, each does what the comparison does when it is followed by one. The first arm is
entered, the branch is taken and the first of two values is left exactly if the comparison holds. -/
theorem Catalog.wasm32_fusion_agrees :
    (∀ e ∈ fusedEntries,
      ∃ c : Comparison, e.name = c.ifName ∨ e.name = c.branchName ∨ e.name = c.selectName) ∧
    ∀ {p : Platform} {c : Comparison} (x : Comparison.Operands p c) (className : String)
      (state : UnitState) (s : Stack p),
      state.Agree wasm32Library className [(c.ifName, [])] [(c.name, []), ("IF", [])] (x.values ++ s)
        ⟨if x.holds then none else some (.generated state.nesting.counter.advance.next), s⟩ ∧
      (∀ (depth : Depth) (frame : Frame), state.nesting.frames[depth.value]? = some frame →
        state.Agree wasm32Library className [(c.branchName, [depth.text])]
          [(c.name, []), ("BR_IF", [depth.text])] (x.values ++ s)
          ⟨if x.holds then some (.generated frame.branchTarget) else none, s⟩) ∧
      ∀ (a : ResultType) (first second : Value p),
        first.width = a.type.width → second.width = a.type.width →
        state.Agree wasm32Library className [(c.selectName, [a.text])]
          [(c.name, []), ("SELECT", [a.text])] (x.values ++ second :: first :: s)
          ⟨none, (if x.holds then first else second) :: s⟩ := by
  refine ⟨fun e he => fusedEntries_named he, ?_⟩
  intro p c x className state s
  have hlib := wasm32_structured
  obtain ⟨hselect, hcomparisons⟩ := wasm32_comparisons
  obtain ⟨hstraight, hselects⟩ := hcomparisons c
  let fused : WasmTest := ⟨c.fusedTest, c.fusedTest_mem⟩
  let nonZero : WasmTest := ⟨⟨"IF", "BR_IF", .nonZero, []⟩, List.mem_cons_self⟩
  have hplain := @Library.expands_straight wasm32Library _ _ wasm32_length hstraight className state
  have hentered : ∀ target : LabelRef, (if x.holds != true then some target else none) =
      if x.holds then none else some target := by
    intro target
    cases x.holds <;> rfl
  have hfused := fun negated target s => c.test_eq negated target ▸ Comparison.test_run x negated target s
  have hunfused := Comparison.unfusedTest_run x
  refine ⟨⟨?_, ?_⟩, ?_, ?_⟩
  · refine ((hlib.ifThen fused).ifThen className state).executes ?_
    rw [← hentered]
    exact hfused true _ s
  · refine hplain.executes_pair ((hlib.ifThen nonZero).ifThen className state) ?_
    rw [← hentered]
    exact hunfused true _ s
  · intro depth frame hframe
    refine ⟨((hlib.branchIf fused).branchIf className depth hframe).executes ?_,
      hplain.executes_pair ((hlib.branchIf nonZero).branchIf className depth hframe) ?_⟩
    · rw [← Bool.bne_false x.holds]
      exact hfused false _ s
    · rw [← Bool.bne_false x.holds]
      exact hunfused false _ s
  · intro a first second hfirst hsecond
    refine ⟨(@Library.expands_selection wasm32Library wasm32_stacks wasm32_length _ _ _ hselects
      className state a).executes ?_, hplain.executes_pair (@Library.expands_selection wasm32Library
      wasm32_stacks wasm32_length _ _ _ hselect className state a) ?_⟩
    · rw [← Bool.bne_false x.holds]
      exact selection_run hfirst hsecond (hfused false _ _)
    · rw [← Bool.bne_false x.holds]
      have hrun := selection_run hfirst hsecond
        (hunfused false (.generated state.nesting.allocate.1) (second :: first :: s))
      rw [Comparison.unfusedTest, List.append_assoc, List.append_assoc, List.append_assoc] at hrun
      rw [selection, List.append_assoc, List.append_assoc, List.append_assoc]
      exact hrun

/-- A platform whose floats are all not numbers. -/
def Platform.withoutNumbers : Platform where
  Single := Unit
  Double := Unit
  singleOrder := fun _ _ => none
  doubleOrder := fun _ _ => none
  intCompare := fun a b => ofOrdering (ordering a.toInt b.toInt)
  intCompareUnsigned := fun a b => ofOrdering (ordering a.toNat b.toNat)
  longCompareUnsigned := fun a b => ofOrdering (ordering a.toNat b.toNat)
  sign_intCompare := fun _ _ => sign_ofOrdering _
  sign_intCompareUnsigned := fun _ _ => sign_ofOrdering _
  sign_longCompareUnsigned := fun _ _ => sign_ofOrdering _

/-- Of floats that are not numbers, none is greater than or equal to the other. -/
theorem Catalog.withoutNumbers_fusion_agrees :
    let state : UnitState := ⟨(Nesting.openLoop {} "LOOP").2, 0⟩
    let x : Comparison.Operands .withoutNumbers (.float .ge) := .float .ge () ()
    x.holds = false ∧
    state.Agree wasm32Library "Module" [("F32_IFGE", [])] [("F32_GE", []), ("IF", [])] x.values
      ⟨some (.generated ⟨3⟩), []⟩ ∧
    state.Agree wasm32Library "Module" [("F32_BR_IFGE", ["0"])] [("F32_GE", []), ("BR_IF", ["0"])]
      x.values ⟨none, []⟩ ∧
    state.Agree wasm32Library "Module" [("F32_SELECTGE", ["I64"])]
      [("F32_GE", []), ("SELECT", ["I64"])] (x.values ++ [.long 2, .long 1]) ⟨none, [.long 2]⟩ := by
  intro state x
  obtain ⟨hif, hbranch, hselect⟩ := wasm32_fusion_agrees.2 x "Module" state []
  refine ⟨rfl, hif, ?_, ?_⟩
  · exact hbranch ⟨"0", 0, by decide +kernel⟩ _ rfl
  · exact hselect ⟨"I64", .i64, by decide +kernel⟩ (.long 1) (.long 2) rfl rfl

end Lowering
