-- SUMMARY: Code of the shape of a structured program runs as the program does.
import Lowering.Proofs.Control.Semantics
import Lowering.Proofs.LabelCount

/-!
# Simulation

The code of a structured program has its shape: the code of a construct stands between its labels, and a
branch jumps to the label of a construct around it. As long as no label is placed twice, a jump goes to
the place that the nesting means, so the code visits what the program visits.
-/

namespace Lowering

/-! ## Longer runs -/

/-- The second run goes on where the first was cut off. -/
def Run.Extends (r r' : Run) : Prop := r' = r ∨ (r.exit = .unfinished ∧ r.visited <+: r'.visited)

namespace Run.Extends

variable {r r' r'' : Run}

theorem refl (r : Run) : r.Extends r := .inl rfl

theorem trans (h : r.Extends r') (h' : r'.Extends r'') : r.Extends r'' := by
  rcases h with rfl | ⟨hexit, hvisited⟩
  · exact h'
  · rcases h' with rfl | ⟨-, hvisited'⟩
    · exact .inr ⟨hexit, hvisited⟩
    · exact .inr ⟨hexit, hvisited.trans hvisited'⟩

theorem after (h : r.Extends r') (events : List Event) : (r.after events).Extends (r'.after events) := by
  rcases h with rfl | ⟨hexit, hvisited⟩
  · exact refl _
  · exact .inr ⟨hexit, (List.prefix_append_right_inj events).mpr hvisited⟩

theorem eq_of_finished (h : r.Extends r') (hexit : r.exit ≠ .unfinished) : r' = r :=
  h.resolve_right fun hcut => hexit hcut.1

end Run.Extends

theorem goTo_extends {program : List Primitive} {run run' : List Primitive → Outcomes → Run}
    (h : ∀ code o, (run code o).Extends (run' code o)) (target : LabelRef) (o : Outcomes) :
    (goTo program run target o).Extends (goTo program run' target o) := by
  unfold goTo
  split
  · exact h _ o
  · exact .refl _

theorem flatStep_extends {program : List Primitive} {run run' : List Primitive → Outcomes → Run}
    (h : ∀ code o, (run code o).Extends (run' code o)) (o : Outcomes) (code : List Primitive) :
    (flatStep program run o code).Extends (flatStep program run' o code) := by
  match code with
  | [] => exact .refl _
  | .label _ :: code => exact h code o
  | .jump opcode target :: code =>
    simp only [flatStep]
    split
    · exact goTo_extends h target o
    · split
      · exact .refl _
      · split
        · exact (goTo_extends h target (later o)).after _
        · exact (h code (later o)).after _
  | .tableSwitch _ low default targets :: _ => exact (goTo_extends h _ (later o)).after _
  | .insn opcode operands :: code =>
    simp only [flatStep]
    split
    · exact .refl _
    · exact (h code o).after _
  | .dynCall site :: code => exact (h code o).after _

theorem flatRun_extends (program : List Primitive) (steps more : Nat) (code : List Primitive)
    (o : Outcomes) :
    (flatRun program steps code o).Extends (flatRun program (steps + more) code o) := by
  have hone : ∀ steps code o,
      (flatRun program steps code o).Extends (flatRun program (steps + 1) code o) := by
    intro steps
    induction steps with
    | zero => exact fun code o => .inr ⟨rfl, List.nil_prefix⟩
    | succ steps ih => exact fun code o => flatStep_extends ih o code
  induction more with
  | zero => exact .refl _
  | succ more ih => exact ih.trans (hone _ code o)

/-! ## Reaching a place in the code -/

/-- In `steps` steps the run comes to the code `code'`, and visits `events` on the way. -/
def Reaches (program : List Primitive) (steps : Nat) (code : List Primitive) (o : Outcomes)
    (events : List Event) (code' : List Primitive) (o' : Outcomes) : Prop :=
  ∀ more, flatRun program (more + steps) code o = (flatRun program more code' o').after events

namespace Reaches

variable {program code code' code'' : List Primitive} {o o' o'' : Outcomes}
  {events events' : List Event} {steps steps' : Nat}

theorem refl (program code : List Primitive) (o : Outcomes) : Reaches program 0 code o [] code o :=
  fun _ => rfl

theorem trans (h : Reaches program steps code o events code' o')
    (h' : Reaches program steps' code' o' events' code'' o'') :
    Reaches program (steps' + steps) code o (events ++ events') code'' o'' := by
  intro more
  rw [← Nat.add_assoc, h, h', Run.after_after]

theorem label (target : LabelRef) (code : List Primitive) (o : Outcomes) :
    Reaches program 1 (.label target :: code) o [] code o := fun _ => rfl

theorem goto {target : LabelRef} (h : after? target program = some code') (code : List Primitive)
    (o : Outcomes) : Reaches program 1 (.jump "goto" target :: code) o [] code' o := by
  intro more
  rw [flatRun, flatStep, if_pos rfl, goTo, h]
  rfl

theorem switch {opcode : String} {low : Int} {default : LabelRef} {targets : List LabelRef}
    (h : after? (chosenTarget low default targets (o 0).index) program = some code')
    (code : List Primitive) :
    Reaches program 1 (.tableSwitch opcode low default targets :: code) o [.switched] code'
      (later o) := by
  intro more
  rw [flatRun, flatStep, goTo, h]

end Reaches

/-- A label that is placed once is followed by what stands after it. -/
theorem after?_of_suffix {program rest : List Primitive} {l : Label}
    (hnodup : (placedLabels program).Nodup) (h : .label (.generated l) :: rest <:+ program) :
    after? (.generated l) program = some rest := by
  obtain ⟨front, rfl⟩ := h
  have hfront : l ∉ placedLabels front := by
    rw [placedLabels_append, placedLabels, placedLabels] at hnodup
    intro hl
    exact (List.nodup_append.mp hnodup).2.2 l hl l (by simp [Primitive.placed?]) rfl
  clear hnodup
  induction front with
  | nil => exact if_pos rfl
  | cons p front ih =>
    have hp : p ≠ .label (.generated l) := by
      rintro rfl
      exact hfront (by simp [placedLabels, Primitive.placed?])
    rw [List.cons_append, after?, if_neg hp]
    refine ih fun hl => hfront ?_
    rw [placedLabels, List.filterMap_cons]
    split
    · exact hl
    · exact List.mem_cons_of_mem _ hl

theorem flatStep_straight {program : List Primitive} {run : List Primitive → Outcomes → Run}
    {p : Primitive} (hp : p.isStraight = true) (code : List Primitive) (o : Outcomes) :
    flatStep program run o (p :: code) =
      if p.returns then ⟨[.performed p], o, .returned⟩ else (run code o).after [.performed p] := by
  cases p with
  | insn | dynCall => rfl
  | jump | label | tableSwitch => cases hp

/-! ## Following a run -/

/-- The code does what the run says: it comes to `post` where the run falls through, to the label of
the construct that a branch goes to, and to the end where the run returns. Where the run was cut off, the
code has taken at least `bound` steps. -/
inductive Follows (program : List Primitive) (bound : Nat) (targets : List Label)
    (code : List Primitive) (o : Outcomes) (post : List Primitive) : Run → Prop where
  | fell {steps : Nat} {visited : List Event} {rest : Outcomes}
      (h : Reaches program steps code o visited post rest) :
      Follows program bound targets code o post ⟨visited, rest, .fell⟩
  | branched {steps depth : Nat} {l : Label} {code' : List Primitive} {visited : List Event}
      {rest : Outcomes} (hpos : 0 < steps) (hl : targets[depth]? = some l)
      (hcode : after? (.generated l) program = some code')
      (h : Reaches program steps code o visited code' rest) :
      Follows program bound targets code o post ⟨visited, rest, .branched depth⟩
  | returned {steps : Nat} {visited : List Event} {rest : Outcomes}
      (h : ∀ more, flatRun program (more + steps) code o = ⟨visited, rest, .returned⟩) :
      Follows program bound targets code o post ⟨visited, rest, .returned⟩
  | unfinished {steps : Nat} {code' : List Primitive} {visited : List Event} {rest : Outcomes}
      (hbound : bound ≤ steps) (h : Reaches program steps code o visited code' rest) :
      Follows program bound targets code o post ⟨visited, rest, .unfinished⟩

namespace Follows

variable {program : List Primitive} {bound : Nat} {targets : List Label}
  {code code' post post' : List Primitive} {o o' : Outcomes} {r : Run}

theorem mono (h : Follows program bound targets code o post r) {bound' : Nat} (hle : bound' ≤ bound) :
    Follows program bound' targets code o post r := by
  cases h with
  | fell h => exact .fell h
  | branched hpos hl hcode h => exact .branched hpos hl hcode h
  | returned h => exact .returned h
  | unfinished hbound h => exact .unfinished (Nat.le_trans hle hbound) h

/-- What comes before the code only adds steps and events. -/
theorem after {steps : Nat} {events : List Event} (hbefore : Reaches program steps code o events code' o')
    (h : Follows program bound targets code' o' post r) :
    Follows program (bound + steps) targets code o post (r.after events) := by
  cases h with
  | fell h => exact .fell (hbefore.trans h)
  | branched hpos hl hcode h =>
    exact .branched (Nat.add_pos_left hpos _) hl hcode (hbefore.trans h)
  | @returned steps' visited rest h =>
    refine @returned _ _ _ _ _ _ (steps' + steps) _ _ fun more => ?_
    rw [← Nat.add_assoc, hbefore, h]
    rfl
  | unfinished hbound h => exact .unfinished (Nat.add_le_add_right hbound _) (hbefore.trans h)

theorem andThen (h : Follows program bound targets code o post r) {next : Outcomes → Run}
    (hnext : ∀ o', Follows program bound targets post o' post' (next o')) :
    Follows program bound targets code o post' (r.andThen next) := by
  cases h with
  | @fell steps visited rest h => exact (after h (hnext rest)).mono (Nat.le_add_right _ _)
  | branched hpos hl hcode h => exact .branched hpos hl hcode h
  | returned h => exact .returned h
  | unfinished hbound h => exact .unfinished hbound h

/-- Outside a construct whose exit label is followed by `post'`, a branch to it falls through. -/
theorem leave {exit : Label} (hexit : after? (.generated exit) program = some post')
    (hfall : ∀ o, ∃ steps, Reaches program steps post o [] post' o)
    (h : Follows program bound (exit :: targets) code o post r) :
    Follows program bound targets code o post' r.leave := by
  cases h with
  | @fell steps visited rest h =>
    obtain ⟨steps', hfall⟩ := hfall rest
    have hreaches := h.trans hfall
    rw [List.append_nil] at hreaches
    exact .fell hreaches
  | @branched steps depth l code' visited rest hpos hl hcode h =>
    cases depth with
    | zero =>
      cases hl
      cases hexit.symm.trans hcode
      exact .fell h
    | succ depth => exact .branched hpos hl hcode h
  | returned h => exact .returned h
  | unfinished hbound h => exact .unfinished hbound h

/-- Repeating the body of a loop, to whose start a branch goes back. -/
theorem iterate {entry : Label} {body : Outcomes → Run}
    (hentry : after? (.generated entry) program = some code)
    (hfall : ∀ o, ∃ steps, Reaches program steps post o [] post' o)
    (hbody : ∀ o, Follows program bound (entry :: targets) code o post (body o)) {times : Nat}
    (htimes : times ≤ bound) (o : Outcomes) :
    Follows program times targets code o post' (Lowering.iterate body times o) := by
  induction times generalizing o with
  | zero => exact .unfinished (Nat.zero_le _) (.refl program code o)
  | succ times ih =>
    have hrun := hbody o
    rw [Lowering.iterate]
    generalize body o = r at hrun
    cases hrun with
    | @fell steps visited rest h =>
      obtain ⟨steps', hfall⟩ := hfall rest
      have hreaches := h.trans hfall
      rw [List.append_nil] at hreaches
      exact .fell hreaches
    | @branched steps depth l code' visited rest hpos hl hcode h =>
      cases depth with
      | zero =>
        -- The branch takes at least one step, which makes up for the repetition.
        cases hl
        cases hentry.symm.trans hcode
        exact (after h (ih (Nat.le_of_succ_le htimes) rest)).mono (Nat.add_le_add_left hpos times)
      | succ depth => exact .branched hpos hl hcode h
    | returned h => exact .returned h
    | unfinished hbound h => exact .unfinished (Nat.le_trans htimes hbound) h

end Follows

/-- Straight-line primitives do what performing them says. -/
theorem performing_follows {program ps : List Primitive} (h : ∀ p ∈ ps, p.isStraight = true)
    (bound : Nat) (targets : List Label) (post : List Primitive) (o : Outcomes) :
    Follows program bound targets (ps ++ post) o post (performing ps o) := by
  induction ps with
  | nil => exact .fell (.refl program post o)
  | cons p ps ih =>
    have hp : p.isStraight = true := h p List.mem_cons_self
    have hrest := ih fun q hq => h q (List.mem_cons_of_mem _ hq)
    rw [performing, List.cons_append]
    split
    · rename_i hreturns
      refine @Follows.returned _ _ _ _ _ _ 1 _ _ fun more => ?_
      rw [flatRun, flatStep_straight hp, if_pos hreturns]
    · rename_i hreturns
      have hstep : Reaches program 1 (p :: (ps ++ post)) o [.performed p] (ps ++ post) o := by
        intro more
        rw [flatRun, flatStep_straight hp, if_neg hreturns]
      exact (Follows.after hstep hrest).mono (Nat.le_add_right _ _)

/-! ## Code of the shape of a program -/

/-- The jump of a test, to a label. -/
def Test.code (t : Test) (negated : Bool) (target : Label) : List Primitive :=
  t.front ++ [.jump (Jvm.test t.condition negated).jump (.generated target)]

/-- The code has the shape of the program. The constructs around it have the labels `targets`, to which
branches go, the innermost first. -/
def Program.Lowered : Program → List Label → List Primitive → Prop
  | done, _, code => code = []
  | plain _ ps next, targets, code =>
    (∀ p ∈ ps, p.isStraight = true) ∧ ∃ c, next.Lowered targets c ∧ code = ps ++ c
  | block body next, targets, code =>
    ∃ exit b c, body.Lowered (exit :: targets) b ∧ next.Lowered targets c ∧
      code = b ++ .label (.generated exit) :: c
  | loop body next, targets, code =>
    ∃ entry exit b c, body.Lowered (entry :: targets) b ∧ next.Lowered targets c ∧
      code = .label (.generated entry) :: (b ++ .label (.generated exit) :: c)
  | ifThen test arm next, targets, code =>
    ∃ pending exit a c, arm.Lowered (exit :: targets) a ∧ next.Lowered targets c ∧
      code = test.val.code true pending ++
        (a ++ .label (.generated pending) :: .label (.generated exit) :: c)
  | ifElse test arm other next, targets, code =>
    ∃ pending exit a b c, arm.Lowered (exit :: targets) a ∧ other.Lowered (exit :: targets) b ∧
      next.Lowered targets c ∧
      code = test.val.code true pending ++
        (a ++ .jump "goto" (.generated exit) :: .label (.generated pending) ::
          (b ++ .label (.generated exit) :: c))
  | branch depth next, targets, code =>
    ∃ l c, targets[depth.value]? = some l ∧ next.Lowered targets c ∧
      code = .jump "goto" (.generated l) :: c
  | branchIf test depth next, targets, code =>
    ∃ l c, targets[depth.value]? = some l ∧ next.Lowered targets c ∧
      code = test.val.code false l ++ c
  | branchTable depths last next, targets, code =>
    ∃ (labels : List Label) (default : Label) (c : List Primitive),
      depths.map (fun d => targets[d.value]?) = labels.map some ∧
      targets[last.value]? = some default ∧ next.Lowered targets c ∧
      code = .tableSwitch "tableswitch" 0 (.generated default) (labels.map .generated) :: c
  | exit result next, targets, code =>
    ∃ c, next.Lowered targets c ∧ code = returnInsn result :: c

/-! ## Tests and switches -/

theorem jumpCompare?_jump (c : Condition) : jumpCompare? (Jvm.jump c) = some c.compare := by
  cases c with
  | nonZero | zero => rfl
  | int c | unsignedInt c | long c | unsignedLong c | float c | double c => cases c <;> rfl

theorem jump_ne_goto (c : Condition) : Jvm.jump c ≠ "goto" := by
  intro h
  have hcompare := jumpCompare?_jump c
  rw [h] at hcompare
  cases hcompare

theorem Condition.compare_negate (c : Condition) : c.negate.compare = c.compare.negate := by
  cases c <;> rfl

theorem Test.front_straight (t : Test) : ∀ p ∈ t.front, p.isStraight = true := by
  intro p hp
  rcases List.mem_append.mp hp with hp | hp
  all_goals
    obtain ⟨i, -, rfl⟩ := List.mem_map.mp hp
    rfl

/-- No test of WebAssembly returns before its jump. -/
theorem WasmTest.front_returns (t : WasmTest) : ∀ p ∈ t.val.front, p.returns = false := by
  have hall : Test.all.all (fun t => t.front.all fun p => !p.returns) = true := by decide +kernel
  intro p hp
  have hfront := List.all_eq_true.mp (List.all_eq_true.mp hall t.val t.property) p hp
  simpa using hfront

theorem performing_of_returns {ps : List Primitive} (h : ∀ p ∈ ps, p.returns = false) (o : Outcomes) :
    performing ps o = ⟨ps.map .performed, o, .fell⟩ := by
  induction ps with
  | nil => rfl
  | cons p ps ih =>
    rw [performing, h p List.mem_cons_self, ih fun q hq => h q (List.mem_cons_of_mem _ hq)]
    rfl

/-- A test jumps to its target if its condition holds, or, negated, if it fails. -/
theorem WasmTest.reaches (t : WasmTest) (negated : Bool) {target : Label}
    {program code' : List Primitive} (htarget : after? (.generated target) program = some code')
    (rest : List Primitive) (o : Outcomes) :
    ∃ steps, 0 < steps ∧ Reaches program steps (t.val.code negated target ++ rest) o t.val.events
      (if t.val.holds (o 0) = !negated then code' else rest) (later o) := by
  have hfront := @performing_follows program t.val.front t.val.front_straight 0 []
    (.jump (Jvm.test t.val.condition negated).jump (.generated target) :: rest) o
  rw [performing_of_returns t.front_returns] at hfront
  cases hfront with
  | @fell steps _ _ hfront =>
    have hjump : Reaches program 1
        (.jump (Jvm.test t.val.condition negated).jump (.generated target) :: rest) o [.tested]
        (if t.val.holds (o 0) = !negated then code' else rest) (later o) := by
      intro more
      rw [flatRun, flatStep, Jvm.test, if_neg (jump_ne_goto _)]
      simp only [jumpCompare?_jump, goTo, htarget, Test.holds]
      cases negated with
      | false =>
        simp only [Bool.false_eq_true, if_false, Bool.not_false]
        split <;> rfl
      | true =>
        simp only [if_true, Condition.compare_negate, Outcome.holds_negate, Bool.not_true]
        cases (o 0).holds t.val.condition.compare <;> rfl
    refine ⟨1 + steps, by omega, ?_⟩
    rw [Test.code, List.append_assoc]
    exact hfront.trans hjump

/-- The label that a switch selects is the target of the depth that the table selects. -/
theorem chosenTarget_eq {targets labels : List Label} {depths : List Depth} {last : Depth}
    {default : Label} (hdepths : depths.map (fun d => targets[d.value]?) = labels.map some)
    (hlast : targets[last.value]? = some default) (index : Int) :
    ∃ l, chosenTarget 0 (.generated default) (labels.map .generated) index = .generated l ∧
      targets[(chosenDepth depths last index).value]? = some l := by
  unfold chosenTarget chosenDepth
  split
  · rw [Int.sub_zero, List.getElem?_map]
    have hat : (depths[index.toNat]?).map (fun d => targets[d.value]?) =
        (labels[index.toNat]?).map some := by
      rw [← List.getElem?_map, hdepths, List.getElem?_map]
    cases hlabel : labels[index.toNat]? with
    | none =>
      rw [hlabel] at hat
      rw [Option.map_eq_none_iff.mp hat]
      exact ⟨default, rfl, hlast⟩
    | some l =>
      rw [hlabel] at hat
      obtain ⟨d, hd, htarget⟩ := Option.map_eq_some_iff.mp hat
      rw [hd]
      exact ⟨l, rfl, htarget⟩
  · exact ⟨default, rfl, hlast⟩

/-! ## Simulation -/

theorem returnInsn_straight (result : Option ResultType) :
    (returnInsn result).isStraight = true := by
  cases result <;> rfl

theorem returnInsn_returns (result : Option ResultType) :
    (returnInsn result).returns = true := by
  cases result with
  | none => decide
  | some a => cases h : a.type <;> simp only [returnInsn, h] <;> decide

theorem suffix_of_append {a b program : List Primitive} (h : a ++ b <:+ program) : b <:+ program :=
  (List.suffix_append a b).trans h

theorem suffix_of_cons {p : Primitive} {b program : List Primitive} (h : p :: b <:+ program) :
    b <:+ program :=
  (List.suffix_cons p b).trans h

/-- A jump to any of the labels comes to some place of the code. -/
def AllPlaced (program : List Primitive) (labels : List Label) : Prop :=
  ∀ l ∈ labels, ∃ code, after? (.generated l) program = some code

theorem AllPlaced.cons {program code : List Primitive} {l : Label} {labels : List Label}
    (hl : after? (.generated l) program = some code) (h : AllPlaced program labels) :
    AllPlaced program (l :: labels) :=
  List.forall_mem_cons.mpr ⟨⟨code, hl⟩, h⟩

theorem AllPlaced.of_getElem? {program : List Primitive} {labels : List Label} {depth : Nat} {l : Label}
    (h : AllPlaced program labels) (hl : labels[depth]? = some l) :
    ∃ code, after? (.generated l) program = some code :=
  h l (List.mem_of_getElem? hl)

namespace Program

/-- Wherever code of the shape of the program stands, it does what the program does. -/
def Simulated (program : List Primitive) (bound : Nat) (p : Program) : Prop :=
  ∀ {targets : List Label} {code post : List Primitive}, p.Lowered targets code →
    code ++ post <:+ program → AllPlaced program targets → ∀ o : Outcomes,
      Follows program bound targets (code ++ post) o post (p.exec bound o)

namespace Simulated

variable {program : List Primitive} {bound : Nat} {next : Program}

theorem done : Simulated program bound done := by
  intro targets code post hcode _ _ o
  cases hcode
  exact .fell (.refl program post o)

theorem plain (line : Line) (ps : List Primitive) (ih : Simulated program bound next) :
    Simulated program bound (plain line ps next) := by
  intro targets code post hcode hprogram htargets o
  obtain ⟨hstraight, c, hnext, rfl⟩ := hcode
  rw [List.append_assoc] at hprogram ⊢
  exact (performing_follows hstraight bound targets (c ++ post) o).andThen fun o' =>
    ih hnext (suffix_of_append hprogram) htargets o'

/-! ### Constructs -/

theorem block (hnodup : (placedLabels program).Nodup) {body : Program}
    (ihbody : Simulated program bound body) (ihnext : Simulated program bound next) :
    Simulated program bound (block body next) := by
  intro targets code post hcode hprogram htargets o
  obtain ⟨exit, b, c, hbody, hnext, rfl⟩ := hcode
  rw [List.append_assoc, List.cons_append] at hprogram ⊢
  have hend := suffix_of_append hprogram
  have hexit := after?_of_suffix hnodup hend
  have hrun := ihbody hbody hprogram (htargets.cons hexit) o
  have hleave := hrun.leave hexit fun o => ⟨1, .label _ _ o⟩
  exact hleave.andThen fun o' => ihnext hnext (suffix_of_cons hend) htargets o'

theorem loop (hnodup : (placedLabels program).Nodup) {body : Program}
    (ihbody : Simulated program bound body) (ihnext : Simulated program bound next) :
    Simulated program bound (loop body next) := by
  intro targets code post hcode hprogram htargets o
  obtain ⟨entry, exit, b, c, hbody, hnext, rfl⟩ := hcode
  rw [List.cons_append, List.append_assoc, List.cons_append] at hprogram ⊢
  have hentry := after?_of_suffix hnodup hprogram
  have hstart := suffix_of_cons hprogram
  have hend := suffix_of_append hstart
  have hrepeat := Follows.iterate hentry (fun o => ⟨1, .label _ _ o⟩)
    (ihbody hbody hstart (htargets.cons hentry)) (Nat.le_refl bound) o
  have hrun := hrepeat.andThen fun o' => ihnext hnext (suffix_of_cons hend) htargets o'
  exact (Follows.after (.label _ _ o) hrun).mono (Nat.le_add_right _ _)

theorem ifThen (hnodup : (placedLabels program).Nodup) (test : WasmTest) {arm : Program}
    (iharm : Simulated program bound arm) (ihnext : Simulated program bound next) :
    Simulated program bound (ifThen test arm next) := by
  intro targets code post hcode hprogram htargets o
  obtain ⟨pending, exit, a, c, harm, hnext, rfl⟩ := hcode
  rw [List.append_assoc, List.append_assoc, List.cons_append, List.cons_append] at hprogram ⊢
  have hstart := suffix_of_append hprogram
  have hother := suffix_of_append hstart
  have hend := suffix_of_cons hother
  have hpending := after?_of_suffix hnodup hother
  have hexit := after?_of_suffix hnodup hend
  obtain ⟨steps, -, htest⟩ := test.reaches true hpending (a ++ _) o
  refine (Follows.after htest (Follows.andThen ?_ fun o' =>
    ihnext hnext (suffix_of_cons hend) htargets o')).mono (Nat.le_add_right _ _)
  cases test.val.holds (o 0) with
  | false => exact .fell (.label _ _ (later o))
  | true =>
    have hrun := iharm harm hstart (htargets.cons hexit) (later o)
    exact hrun.leave hexit fun o => ⟨2, (Reaches.label _ _ o).trans (.label _ _ o)⟩

theorem ifElse (hnodup : (placedLabels program).Nodup) (test : WasmTest) {arm other : Program}
    (iharm : Simulated program bound arm) (ihother : Simulated program bound other)
    (ihnext : Simulated program bound next) :
    Simulated program bound (ifElse test arm other next) := by
  intro targets code post hcode hprogram htargets o
  obtain ⟨pending, exit, a, b, c, harm, hother, hnext, rfl⟩ := hcode
  simp only [List.append_assoc, List.cons_append] at hprogram ⊢
  have hstart := suffix_of_append hprogram
  have hswitch := suffix_of_cons (suffix_of_append hstart)
  have hstart' := suffix_of_cons hswitch
  have hend := suffix_of_append hstart'
  have hpending := after?_of_suffix hnodup hswitch
  have hexit := after?_of_suffix hnodup hend
  obtain ⟨steps, -, htest⟩ := test.reaches true hpending (a ++ _) o
  refine (Follows.after htest (Follows.andThen ?_ fun o' =>
    ihnext hnext (suffix_of_cons hend) htargets o')).mono (Nat.le_add_right _ _)
  cases test.val.holds (o 0) with
  | false =>
    have hrun := ihother hother hstart' (htargets.cons hexit) (later o)
    exact hrun.leave hexit fun o => ⟨1, .label _ _ o⟩
  | true =>
    have hrun := iharm harm hstart (htargets.cons hexit) (later o)
    exact hrun.leave hexit fun o => ⟨1, .goto hexit _ o⟩

/-! ### Branches -/

theorem branch (depth : Depth) : Simulated program bound (branch depth next) := by
  intro targets code post hcode _ htargets o
  obtain ⟨l, c, hl, -, rfl⟩ := hcode
  obtain ⟨code', hcode'⟩ := htargets.of_getElem? hl
  exact .branched Nat.one_pos hl hcode' (.goto hcode' _ o)

theorem branchIf (test : WasmTest) (depth : Depth) (ih : Simulated program bound next) :
    Simulated program bound (branchIf test depth next) := by
  intro targets code post hcode hprogram htargets o
  obtain ⟨l, c, hl, hnext, rfl⟩ := hcode
  obtain ⟨code', hcode'⟩ := htargets.of_getElem? hl
  rw [List.append_assoc] at hprogram ⊢
  obtain ⟨steps, hpos, htest⟩ := test.reaches false hcode' (c ++ post) o
  simp only [exec]
  cases hholds : test.val.holds (o 0) with
  | false =>
    simp only [hholds, Bool.not_false, Bool.false_eq_true, if_false] at htest ⊢
    have hrun := ih hnext (suffix_of_append hprogram) htargets (later o)
    exact (Follows.after htest hrun).mono (Nat.le_add_right _ _)
  | true =>
    simp only [hholds, Bool.not_false, if_true] at htest ⊢
    rw [Run.after, List.append_nil]
    exact .branched hpos hl hcode' htest

theorem branchTable (depths : List Depth) (last : Depth) :
    Simulated program bound (branchTable depths last next) := by
  intro targets code post hcode _ htargets o
  obtain ⟨labels, default, c, hdepths, hlast, -, rfl⟩ := hcode
  obtain ⟨l, hchosen, hl⟩ := chosenTarget_eq hdepths hlast (o 0).index
  obtain ⟨code', hcode'⟩ := htargets.of_getElem? hl
  exact .branched Nat.one_pos hl hcode' (.switch (hchosen ▸ hcode') _)

theorem exit (result : Option ResultType) : Simulated program bound (exit result next) := by
  intro targets code post hcode _ _ o
  obtain ⟨c, -, rfl⟩ := hcode
  refine @Follows.returned _ _ _ _ _ _ 1 _ _ fun more => ?_
  rw [flatRun, List.cons_append, flatStep_straight (returnInsn_straight result),
    returnInsn_returns, if_pos rfl]

end Simulated

/-- As long as no label is placed twice, code of the shape of a program does what the program does. -/
theorem simulated {program : List Primitive} (hnodup : (placedLabels program).Nodup) (bound : Nat)
    (p : Program) : Simulated program bound p := by
  induction p with
  | done => exact Simulated.done
  | plain line ps next ih => exact Simulated.plain line ps ih
  | block body next ihbody ihnext => exact Simulated.block hnodup ihbody ihnext
  | loop body next ihbody ihnext => exact Simulated.loop hnodup ihbody ihnext
  | ifThen test arm next iharm ihnext => exact Simulated.ifThen hnodup test iharm ihnext
  | ifElse test arm other next iharm ihother ihnext =>
    exact Simulated.ifElse hnodup test iharm ihother ihnext
  | branch depth next => exact Simulated.branch depth
  | branchIf test depth next ih => exact Simulated.branchIf test depth ih
  | branchTable depths last next => exact Simulated.branchTable depths last
  | exit result next => exact Simulated.exit result

end Program

end Lowering
