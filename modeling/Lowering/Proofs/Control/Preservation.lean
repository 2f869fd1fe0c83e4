-- SUMMARY: Lowering structured control keeps what a program does.
import Lowering.Proofs.Control.Lowering
import Lowering.Proofs.LabelHistory

/-!
# Preservation of structured control

What the lines of a structured program expand to visits what the program visits, whatever the tests find.
The shape of the code is that of the program, and the labels of a unit are all different, so the
simulation applies.
-/

namespace Lowering

/-! ## The labels of the code -/

/-- Where all lines expand, the history of the unit is their expansion. -/
theorem History.foldl_expand {lib : Library} {className : String} {h : History} {lines : List Line}
    {code : List Primitive} {state : UnitState}
    (hlines : h.state.expandAll lib className lines = .ok (code, state)) :
    let h' := lines.foldl (History.expand lib className) h
    h'.output = h.output ++ code ∧ h'.state = state := by
  induction lines generalizing h code with
  | nil =>
    cases hlines
    exact ⟨(List.append_nil _).symm, rfl⟩
  | cons line lines ih =>
    obtain ⟨ps, state₁, code', ⟨x, hline, rfl⟩, hrest, rfl⟩ := UnitState.expandAll_cons_eq_ok hlines
    have hexpand : (h.expand lib className line).state = state₁ ∧
        (h.expand lib className line).output = h.output ++ x.primitives := by
      simp only [History.expand, hline, and_self]
    rw [← hexpand.1] at hrest
    obtain ⟨houtput, hstate⟩ := ih hrest
    rw [hexpand.2, List.append_assoc] at houtput
    exact ⟨houtput, hstate⟩

section

variable {lib : Library} {className : String} {counter : LabelCounter} {lines : List Line}
  {code : List Primitive} {state : UnitState}
  (hlines : UnitState.expandAll lib className { nesting := { counter } } lines = .ok (code, state))

include hlines

theorem overflowed_of_unbounded (hcounter : counter.Unbounded) : state.nesting.overflowed = false := by
  obtain ⟨-, rfl⟩ := History.foldl_expand (h := History.begin counter) hlines
  exact LabelCounter.Unbounded.overflowed
    (History.ofCalls_counter (fun _ => .advance) lib className hcounter lines)

/-- In a table whose entries place the labels they take, no label is placed twice unless their numbers run
out. -/
theorem placedLabels_nodup (hplaces : lib.table.PlacesOwn) (hcounts : state.nesting.overflowed = false) :
    (placedLabels code).Nodup := by
  have hexpanded := History.foldl_expand (h := History.begin counter) hlines
  have houtput : (History.ofCalls lib className counter lines).output = code := hexpanded.1
  have hcounts' : (History.ofCalls lib className counter lines).overflowed = false :=
    (congrArg (·.nesting.overflowed) hexpanded.2).trans hcounts
  rw [List.nodup_iff_count_le_one]
  intro l
  have hsettled := History.ofCalls_settled hplaces counter lines hcounts' l
  simp only [held, houtput, supplied] at hsettled
  split at hsettled <;> omega

end

/-! ## Runs of whole programs -/

/-- Outside all constructs, a run that code follows up to its end is a run of the code. -/
theorem Follows.exists_flatRun {program code : List Primitive} {bound : Nat} {o : Outcomes} {r : Run}
    (h : Follows program bound [] code o [] r) :
    r.exit ∈ [Exit.fell, Exit.returned, Exit.unfinished] ∧
      ∃ steps, flatRun program steps code o = r ∧ (r.exit = .unfinished → bound ≤ steps) := by
  cases h with
  | @fell steps visited rest h =>
    refine ⟨by simp, 1 + steps, ?_, fun hexit => Exit.noConfusion hexit⟩
    rw [h, flatRun, flatStep, Run.after, List.append_nil]
  | branched hpos hl hcode h => cases hl
  | @returned steps visited rest h =>
    refine ⟨by simp, steps, ?_, fun hexit => Exit.noConfusion hexit⟩
    rw [← h 0, Nat.zero_add]
  | @unfinished steps code' visited rest hbound h =>
    refine ⟨by simp, steps, ?_, fun _ => hbound⟩
    rw [← Nat.zero_add steps, h, flatRun, Run.after, List.append_nil]

/-- Code of the shape of a program, in which no label is placed twice, runs as the program does. -/
theorem Program.Lowered.flatRun_agrees {p : Program} {code : List Primitive} (hcode : p.Lowered [] code)
    (hnodup : (placedLabels code).Nodup) (o : Outcomes) :
    (∀ bound, (p.exec bound o).exit ∈ [Exit.fell, Exit.returned, Exit.unfinished] ∧
      ∃ steps, flatRun code steps code o = p.exec bound o) ∧
    ∀ steps, ∃ bound, (flatRun code steps code o).Extends (p.exec bound o) := by
  have hfollows : ∀ bound, Follows code bound [] code o [] (p.exec bound o) := by
    intro bound
    have hprogram : code ++ [] <:+ code := ⟨[], by rw [List.nil_append, List.append_nil]⟩
    have h := p.simulated hnodup bound hcode hprogram nofun o
    rwa [List.append_nil] at h
  refine ⟨fun bound => ?_, fun steps => ?_⟩
  · obtain ⟨hexit, steps, hrun, -⟩ := (hfollows bound).exists_flatRun
    exact ⟨hexit, steps, hrun⟩
  · -- A structured run with this bound ends, or takes at least as many steps.
    obtain ⟨-, steps', hrun, hbound⟩ := (hfollows steps).exists_flatRun
    refine ⟨steps, ?_⟩
    rw [← hrun] at hbound ⊢
    rcases Nat.le_total steps steps' with hle | hle
    · obtain ⟨more, rfl⟩ := Nat.exists_eq_add_of_le hle
      exact flatRun_extends code steps more code o
    · obtain ⟨more, rfl⟩ := Nat.exists_eq_add_of_le hle
      by_cases hexit : (flatRun code steps' code o).exit = .unfinished
      · have hmore : more = 0 := by have := hbound hexit; omega
        rw [hmore]
        exact .refl _
      · rw [(flatRun_extends code steps' more code o).eq_of_finished hexit]
        exact .refl _

/-- In the library of WebAssembly, the lines of every well-nested program expand in a new unit and leave
nothing open, and the code they expand to runs as the program does, whatever its tests find. Every run of
the program, with its loops cut off at any bound, is a run of the code, and every run of the code, cut
off at any step, is a run of the program up to there. The numbers of the labels may start anywhere as long
as they do not run out, and without a bound they never do. -/
theorem Catalog.wasm32_control_preserved (className : String) (counter : LabelCounter) (p : Program)
    (hscoped : p.Scoped 0)
    (hrecorded : UnitState.Recorded wasm32Library className { nesting := { counter } } p.records) :
    ∃ code state, UnitState.expandAll wasm32Library className { nesting := { counter } } p.lines =
        .ok (code, state) ∧ state.nesting.frames = [] ∧
      ((∃ first, counter = .unbounded first) → state.nesting.overflowed = false) ∧
      (state.nesting.overflowed = false → ∀ o : Outcomes,
        (∀ bound, (p.exec bound o).exit ∈ [Exit.fell, Exit.returned, Exit.unfinished] ∧
          ∃ steps, flatRun code steps code o = p.exec bound o) ∧
        ∀ steps, ∃ bound, (flatRun code steps code o).Extends (p.exec bound o)) := by
  rw [← List.append_nil p.records] at hrecorded
  obtain ⟨code, state, h⟩ := p.lowers wasm32_structured hrecorded hscoped
  refine ⟨code, state, h.expands, h.frames, overflowed_of_unbounded h.expands, fun hcounts => ?_⟩
  exact h.lowered.flatRun_agrees (placedLabels_nodup h.expands (placesOwn List.mem_cons_self) hcounts)

/-- Repeats a loop inside a block until a test of two numbers leaves the block. -/
def repeatUntilGreater : Program :=
  let greater : WasmTest := ⟨.fused "I32" "GT_U" (.unsignedInt .gt), by decide⟩
  .block
    (.loop
      (.plain ("I32_CONST", ["7"]) [.insn "bipush" ["7"]]
        (.branchIf greater ⟨"1", 1, rfl⟩ (.branch ⟨"0x0", 0, rfl⟩ .done)))
      .done)
    (.exit none .done)

theorem repeatUntilGreater_control_preserved :
    repeatUntilGreater.Scoped 0 ∧
    ∀ counter ∈ [LabelCounter.unbounded 3, .word 4294967292 false],
      UnitState.Recorded Catalog.wasm32Library "Module" { nesting := { counter } }
        repeatUntilGreater.records ∧
      ∃ code state, UnitState.expandAll Catalog.wasm32Library "Module" { nesting := { counter } }
          repeatUntilGreater.lines = .ok (code, state) ∧ state.nesting.overflowed = false ∧
        ∀ o steps, ∃ bound, (flatRun code steps code o).Extends (repeatUntilGreater.exec bound o) := by
  have hscoped : repeatUntilGreater.Scoped 0 := ⟨⟨⟨by decide, by decide, trivial⟩, trivial⟩, trivial⟩
  have hevaluated : ([LabelCounter.unbounded 3, .word 4294967292 false].all fun counter =>
      UnitState.recorded Catalog.wasm32Library "Module" { nesting := { counter } }
        repeatUntilGreater.records &&
      ((UnitState.expandAll Catalog.wasm32Library "Module" { nesting := { counter } }
        repeatUntilGreater.lines).toOption.any fun expanded => !expanded.2.nesting.overflowed)) = true := by
    decide +kernel
  refine ⟨hscoped, fun counter hcounter => ?_⟩
  have hat := List.all_eq_true.mp hevaluated counter hcounter
  rw [Bool.and_eq_true] at hat
  have hrecorded := UnitState.recorded_of_eval hat.1
  obtain ⟨code, state, hexpand, -, -, hruns⟩ :=
    Catalog.wasm32_control_preserved "Module" counter repeatUntilGreater hscoped hrecorded
  have hcounts : state.nesting.overflowed = false := by
    have hany := hat.2
    rw [hexpand] at hany
    simpa [Except.toOption] using hany
  exact ⟨hrecorded, code, state, hexpand, hcounts, fun o => (hruns hcounts o).2⟩

end Lowering
