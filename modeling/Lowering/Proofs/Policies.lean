-- SUMMARY: The error policy cuts a report off and raising warnings relabels it; nothing else depends on them.
import Lowering.Proofs.Rejection

/-!
# Policies

How a unit is configured does not change what becomes of its lines. Raising warnings to errors changes
the severities in the report. Stopping on errors cuts the report off after the first line that is
rejected with an error. A warning about a line that is not rejected stops nothing, also when it is
raised.
-/

namespace Lowering

/-! ## Severities -/

def Diagnostic.raised (d : Diagnostic) : Diagnostic := { d with severity := .error }

theorem UnitConfig.promote_raising (className : String) (policy : ErrorPolicy) :
    UnitConfig.promote ⟨className, policy, true⟩ = Diagnostic.raised := rfl

theorem UnitConfig.promote_plain (className : String) (policy : ErrorPolicy) :
    UnitConfig.promote ⟨className, policy, false⟩ = id := rfl

theorem UnitConfig.promote_withNote (config : UnitConfig) (d : Diagnostic) (note : String) :
    config.promote (d.withNote note) = (config.promote d).withNote note := by
  unfold UnitConfig.promote
  split <;> rfl

theorem Diagnostic.length_eq_counts (ds : List Diagnostic) :
    ds.length = ds.countP isError + ds.countP isWarning := by
  rw [List.length_eq_countP_add_countP isError]
  congr 1
  refine List.countP_congr fun d _ => ?_
  cases hseverity : d.severity <;> simp [isError, isWarning, hseverity]

theorem Diagnostic.counts_raised (ds : List Diagnostic) :
    (ds.map raised).countP isError = ds.length ∧ (ds.map raised).countP isWarning = 0 := by
  constructor
  · rw [List.countP_map, List.countP_eq_length]
    exact fun d _ => rfl
  · rw [List.countP_map, List.countP_eq_zero]
    exact fun d _ => nofun

/-! ## Results of lines -/

/-- The result with its diagnostics as they are reported. -/
def LineResult.promoted (config : UnitConfig) (r : LineResult) : LineResult :=
  { r with diagnostics := r.diagnostics.map config.promote }

namespace UnitState

variable (lib : Library) (config : UnitConfig) (state : UnitState)

/-- Apart from the class, the configuration decides only how a line is reported. -/
theorem lowerLine_eq_promoted (line : SourceLine) :
    state.lowerLine lib config line =
      (state.lowerLine lib { className := config.className } line).promoted config := by
  unfold lowerLine
  split
  · rfl
  · obtain ⟨result, state'⟩ := state.expand lib config.className line.mnemonic line.operands
    cases result with
    | ok x => simp [LineResult.promoted, UnitConfig.promote_plain]
    | error failure => rfl

theorem lowerLines_eq_promoted (lines : List SourceLine) :
    state.lowerLines lib config lines =
      (state.lowerLines lib { className := config.className } lines).map (·.promoted config) := by
  induction lines generalizing state with
  | nil => rfl
  | cons line lines ih =>
    simp only [lowerLines, List.map_cons]
    rw [lowerLine_eq_promoted, ih]
    rfl

theorem afterLines_eq (lines : List SourceLine) :
    state.afterLines lib config lines =
      state.afterLines lib { className := config.className } lines := by
  induction lines generalizing state with
  | nil => rfl
  | cons line lines ih =>
    simp only [afterLines, List.foldl_cons] at ih ⊢
    rw [lowerLine_eq_promoted, ih]
    rfl

theorem endDiagnostics_eq (line : Nat) :
    state.endDiagnostics config line = (state.endDiagnostics {} line).map config.promote := by
  simp only [endDiagnostics, List.map_map]
  refine List.map_congr_left fun failure _ => ?_
  exact (config.promote_withNote _ _).symm

end UnitState

/-! ## Reports -/

namespace Report

/-- The report with its warnings raised to errors. -/
def raised (r : Report) : Report :=
  { r with
    diagnostics := r.diagnostics.map Diagnostic.raised
    errors := r.errors + r.warnings
    warnings := 0 }

/-- The report as it is with warnings raised, or not. -/
def under (r : Report) (raising : Bool) : Report := if raising then r.raised else r

theorem ofResults_promoted (lib : Library) (className : String) (results : List LineResult)
    (ends : List Diagnostic) (config : UnitConfig) :
    ofResults lib className (results.map (·.promoted config)) (ends.map config.promote) =
      (ofResults lib className results ends).under config.warningsAsErrors := by
  have hdiagnostics : (results.map (·.promoted config)).flatMap LineResult.diagnostics ++
      ends.map config.promote =
      (results.flatMap LineResult.diagnostics ++ ends).map config.promote := by
    simp [List.flatMap_map, List.map_flatMap, LineResult.promoted]
  have hitems : (results.map (·.promoted config)).map LineResult.item =
      results.map LineResult.item := by
    simp [Function.comp_def, LineResult.promoted]
  simp only [ofResults, hdiagnostics, hitems]
  obtain ⟨_, _, raising⟩ := config
  cases raising with
  | false => simp [UnitConfig.promote_plain, under]
  | true =>
    simp only [UnitConfig.promote_raising, under, if_true, raised, Diagnostic.counts_raised]
    rw [Diagnostic.length_eq_counts]

theorem diagnostics_prefix (lib : Library) (className : String) (before : List LineResult) (r : LineResult)
    (after : List LineResult) (ends : List Diagnostic) :
    (ofResults lib className (before ++ [r]) []).diagnostics <+:
      (ofResults lib className (before ++ r :: after) ends).diagnostics := by
  refine ⟨after.flatMap LineResult.diagnostics ++ ends, ?_⟩
  simp [ofResults]

theorem errors_pos (lib : Library) (className : String) (before : List LineResult) {r : LineResult}
    (hr : r.isFatal = true) : 0 < (ofResults lib className (before ++ [r]) []).errors := by
  obtain ⟨-, hany⟩ := Bool.and_eq_true_iff.mp hr
  obtain ⟨d, hd, herror⟩ := List.any_eq_true.mp hany
  refine List.countP_pos_iff.mpr ⟨d, ?_, herror⟩
  simp [hd]

/-- The report cut off after some of its lines. -/
def upTo (r : Report) (lines : List ItemReport) : Report :=
  let diagnostics := lines.flatMap ItemReport.diagnostics
  { r with
    items := lines.map ItemReport.item
    diagnostics
    errors := diagnostics.countP Diagnostic.isError
    warnings := diagnostics.countP Diagnostic.isWarning }

theorem upTo_ofResults (lib : Library) (className : String) (results before : List LineResult)
    (ends : List Diagnostic) :
    (ofResults lib className results ends).upTo (before.map LineResult.reported) =
      ofResults lib className before [] := by
  simp [upTo, ofResults, List.flatMap_map, LineResult.reported, Function.comp_def]

end Report

/-- What is reported about a line with warnings raised, or not. -/
def ItemReport.under (raising : Bool) (p : ItemReport) : ItemReport :=
  if raising then { p with diagnostics := p.diagnostics.map Diagnostic.raised } else p

theorem LineResult.reported_promoted (config : UnitConfig) (r : LineResult) :
    (r.promoted config).reported = r.reported.under config.warningsAsErrors := by
  obtain ⟨_, _, raising⟩ := config
  cases raising with
  | false => simp [LineResult.promoted, LineResult.reported, ItemReport.under, UnitConfig.promote_plain]
  | true => rfl

/-- Raising warnings makes every rejected line one that is rejected with an error. -/
theorem ItemReport.Fits.isFatal_raised {p : ItemReport} (h : p.Fits) :
    (p.under true).isFatal = p.item.isRejected := by
  cases hitem : p.item.isRejected with
  | false => simp [ItemReport.under, ItemReport.isFatal, hitem]
  | true =>
    obtain ⟨d, hd⟩ := List.length_eq_one_iff.mp (h.rejected hitem)
    simp [ItemReport.under, ItemReport.isFatal, hitem, hd, Diagnostic.raised, Diagnostic.isError]

/-- The item of a line that is rejected is that line. -/
theorem UnitState.item_eq_of_mem_lowerLines {lib : Library} {config : UnitConfig} {state : UnitState}
    {lines : List SourceLine} {r : LineResult} (hr : r ∈ state.lowerLines lib config lines)
    (hrejected : r.item.isRejected = true) : r.item = .rejected r.source := by
  induction lines generalizing state with
  | nil => cases hr
  | cons line lines ih =>
    rcases List.mem_cons.mp hr with rfl | hr
    · revert hrejected
      unfold lowerLine
      split
      · nofun
      · split
        · nofun
        · exact fun _ => rfl
    · exact ih hr

/-! ## Texts -/

/-- What is reported under a configuration, if no line stops the unit. -/
def fullReport (lib : Library) (config : UnitConfig) (text : String) : Report :=
  let lines := SourceLine.ofText text
  Report.ofResults lib config.className (UnitState.lowerLines lib config {} lines)
    ((UnitState.afterLines lib config {} lines).endDiagnostics config (SourceLine.lastNumber 0 lines))

theorem fullReport_eq_under (lib : Library) (config : UnitConfig) (text : String) :
    fullReport lib config text =
      (fullReport lib { className := config.className } text).under config.warningsAsErrors := by
  rw [fullReport, UnitState.lowerLines_eq_promoted, UnitState.afterLines_eq,
    UnitState.endDiagnostics_eq, Report.ofResults_promoted]
  rfl

theorem lowerText_keepGoing (lib : Library) (className text : String) (raising : Bool) :
    lowerText lib ⟨className, .keepGoing, raising⟩ text =
      .ok ((fullReport lib { className } text).under raising) := by
  rw [← fullReport_eq_under lib ⟨className, .keepGoing, raising⟩]
  exact lowerText_unstopped (by simp)

/-- A unit that stops on errors stops at the first line that is rejected with one. -/
theorem lowerText_stopping {lib : Library} {config : UnitConfig} (hpolicy : config.policy = .stop)
    (text : String) :
    let kept := fullReport lib config text
    let lines := (UnitState.lowerLines lib config {} (SourceLine.ofText text)).map LineResult.reported
    ((∀ p ∈ lines, p.isFatal = false) → lowerText lib config text = .ok kept) ∧
    ∀ before p after, lines = before ++ p :: after → (∀ b ∈ before, b.isFatal = false) →
      p.isFatal = true →
      ∃ source failure, p.item = .rejected source ∧
        p.diagnostics = [config.promote (Diagnostic.ofFailure source.number failure)] ∧
        lowerText lib config text = .error ⟨failure, kept.upTo (before ++ [p])⟩ ∧
        (kept.upTo (before ++ [p])).diagnostics <+: kept.diagnostics ∧
        0 < (kept.upTo (before ++ [p])).errors := by
  intro kept lines
  refine ⟨fun hgoes => lowerText_unstopped fun _ r hr => hgoes _ (List.mem_map_of_mem hr), ?_⟩
  intro before p after hlines hbefore hp
  obtain ⟨results, rest, hresults, rfl, hrest⟩ := List.map_eq_append_iff.mp hlines
  obtain ⟨r, later, rfl, rfl, rfl⟩ := List.map_eq_cons_iff.mp hrest
  have hgoes : ∀ b ∈ results, b.isFatal = false := fun b hb => hbefore _ (List.mem_map_of_mem hb)
  obtain ⟨failure, hstopped, hdiagnostics⟩ := lowerText_stopped hpolicy hresults hgoes hp
  have hupTo : kept.upTo (results.map LineResult.reported ++ [r.reported]) =
      Report.ofResults lib config.className (results ++ [r]) [] := by
    rw [← List.map_singleton, ← List.map_append]
    exact Report.upTo_ofResults ..
  rw [hupTo]
  refine ⟨r.source, failure, ?_, hdiagnostics, hstopped, ?_, Report.errors_pos _ _ results hp⟩
  · exact UnitState.item_eq_of_mem_lowerLines (hresults ▸ List.mem_append_right _ List.mem_cons_self)
      (Bool.and_eq_true_iff.mp hp).1
  · have hkept : kept = Report.ofResults lib config.className (results ++ r :: later) _ :=
      congrArg (Report.ofResults lib config.className · _) hresults
    rw [hkept]
    exact Report.diagnostics_prefix ..

/-- Raising warnings to errors gives the report of a unit that keeps going with its severities raised,
and with all its diagnostics counted as errors. Stopping on errors gives the same report, warnings
raised or not, if no line is rejected with an error. Else it gives the failure of the first such line,
and the report up to that line, with nothing about the end of the unit. -/
theorem lowerText_policies (lib : Library) (className text : String) :
    ∃ (r : Report) (lines : List ItemReport) (ends : List Diagnostic),
      lowerText lib { className } text = .ok r ∧ r.Lists lines ends ∧
      lowerText lib { className, warningsAsErrors := true } text = .ok r.raised ∧
      ∀ raising : Bool,
        let kept := r.under raising
        let reported := lines.map (·.under raising)
        let config : UnitConfig := { className, policy := .stop, warningsAsErrors := raising }
        ((∀ p ∈ reported, p.isFatal = false) → lowerText lib config text = .ok kept) ∧
        ∀ before p after, reported = before ++ p :: after → (∀ b ∈ before, b.isFatal = false) →
          p.isFatal = true →
          ∃ source failure, p.item = .rejected source ∧
            p.diagnostics = [config.promote (Diagnostic.ofFailure source.number failure)] ∧
            lowerText lib config text = .error ⟨failure, kept.upTo (before ++ [p])⟩ ∧
            (kept.upTo (before ++ [p])).diagnostics <+: kept.diagnostics ∧
            0 < (kept.upTo (before ++ [p])).errors := by
  have hlists := Report.lists_ofResults lib className
    (UnitState.lowerLines_fits lib { className } {} (SourceLine.ofText text))
    fun d hd => @UnitState.isFinal_of_mem_endDiagnostics { className }
      (UnitState.afterLines lib { className } {} (SourceLine.ofText text))
      (SourceLine.lastNumber 0 (SourceLine.ofText text)) d hd
  refine ⟨_, _, _, lowerText_keepGoing lib className text false, hlists,
    lowerText_keepGoing lib className text true, fun raising => ?_⟩
  have hstopping := @lowerText_stopping lib ⟨className, .stop, raising⟩ rfl text
  have hlines : (UnitState.lowerLines lib ⟨className, .stop, raising⟩ {} (SourceLine.ofText text)).map
      LineResult.reported =
      ((UnitState.lowerLines lib { className } {} (SourceLine.ofText text)).map
        LineResult.reported).map (·.under raising) := by
    rw [UnitState.lowerLines_eq_promoted, List.map_map, List.map_map]
    exact List.map_congr_left fun r _ => r.reported_promoted _
  rw [fullReport_eq_under] at hstopping
  simp only [hlines] at hstopping
  exact hstopping

/-- An operation that is rejected with a warning, between two that have no effect and warn of that. -/
def unsupportedConstant : String := "MAXSTACK = 1\nLDC 1\nMAXLOCALS = 1"

theorem unsupportedConstant_lowerText_policies :
    ∃ (r : Report) (first p last : ItemReport) (ends : List Diagnostic),
      lowerText Catalog.textifierLibrary {} unsupportedConstant = .ok r ∧
      r.Lists [first, p, last] ends ∧ p.item.isRejected = true ∧
      lowerText Catalog.textifierLibrary { policy := .stop } unsupportedConstant = .ok r ∧
      ∃ failure, lowerText Catalog.textifierLibrary { policy := .stop, warningsAsErrors := true }
        unsupportedConstant =
          .error ⟨failure, r.raised.upTo [first.under true, p.under true]⟩ := by
  have hevaluated : (lowerText Catalog.textifierLibrary {} unsupportedConstant).toOption.map
      (fun r => (r.items.map Item.isRejected, r.diagnostics.any Diagnostic.isError)) =
      some ([false, true, false], false) := by
    decide +kernel
  obtain ⟨r, lines, ends, hr, hlists, -, hpolicies⟩ :=
    lowerText_policies Catalog.textifierLibrary "Module" unsupportedConstant
  rw [hr] at hevaluated
  simp only [Except.toOption, Option.map_some, Option.some.injEq, Prod.mk.injEq, hlists.items,
    List.map_map] at hevaluated
  obtain ⟨hitems, hwarnings⟩ := hevaluated
  obtain ⟨first, _, rfl, hfirst, hrest⟩ := List.map_eq_cons_iff.mp hitems
  obtain ⟨p, _, rfl, hp, hrest⟩ := List.map_eq_cons_iff.mp hrest
  obtain ⟨last, _, rfl, hlast, hrest⟩ := List.map_eq_cons_iff.mp hrest
  obtain rfl := List.map_eq_nil_iff.mp hrest
  have hgoes : ∀ q ∈ [first, p, last].map (·.under false), q.isFatal = false := by
    intro q hq
    obtain ⟨q, hmem, rfl⟩ := List.mem_map.mp hq
    have hquiet : q.diagnostics.any Diagnostic.isError = false := by
      refine List.any_eq_false.mpr fun d hd => List.any_eq_false.mp hwarnings d ?_
      rw [hlists.diagnostics]
      exact List.mem_append_left _ (List.mem_flatMap.mpr ⟨q, hmem, hd⟩)
    simp [ItemReport.under, ItemReport.isFatal, hquiet]
  have hfits : first.Fits ∧ p.Fits := ⟨hlists.lines _ (by simp), hlists.lines _ (by simp)⟩
  obtain ⟨_, failure, -, -, hstopped, -⟩ := (hpolicies true).2 [first.under true] (p.under true)
    [last.under true] rfl (by simpa [hfits.1.isFatal_raised] using hfirst)
    (hfits.2.isFatal_raised.trans hp)
  exact ⟨r, first, p, last, ends, hr, hlists, hp, (hpolicies false).1 hgoes, failure, hstopped⟩

end Lowering
