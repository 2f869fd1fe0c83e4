-- SUMMARY: Every line has one item, and every failure, notice and open construct has one diagnostic.
import Lowering.Proofs.LineResults
import Lowering.Proofs.Nesting
import Lowering.Proofs.Shipped

/-!
# What is reported about a text

A report has one item for each line that holds something. A line that is rejected has one diagnostic, an
instruction has one for each of its notices, and a label has none. What is still open at the end of a
unit has one for each construct. There are no other diagnostics, also if a line stops the unit, and then
there is nothing about its end.
-/

namespace Lowering

/-! ## Diagnostics -/

/-- Whether the line defines a label. -/
def Library.isLabelLine (lib : Library) (line : SourceLine) : Bool :=
  line.operands.isEmpty && lib.isLabel line.mnemonic

/-- The diagnostic of a construct that is open at the end of a unit, with the number of its last line. -/
def Frame.unclosed (line : Nat) (frame : Frame) : Diagnostic where
  line := line
  mnemonic := some frame.opener
  code := "lfe007"
  severity := .error
  message := (Cause.neverClosed frame.kind).message
  notes := ["construct still open at end of unit"]

namespace UnitConfig

/-- The severity under which something is reported. -/
def reported (config : UnitConfig) (severity : Severity) : Severity :=
  if config.warningsAsErrors then .error else severity

/-- The one diagnostic of a line that fails. -/
def failed (config : UnitConfig) (source : SourceLine) (failure : Failure) : Diagnostic where
  line := source.number
  mnemonic := some source.mnemonic
  code := failure.kind.code
  severity := config.reported failure.severity
  message := failure.message
  help := if failure.kind = .unsupportedOperation then [failure.message] else []

/-- The diagnostic of one notice about a line. -/
def noticed (config : UnitConfig) (source : SourceLine) (notice : String) : Diagnostic where
  line := source.number
  mnemonic := some source.mnemonic
  code := "lfw001"
  severity := config.reported .warning
  message := notice

variable (config : UnitConfig) (source : SourceLine)

theorem promote_ofNotice (notice : String) :
    config.promote (Diagnostic.ofNotice source.number source.mnemonic notice) =
      config.noticed source notice := by
  unfold promote noticed reported
  split <;> rfl

theorem promote_ofFailure {failure : Failure} (h : failure.mnemonic = some source.mnemonic) :
    config.promote (Diagnostic.ofFailure source.number failure) = config.failed source failure := by
  unfold promote failed reported Diagnostic.ofFailure
  rw [h]
  split <;> rfl

theorem promote_neverClosed (line : Nat) (frame : Frame) :
    (config.promote (Diagnostic.ofFailure line
      { cause := .neverClosed frame.kind, mnemonic := some frame.opener })).withNote
        "construct still open at end of unit" = frame.unclosed line := by
  unfold promote Frame.unclosed
  split <;> rfl

theorem promote_mnemonic (d : Diagnostic) : (config.promote d).mnemonic = d.mnemonic := by
  unfold promote
  split <;> rfl

end UnitConfig

/-! ## Lines -/

/-- The failure of an instruction names it as it is written. -/
theorem UnitState.expand_mnemonic {state : UnitState} {lib : Library} {className mnemonic : String}
    {operands : List String} {failure : Failure}
    (h : (state.expand lib className mnemonic operands).1 = .error failure) :
    failure.mnemonic = some mnemonic := by
  unfold expand expandBy at h
  split at h
  · rename_i hlookup
    cases h
    unfold Library.lookup at hlookup
    split at hlookup
    · cases hlookup
      rfl
    · split at hlookup
      · cases hlookup
        rfl
      · split at hlookup
        · cases hlookup
        · cases hlookup
          rfl
  · split at h
    · cases h
      rfl
    · cases h

/-- From a state on, the items come of their lines in order, with the diagnostics and no others, and they
lead to the last state. -/
inductive Reported (lib : Library) (config : UnitConfig) :
    UnitState → List Item → List Diagnostic → UnitState → Prop where
  | nil {state : UnitState} : Reported lib config state [] [] state
  | label {state last : UnitState} {number : Nat} {name : String} {items : List Item}
      {ds : List Diagnostic} (hlabel : lib.isLabelLine ⟨number, name, []⟩ = true)
      (hrest : Reported lib config state items ds last) :
      Reported lib config state (.label number name :: items) ds last
  | instruction {state state' last : UnitState} {source : SourceLine} {x : Expansion}
      {items : List Item} {ds : List Diagnostic} (hlabel : lib.isLabelLine source = false)
      (hexpand : state.expand lib config.className source.mnemonic source.operands = (.ok x, state'))
      (hrest : Reported lib config state' items ds last) :
      Reported lib config state (.instruction source x.indent x.primitives :: items)
        (x.notices.map (config.noticed source) ++ ds) last
  | rejected {state last : UnitState} {source : SourceLine} {failure : Failure} {items : List Item}
      {ds : List Diagnostic} (hlabel : lib.isLabelLine source = false)
      (hexpand : state.expand lib config.className source.mnemonic source.operands = (.error failure, state))
      (hrest : Reported lib config state items ds last) :
      Reported lib config state (.rejected source :: items) (config.failed source failure :: ds) last

namespace UnitState

variable (lib : Library) (config : UnitConfig) (state : UnitState)

theorem lowerLine_item_source (line : SourceLine) :
    (state.lowerLine lib config line).item.source = line := by
  unfold lowerLine
  split
  · rename_i hlabel
    obtain ⟨number, mnemonic, operands⟩ := line
    obtain rfl : operands = [] := List.isEmpty_iff.mp (Bool.and_eq_true_iff.mp hlabel).1
    rfl
  · split <;> rfl

theorem lowerLines_item_source (lines : List SourceLine) :
    ((state.lowerLines lib config lines).map LineResult.item).map Item.source = lines := by
  induction lines generalizing state with
  | nil => rfl
  | cons line lines ih =>
    rw [lowerLines, List.map_cons, List.map_cons, lowerLine_item_source, ih]

/-- One line adds its item and its diagnostics in front of those of the lines after it. -/
theorem lowerLine_reported (line : SourceLine) {items : List Item} {ds : List Diagnostic}
    {last : UnitState}
    (hrest : Reported lib config (state.lowerLine lib config line).state items ds last) :
    Reported lib config state ((state.lowerLine lib config line).item :: items)
      ((state.lowerLine lib config line).diagnostics ++ ds) last := by
  revert hrest
  unfold lowerLine
  split
  · rename_i hlabel
    obtain ⟨number, mnemonic, operands⟩ := line
    obtain rfl : operands = [] := List.isEmpty_iff.mp (Bool.and_eq_true_iff.mp hlabel).1
    exact .label hlabel
  · rename_i hlabel
    rw [Bool.not_eq_true] at hlabel
    split
    · rename_i x state' hexpand
      intro hrest
      have hnotices : (x.notices.map (Diagnostic.ofNotice line.number line.mnemonic)).map
          config.promote = x.notices.map (config.noticed line) := by
        rw [List.map_map]
        exact List.map_congr_left fun notice _ => config.promote_ofNotice line notice
      rw [hnotices]
      exact .instruction hlabel hexpand hrest
    · rename_i failure state' hexpand
      obtain rfl := expand_eq_error hexpand
      rw [config.promote_ofFailure line (expand_mnemonic (congrArg Prod.fst hexpand))]
      exact .rejected hlabel hexpand

theorem lowerLines_reported (lines : List SourceLine) :
    Reported lib config state ((state.lowerLines lib config lines).map LineResult.item)
      ((state.lowerLines lib config lines).flatMap LineResult.diagnostics)
      (state.afterLines lib config lines) := by
  induction lines generalizing state with
  | nil => exact .nil
  | cons line lines ih => exact state.lowerLine_reported lib config line (ih _)

/-- A line that is rejected with an error has one item and one diagnostic, which is about its failure. -/
theorem lowerLine_fatal {lib : Library} {config : UnitConfig} {state : UnitState} {line : SourceLine}
    {failure : Failure} (hfatal : (state.lowerLine lib config line).isFatal = true)
    (hdiagnostics : (state.lowerLine lib config line).diagnostics =
      [config.promote (Diagnostic.ofFailure line.number failure)]) :
    (state.lowerLine lib config line).item = .rejected line ∧
      (state.lowerLine lib config line).diagnostics = [config.failed line failure] := by
  revert hfatal hdiagnostics
  unfold lowerLine
  split
  · nofun
  · split
    · nofun
    · rename_i failure' state' hexpand
      intro _ hdiagnostics
      have hsame := congrArg Diagnostic.mnemonic (List.singleton_inj.mp hdiagnostics)
      simp only [config.promote_mnemonic] at hsame
      have hmnemonic : failure.mnemonic = some line.mnemonic :=
        hsame.symm.trans (expand_mnemonic (congrArg Prod.fst hexpand))
      exact ⟨rfl, by rw [hdiagnostics, config.promote_ofFailure line hmnemonic]⟩

/-! ## Ends of units -/

theorem lowerLine_consistent_nesting (h : state.nesting.Consistent) (line : SourceLine) :
    (state.lowerLine lib config line).state.nesting.Consistent := by
  unfold lowerLine
  split
  · exact h
  · split
    · rename_i hexpand
      obtain ⟨moves, hmoves⟩ := expand_moves hexpand
      rw [hmoves]
      exact h.afterAll moves
    · rename_i hexpand
      obtain rfl := expand_eq_error hexpand
      exact h

theorem afterLines_consistent (h : state.nesting.Consistent) (lines : List SourceLine) :
    (state.afterLines lib config lines).nesting.Consistent := by
  induction lines generalizing state with
  | nil => exact h
  | cons line lines ih => exact ih _ (state.lowerLine_consistent_nesting lib config h line)

/-- Each construct that the lines leave open is reported, the outermost first, and nothing else. -/
theorem endDiagnostics_afterLines (lines : List SourceLine) (line : Nat) :
    (afterLines lib config {} lines).endDiagnostics config line =
      (afterLines lib config {} lines).nesting.frames.reverse.map (Frame.unclosed line) := by
  have hconsistent : (afterLines lib config {} lines).nesting.Consistent :=
    afterLines_consistent lib config {} (.empty _) lines
  rw [endDiagnostics, hconsistent.finish_eq]
  simp only [List.map_map]
  refine List.map_congr_left fun frame _ => ?_
  exact config.promote_neverClosed line frame

end UnitState

/-! ## Texts -/

/-- The report has an item for each of the lines, in order. Its diagnostics are those of the items and then
those about the end of the unit, which is in the last state then. They are counted by their severities. -/
structure Report.Accounts (r : Report) (lib : Library) (config : UnitConfig) (lines : List SourceLine)
    (last : UnitState) (ends : List Diagnostic) : Prop where
  items : r.items.map Item.source = lines
  diagnostics : ∃ ds, Reported lib config {} r.items ds last ∧ r.diagnostics = ds ++ ends
  errors : r.errors = r.diagnostics.countP Diagnostic.isError
  warnings : r.warnings = r.diagnostics.countP Diagnostic.isWarning

theorem Report.ofResults_accounts (lib : Library) (config : UnitConfig) (lines : List SourceLine)
    (ends : List Diagnostic) :
    (Report.ofResults lib config.className (UnitState.lowerLines lib config {} lines) ends).Accounts lib
      config lines (UnitState.afterLines lib config {} lines) ends where
  items := UnitState.lowerLines_item_source lib config {} lines
  diagnostics := ⟨_, UnitState.lowerLines_reported lib config {} lines, rfl⟩
  errors := rfl
  warnings := rfl

/-- The report of a text has one item for each line that holds something, in order. Its diagnostics are,
item by item, one for a line that is rejected and one for each notice of an instruction, and then one for
each construct that is open at the end, the outermost first. If a line stops the unit, the report goes up
to that line, whose failure it ends with, and has nothing about the end. The counts are those of the
diagnostics of each severity. -/
theorem lowerText_reports_each_line (lib : Library) (config : UnitConfig) (text : String) :
    (∀ r, lowerText lib config text = .ok r →
      ∃ last, r.Accounts lib config (SourceLine.ofText text) last
        (last.nesting.frames.reverse.map
          (Frame.unclosed (SourceLine.lastNumber 0 (SourceLine.ofText text))))) ∧
    (∀ stopped, lowerText lib config text = .error stopped →
      ∃ before line after last, SourceLine.ofText text = before ++ line :: after ∧
        stopped.report.Accounts lib config (before ++ [line]) last [] ∧
        stopped.report.items.getLast? = some (.rejected line) ∧
        stopped.report.diagnostics.getLast? = some (config.failed line stopped.failure)) := by
  constructor
  · intro r hr
    rcases lowerText_cases lib config text with hok | ⟨_, _, _, _, _, _, herror⟩
    · obtain rfl := Except.ok.inj (hr.symm.trans hok)
      rw [UnitState.endDiagnostics_afterLines]
      exact ⟨_, Report.ofResults_accounts lib config _ _⟩
    · cases hr.symm.trans herror
  · intro stopped hstopped
    rcases lowerText_cases lib config text with hok | ⟨before, line, after, failure, hlines, hr, herror⟩
    · cases hstopped.symm.trans hok
    · obtain rfl := Except.error.inj (hstopped.symm.trans herror)
      obtain ⟨hitem, hdiagnostics⟩ := UnitState.lowerLine_fatal hr.1 hr.2
      refine ⟨before, line, after, _, hlines, Report.ofResults_accounts lib config _ _, ?_, ?_⟩
      · simp [Report.ofResults, UnitState.lowerLines_append, UnitState.lowerLines, hitem]
      · simp [Report.ofResults, UnitState.lowerLines_append, UnitState.lowerLines, hdiagnostics]

/-- A block that stays open, with an arm in it that belongs to no `if`. -/
def openBlock : String := "BLOCK\nELSE ; no if\n\nNOP"

theorem openBlock_reports_each_line :
    (∃ r last, lowerText Catalog.wasm32Library {} openBlock = .ok r ∧
      r.Accounts Catalog.wasm32Library {} (SourceLine.ofText openBlock) last
        (last.nesting.frames.reverse.map (Frame.unclosed 4)) ∧
      r.diagnostics.map (fun d => (d.line, d.mnemonic)) = [(2, some "ELSE"), (4, some "BLOCK")]) ∧
    ∃ stopped before line after last,
      lowerText Catalog.wasm32Library { policy := .stop } openBlock = .error stopped ∧
      SourceLine.ofText openBlock = before ++ line :: after ∧
      stopped.report.Accounts Catalog.wasm32Library { policy := .stop } (before ++ [line]) last [] ∧
      stopped.report.items.getLast? = some (.rejected line) := by
  have hkept : (lowerText Catalog.wasm32Library {} openBlock).toOption.map
      (fun r => r.diagnostics.map fun d => (d.line, d.mnemonic)) =
      some [(2, some "ELSE"), (4, some "BLOCK")] := by
    decide +kernel
  have hstopped : (lowerText Catalog.wasm32Library { policy := .stop } openBlock).toOption = none := by
    decide +kernel
  have hnumber : SourceLine.lastNumber 0 (SourceLine.ofText openBlock) = 4 := by decide +kernel
  constructor
  · have hreports := (lowerText_reports_each_line Catalog.wasm32Library {} openBlock).1
    rw [hnumber] at hreports
    cases hr : lowerText Catalog.wasm32Library {} openBlock with
    | error stopped =>
      rw [hr] at hkept
      cases hkept
    | ok r =>
      rw [hr] at hkept
      obtain ⟨last, haccounts⟩ := hreports r hr
      exact ⟨r, last, rfl, haccounts, Option.some.inj hkept⟩
  · have hreports := (lowerText_reports_each_line Catalog.wasm32Library { policy := .stop } openBlock).2
    cases hr : lowerText Catalog.wasm32Library { policy := .stop } openBlock with
    | ok r =>
      rw [hr] at hstopped
      cases hstopped
    | error stopped =>
      obtain ⟨before, line, after, last, hlines, haccounts, hitem, -⟩ := hreports stopped hr
      exact ⟨stopped, before, line, after, last, rfl, hlines, haccounts, hitem⟩

end Lowering
