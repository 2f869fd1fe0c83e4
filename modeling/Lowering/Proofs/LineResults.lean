-- SUMMARY: Lowering a text line by line: what becomes of each line, and which of them stops the unit.
import Lowering.Proofs.Runs
import Lowering.Source

/-!
# Results of lines

What becomes of a line depends on the state that the lines before it have left and on nothing else:
neither on what they were reported with, nor on how many of them failed. The report of a unit is the
sequence of these results and what is still open at its end, or the sequence up to a line that stops
the unit.
-/

namespace Lowering

def Item.isRejected : Item → Bool
  | .rejected _ => true
  | _ => false

/-- The line that an item is about. -/
def Item.source : Item → SourceLine
  | .label number name => ⟨number, name, []⟩
  | .instruction source _ _ => source
  | .rejected source => source

namespace Diagnostic

def isError (d : Diagnostic) : Bool := decide (d.severity = .error)

def isWarning (d : Diagnostic) : Bool := decide (d.severity = .warning)

/-- Whether the diagnostic is about the end of a unit. -/
def isFinal (d : Diagnostic) : Bool := d.notes.contains "construct still open at end of unit"

end Diagnostic

/-- The number of the last line, or the given number if there is none. -/
def SourceLine.lastNumber (number : Nat) (lines : List SourceLine) : Nat :=
  lines.foldl (fun _ line => line.number) number

/-- What became of a line, and the state of the unit after it. -/
structure LineResult where
  source : SourceLine
  item : Item
  diagnostics : List Diagnostic
  state : UnitState

/-- What a report says about one line: its item, and the diagnostics about it. -/
structure ItemReport where
  item : Item
  diagnostics : List Diagnostic

/-- Whether the line is rejected with an error, and not just with a warning. -/
def ItemReport.isFatal (p : ItemReport) : Bool := p.item.isRejected && p.diagnostics.any Diagnostic.isError

/-- Diagnostics that can stand with the item: they are about its line, one if the line is rejected, and
else only notices. -/
structure ItemReport.Fits (p : ItemReport) : Prop where
  about : ∀ d ∈ p.diagnostics, d.line = p.item.source.number ∧ d.notes = []
  rejected : p.item.isRejected = true → p.diagnostics.length = 1
  notices : p.item.isRejected = false → ∀ d ∈ p.diagnostics, d.code = "lfw001"

/-- A report goes through some lines one by one, and then to the end of the unit. -/
structure Report.Lists (r : Report) (lines : List ItemReport) (ends : List Diagnostic) : Prop where
  items : r.items = lines.map ItemReport.item
  diagnostics : r.diagnostics = lines.flatMap ItemReport.diagnostics ++ ends
  lines : ∀ p ∈ lines, p.Fits
  ends : ∀ d ∈ ends, d.isFinal = true

/-- What is reported about the line. -/
def LineResult.reported (r : LineResult) : ItemReport := ⟨r.item, r.diagnostics⟩

/-- Whether the line is rejected with an error. -/
def LineResult.isFatal (r : LineResult) : Bool :=
  r.item.isRejected && r.diagnostics.any Diagnostic.isError

namespace UnitState

/-- Lowers one line. -/
def lowerLine (lib : Library) (config : UnitConfig) (state : UnitState) (line : SourceLine) :
    LineResult :=
  if line.operands.isEmpty && lib.isLabel line.mnemonic then
    ⟨line, .label line.number line.mnemonic, [], state⟩
  else
    match state.expand lib config.className line.mnemonic line.operands with
    | (.ok x, state') =>
      ⟨line, .instruction line x.indent x.primitives,
        (x.notices.map (Diagnostic.ofNotice line.number line.mnemonic)).map config.promote, state'⟩
    | (.error failure, state') =>
      ⟨line, .rejected line, [config.promote (Diagnostic.ofFailure line.number failure)], state'⟩

/-- Lowers lines in order, whether or not they fail. -/
def lowerLines (lib : Library) (config : UnitConfig) : UnitState → List SourceLine → List LineResult
  | _, [] => []
  | state, line :: lines =>
    let result := state.lowerLine lib config line
    result :: lowerLines lib config result.state lines

/-- The state after some lines. -/
def afterLines (lib : Library) (config : UnitConfig) (state : UnitState) (lines : List SourceLine) :
    UnitState :=
  lines.foldl (fun state line => (state.lowerLine lib config line).state) state

/-- A line whose entry is invoked without a notice becomes an instruction without a diagnostic. -/
theorem lowerLine_of_invoke {lib : Library} {config : UnitConfig} {state : UnitState} {id : Nat} {e : Entry}
    {inv : Invocation} (line : SourceLine)
    (hlabel : (line.operands.isEmpty && lib.isLabel line.mnemonic) = false)
    (hlookup : lib.lookup line.mnemonic = .ok (id, e))
    (hinvoke : state.invoke ⟨lib.table, config.className, line.mnemonic⟩ e line.operands = .ok inv)
    (hnotices : inv.notices = []) :
    ∃ indent, state.lowerLine lib config line =
      ⟨line, .instruction line indent inv.primitives, [], inv.unit⟩ := by
  obtain ⟨x, hexpand, hprimitives, hquiet⟩ :
      ∃ x, state.expand lib config.className line.mnemonic line.operands = (.ok x, inv.unit) ∧
        x.primitives = inv.primitives ∧ x.notices = [] := by
    simp only [expand, expandBy, hlookup, hinvoke]
    exact ⟨_, rfl, rfl, hnotices⟩
  refine ⟨x.indent, ?_⟩
  rw [lowerLine, if_neg (by simp [hlabel])]
  simp only [hexpand, hprimitives, hquiet, List.map_nil]

theorem lowerLine_source (lib : Library) (config : UnitConfig) (state : UnitState) (line : SourceLine) :
    (state.lowerLine lib config line).source = line := by
  unfold lowerLine
  split
  · rfl
  · split <;> rfl

theorem lowerLines_source (lib : Library) (config : UnitConfig) (state : UnitState)
    (lines : List SourceLine) : (state.lowerLines lib config lines).map LineResult.source = lines := by
  induction lines generalizing state with
  | nil => rfl
  | cons line lines ih => rw [lowerLines, List.map_cons, lowerLine_source, ih]

theorem lowerLines_append (lib : Library) (config : UnitConfig) (state : UnitState)
    (lines lines' : List SourceLine) :
    state.lowerLines lib config (lines ++ lines') =
      state.lowerLines lib config lines ++
        (state.afterLines lib config lines).lowerLines lib config lines' := by
  induction lines generalizing state with
  | nil => rfl
  | cons line lines ih => exact congrArg (List.cons _) (ih _)

end UnitState

/-! ## One line -/

theorem Sink.offerAll_accepting (ps : List Primitive) : Sink.accepting.offerAll () ps = ((), none) := by
  induction ps with
  | nil => rfl
  | cons p ps ih => exact ih

/-- A sink that accepts everything leaves lowering to the expansion. -/
theorem Session.attempt_accepting (s : Session) (mnemonic : String) (operands : List String) :
    s.attempt Sink.accepting () mnemonic operands =
      let (result, state) := s.state.expand s.library s.config.className mnemonic operands
      (result, { s with state }, ()) := by
  unfold Session.attempt
  split
  · rename_i hexpand
    rw [hexpand]
  · rename_i hexpand
    rw [Sink.offerAll_accepting, hexpand]

/-- Reporting diagnostics counts them by their severity, and changes nothing else. -/
theorem Session.report_eq (s : Session) (ds : List Diagnostic) :
    s.report ds =
      ({ s with
          errors := s.errors + (ds.map s.config.promote).countP Diagnostic.isError
          warnings := s.warnings + (ds.map s.config.promote).countP Diagnostic.isWarning },
        ds.map s.config.promote) := by
  have hfold : ∀ (reported : List Diagnostic) (s : Session), reported.foldl count s =
      { s with
        errors := s.errors + reported.countP Diagnostic.isError
        warnings := s.warnings + reported.countP Diagnostic.isWarning } := by
    intro reported
    induction reported with
    | nil => exact fun s => rfl
    | cons d reported ih =>
      intro s
      rw [List.foldl_cons, ih]
      cases hseverity : d.severity <;>
        simp [count, hseverity, Diagnostic.isError, Diagnostic.isWarning, Nat.add_right_comm,
          Nat.add_assoc]
  rw [report, hfold]

namespace Progress

/-- The unit whose lines have had the given results and which is in a state and at a line. -/
def ofResults (lib : Library) (config : UnitConfig) (results : List LineResult) (state : UnitState)
    (line : Nat) : Progress :=
  let diagnostics := results.flatMap LineResult.diagnostics
  { session :=
      { library := lib, config, state, line
        errors := diagnostics.countP Diagnostic.isError
        warnings := diagnostics.countP Diagnostic.isWarning }
    items := results.map LineResult.item
    diagnostics }

variable {lib : Library} {config : UnitConfig} {results : List LineResult} {state : UnitState}
  {number : Nat}

theorem ofResults_nil (lib : Library) (config : UnitConfig) :
    ofResults lib config [] {} 0 = { session := { library := lib, config } } := rfl

theorem ofResults_add (r : LineResult) (line : Nat) :
    (ofResults lib config results state number).add
      { library := lib, config, state := r.state, line
        errors := (results.flatMap LineResult.diagnostics).countP Diagnostic.isError +
          r.diagnostics.countP Diagnostic.isError
        warnings := (results.flatMap LineResult.diagnostics).countP Diagnostic.isWarning +
          r.diagnostics.countP Diagnostic.isWarning } r.item r.diagnostics =
      ofResults lib config (results ++ [r]) r.state line := by
  simp [ofResults, add]

/-- Lowering a line adds its result to the unit. A failure comes back if the line stops the unit, and
that failure is what the line is reported with. -/
theorem step_ofResults (line : SourceLine) :
    let r := state.lowerLine lib config line
    ∃ failure?, (ofResults lib config results state number).step line =
        (ofResults lib config (results ++ [r]) r.state line.number, failure?) ∧
      (failure?.isSome = true ↔ config.policy = .stop ∧ r.isFatal = true) ∧
      ∀ failure ∈ failure?,
        r.diagnostics = [config.promote (Diagnostic.ofFailure line.number failure)] := by
  intro r
  by_cases hlabel : (line.operands.isEmpty && lib.isLabel line.mnemonic) = true
  · have hr : r = ⟨line, .label line.number line.mnemonic, [], state⟩ := if_pos hlabel
    refine ⟨none, ?_, by simp [hr, LineResult.isFatal, Item.isRejected], nofun⟩
    rw [← @ofResults_add _ _ _ state number, hr]
    simp [step, ofResults, hlabel]
  · have hr : r = _ := if_neg hlabel
    obtain ⟨⟨result, state'⟩, hexpand⟩ :
        ∃ r, state.expand lib config.className line.mnemonic line.operands = r := ⟨_, rfl⟩
    cases result with
    | ok x =>
      rw [hexpand] at hr
      refine ⟨none, ?_, by simp [hr, LineResult.isFatal, Item.isRejected], nofun⟩
      rw [← @ofResults_add _ _ _ state number, hr]
      simp [step, ofResults, hlabel, Session.lower, Session.attempt_accepting, hexpand,
        Session.report_eq]
    | error failure =>
      -- Both the expansion and the session put back the state that there was before the line.
      cases UnitState.expand_eq_error hexpand
      rw [hexpand] at hr
      have hstops : ∀ s : Session, s.config = config →
          (s.stops (Diagnostic.ofFailure line.number failure) = true ↔
            config.policy = .stop ∧ r.isFatal = true) := by
        rintro s rfl
        simp [hr, Session.stops, LineResult.isFatal, Item.isRejected, Diagnostic.isError, and_comm]
      by_cases hstop : config.policy = .stop ∧ r.isFatal = true
      · refine ⟨some failure, ?_, iff_of_true rfl hstop, ?_⟩
        · rw [← @ofResults_add _ _ _ state number, hr]
          simp [step, ofResults, hlabel, Session.lower, Session.attempt_accepting, hexpand,
            Session.report_eq, UnitState.restore_eq, hstops, hstop]
        · rintro _ ⟨⟩
          rw [hr]
      · refine ⟨none, ?_, iff_of_false (by simp) hstop, nofun⟩
        rw [← @ofResults_add _ _ _ state number, hr]
        simp [step, ofResults, hlabel, Session.lower, Session.attempt_accepting, hexpand,
          Session.report_eq, UnitState.restore_eq, hstops, hstop]

/-- A unit that none of the lines stops goes through all of them. -/
theorem run_unstopped {lines : List SourceLine}
    (h : config.policy = .stop → ∀ r ∈ state.lowerLines lib config lines, r.isFatal = false) :
    (ofResults lib config results state number).run lines =
      (ofResults lib config (results ++ state.lowerLines lib config lines)
        (state.afterLines lib config lines) (SourceLine.lastNumber number lines), none) := by
  induction lines generalizing results state number with
  | nil => simp [run, UnitState.lowerLines, UnitState.afterLines, SourceLine.lastNumber]
  | cons line lines ih =>
    obtain ⟨failure?, hstep, hstops, -⟩ :=
      @step_ofResults lib config results state number line
    have hgoes : failure? = none := by
      rw [← Option.not_isSome_iff_eq_none, hstops]
      rintro ⟨hpolicy, hfatal⟩
      cases hfatal.symm.trans (h hpolicy _ List.mem_cons_self)
    rw [run, hstep, hgoes]
    simp only
    rw [ih fun hpolicy r hr => h hpolicy r (List.mem_cons_of_mem _ hr), List.append_assoc]
    rfl

/-- A unit stops at the first line that is rejected with an error. -/
theorem run_stopped (hpolicy : config.policy = .stop) {lines : List SourceLine}
    {before after : List LineResult} {r : LineResult}
    (hresults : state.lowerLines lib config lines = before ++ r :: after)
    (hbefore : ∀ b ∈ before, b.isFatal = false) (hr : r.isFatal = true) :
    ∃ failure, (ofResults lib config results state number).run lines =
        (ofResults lib config (results ++ before ++ [r]) r.state r.source.number, some failure) ∧
      r.diagnostics = [config.promote (Diagnostic.ofFailure r.source.number failure)] := by
  induction lines generalizing results state number before with
  | nil => simp [UnitState.lowerLines] at hresults
  | cons line lines ih =>
    obtain ⟨failure?, hstep, hstops, hreported⟩ :=
      @step_ofResults lib config results state number line
    cases before with
    | nil =>
      obtain ⟨rfl, -⟩ := List.cons.inj hresults
      obtain ⟨failure, rfl⟩ := Option.isSome_iff_exists.mp (hstops.mpr ⟨hpolicy, hr⟩)
      rw [UnitState.lowerLine_source]
      refine ⟨failure, ?_, hreported failure rfl⟩
      rw [run, hstep, List.append_nil]
    | cons b before =>
      obtain ⟨rfl, hrest⟩ := List.cons.inj hresults
      have hgoes : failure? = none := by
        rw [← Option.not_isSome_iff_eq_none, hstops]
        rintro ⟨-, hfatal⟩
        cases hfatal.symm.trans (hbefore _ List.mem_cons_self)
      obtain ⟨failure, hrun, hdiagnostics⟩ :=
        ih hrest fun b' hb' => hbefore b' (List.mem_cons_of_mem _ hb')
      refine ⟨failure, ?_, hdiagnostics⟩
      rw [run, hstep, hgoes]
      simp only
      rw [hrun]
      simp only [List.append_assoc, List.cons_append, List.nil_append]

end Progress

/-! ## Texts -/

/-- What is reported at the end of a unit, with a line. -/
def UnitState.endDiagnostics (config : UnitConfig) (state : UnitState) (line : Nat) : List Diagnostic :=
  ((state.nesting.finish.map (Diagnostic.ofFailure line)).map config.promote).map
    (·.withNote "construct still open at end of unit")

/-- The report of a unit whose lines have had the given results, and which ends with diagnostics. -/
def Report.ofResults (lib : Library) (className : String) (results : List LineResult)
    (ends : List Diagnostic) : Report :=
  let diagnostics := results.flatMap LineResult.diagnostics ++ ends
  { library := lib.name
    className
    options := lib.table.options
    items := results.map LineResult.item
    diagnostics
    errors := diagnostics.countP Diagnostic.isError
    warnings := diagnostics.countP Diagnostic.isWarning }

theorem Progress.report_ofResults (lib : Library) (config : UnitConfig) (results : List LineResult)
    (state : UnitState) (line : Nat) :
    (Progress.ofResults lib config results state line).report =
      Report.ofResults lib config.className results [] := by
  simp [Progress.ofResults, Progress.report, Report.ofResults]

theorem Progress.report_finish_ofResults (lib : Library) (config : UnitConfig)
    (results : List LineResult) (state : UnitState) (line : Nat) :
    (Progress.ofResults lib config results state line).finish.report =
      Report.ofResults lib config.className results (state.endDiagnostics config line) := by
  have hcount : ∀ (f : Diagnostic → Bool) (ds : List Diagnostic), (∀ d note, f (d.withNote note) = f d) →
      (ds.map (·.withNote "construct still open at end of unit")).countP f = ds.countP f := by
    intro f ds hf
    rw [List.countP_map]
    exact List.countP_congr fun d _ => by rw [Function.comp_apply, hf]
  simp only [Progress.ofResults, Progress.finish, Session.finish, Session.report_eq, Progress.report,
    Report.ofResults, UnitState.endDiagnostics, List.countP_append]
  rw [hcount _ _ fun _ _ => rfl, hcount _ _ fun _ _ => rfl]

/-- A unit that no line stops has a report, with the results of its lines and what is open at its
end. -/
theorem lowerText_unstopped {lib : Library} {config : UnitConfig} {text : String}
    (h : config.policy = .stop →
      ∀ r ∈ UnitState.lowerLines lib config {} (SourceLine.ofText text), r.isFatal = false) :
    lowerText lib config text = .ok (Report.ofResults lib config.className
      (UnitState.lowerLines lib config {} (SourceLine.ofText text))
      ((UnitState.afterLines lib config {} (SourceLine.ofText text)).endDiagnostics config
        (SourceLine.lastNumber 0 (SourceLine.ofText text)))) := by
  have hrun := @Progress.run_unstopped lib config [] {} 0 _ h
  rw [lowerText, ← Progress.ofResults_nil, hrun]
  exact congrArg Except.ok (Progress.report_finish_ofResults ..)

/-- A unit that a line stops has a report up to that line, without anything about its end. -/
theorem lowerText_stopped {lib : Library} {config : UnitConfig} {text : String}
    (hpolicy : config.policy = .stop) {before after : List LineResult} {r : LineResult}
    (hresults : UnitState.lowerLines lib config {} (SourceLine.ofText text) = before ++ r :: after)
    (hbefore : ∀ b ∈ before, b.isFatal = false) (hr : r.isFatal = true) :
    ∃ failure, lowerText lib config text =
        .error ⟨failure, Report.ofResults lib config.className (before ++ [r]) []⟩ ∧
      r.diagnostics = [config.promote (Diagnostic.ofFailure r.source.number failure)] := by
  obtain ⟨failure, hrun, hdiagnostics⟩ :=
    @Progress.run_stopped lib config [] {} 0 hpolicy _ _ _ _ hresults hbefore hr
  refine ⟨failure, ?_, hdiagnostics⟩
  rw [lowerText, ← Progress.ofResults_nil, hrun]
  simp only [Progress.report_ofResults, List.nil_append]

/-- A text has a report of all its lines and of what is open at its end, or a line stops it and it has a
report up to that line. -/
theorem lowerText_cases (lib : Library) (config : UnitConfig) (text : String) :
    lowerText lib config text = .ok (Report.ofResults lib config.className
      (UnitState.lowerLines lib config {} (SourceLine.ofText text))
      ((UnitState.afterLines lib config {} (SourceLine.ofText text)).endDiagnostics config
        (SourceLine.lastNumber 0 (SourceLine.ofText text)))) ∨
    ∃ before line after failure, SourceLine.ofText text = before ++ line :: after ∧
      (let r := (UnitState.afterLines lib config {} before).lowerLine lib config line
       r.isFatal = true ∧
         r.diagnostics = [config.promote (Diagnostic.ofFailure line.number failure)]) ∧
      lowerText lib config text = .error ⟨failure, Report.ofResults lib config.className
        (UnitState.lowerLines lib config {} (before ++ [line])) []⟩ := by
  by_cases hgoes : config.policy = .stop →
      ∀ r ∈ UnitState.lowerLines lib config {} (SourceLine.ofText text), r.isFatal = false
  · exact .inl (lowerText_unstopped hgoes)
  · obtain ⟨hpolicy, hfatal⟩ := Classical.not_imp.mp hgoes
    cases hfind : (UnitState.lowerLines lib config {} (SourceLine.ofText text)).find?
        LineResult.isFatal with
    | none => exact absurd (fun r hr => by simpa using List.find?_eq_none.mp hfind r hr) hfatal
    | some r =>
      obtain ⟨hr, results, later, hresults, hearlier⟩ := List.find?_eq_some_iff_append.mp hfind
      obtain ⟨failure, hstopped, hdiagnostics⟩ := lowerText_stopped hpolicy hresults
        (fun b hb => by simpa using hearlier b hb) hr
      -- The results up to the line that stops the unit are those of the lines up to it.
      have hlines : SourceLine.ofText text =
          results.map LineResult.source ++ r.source :: later.map LineResult.source := by
        rw [← UnitState.lowerLines_source lib config {} (SourceLine.ofText text), hresults,
          List.map_append, List.map_cons]
      rw [hlines, UnitState.lowerLines_append] at hresults
      obtain ⟨hbefore, hrest⟩ := List.append_inj hresults (by
        rw [← List.length_map LineResult.source, UnitState.lowerLines_source, List.length_map])
      obtain ⟨hline, -⟩ := List.cons.inj hrest
      refine .inr ⟨_, _, _, failure, hlines, ?_, ?_⟩
      · rw [hline]
        exact ⟨hr, hdiagnostics⟩
      · rw [hstopped, UnitState.lowerLines_append, hbefore, UnitState.lowerLines, hline]
        rfl

/-- A unit that keeps going has a report, with the results of its lines and what is open at its end. -/
theorem lowerText_eq (lib : Library) {config : UnitConfig} (hpolicy : config.policy = .keepGoing)
    (text : String) :
    let results := UnitState.lowerLines lib config {} (SourceLine.ofText text)
    ∃ report line, lowerText lib config text = .ok report ∧
      report.items = results.map LineResult.item ∧
      report.diagnostics = results.flatMap LineResult.diagnostics ++
        (UnitState.afterLines lib config {} (SourceLine.ofText text)).endDiagnostics config line := by
  have hgoes : config.policy ≠ .stop := by simp [hpolicy]
  exact ⟨_, _, lowerText_unstopped fun hstop => absurd hstop hgoes, rfl, rfl⟩

end Lowering
