-- SUMMARY: The control instructions accept exactly the well-nested sequences.
import Lowering.Proofs.Control.Lowering
import Lowering.Proofs.Nesting
import Lowering.Proofs.Rejection

/-!
# Well-nested sequences

The instructions that open, switch and close constructs move a stack of constructs, and fail where the
stack does not allow them. A sequence of them is lowered without a diagnostic exactly if a grammar
generates it. Each diagnostic of any other sequence is about a construct that is not balanced, although
the lines after a rejected one are lowered as if it were not there.
-/

namespace Lowering

/-! ## The grammar -/

/-- An instruction that opens, switches or closes a construct. -/
inductive ControlWord where
  | block
  | loop
  | ifThen (test : WasmTest)
  | elseArm
  | close

def ControlWord.mnemonic : ControlWord → String
  | block => "BLOCK"
  | loop => "LOOP"
  | ifThen test => test.val.ifName
  | elseArm => "ELSE"
  | close => "END"

/-- The sequences in which every construct is closed, and in which an `if` may have another arm. -/
inductive WellNested : List ControlWord → Prop
  | empty : WellNested []
  | block {body rest : List ControlWord} : WellNested body → WellNested rest →
    WellNested (.block :: (body ++ .close :: rest))
  | loop {body rest : List ControlWord} : WellNested body → WellNested rest →
    WellNested (.loop :: (body ++ .close :: rest))
  | ifThen (test : WasmTest) {arm rest : List ControlWord} : WellNested arm → WellNested rest →
    WellNested (.ifThen test :: (arm ++ .close :: rest))
  | ifElse (test : WasmTest) {arm other rest : List ControlWord} :
    WellNested arm → WellNested other → WellNested rest →
    WellNested (.ifThen test :: (arm ++ .elseArm :: (other ++ .close :: rest)))

/-! ## The stack of constructs -/

namespace ControlWord

/-- The constructs that are open after the word, innermost first, if it is allowed. -/
def step (kinds : List FrameKind) : ControlWord → Option (List FrameKind)
  | block => some (.block :: kinds)
  | loop => some (.loop :: kinds)
  | ifThen _ => some (.ifThen :: kinds)
  | elseArm =>
    match kinds with
    | .ifThen :: outer => some (.elseArm :: outer)
    | _ => none
  | close =>
    match kinds with
    | _ :: outer => some outer
    | [] => none

/-- The constructs that are open after some words, if all of them are allowed. -/
def follow (kinds : List FrameKind) (ws : List ControlWord) : Option (List FrameKind) :=
  ws.foldlM step kinds

theorem follow_cons (kinds : List FrameKind) (w : ControlWord) (ws : List ControlWord) :
    follow kinds (w :: ws) = (w.step kinds).bind (follow · ws) := rfl

theorem follow_append (kinds : List FrameKind) (ws ws' : List ControlWord) :
    follow kinds (ws ++ ws') = (follow kinds ws).bind (follow · ws') := List.foldlM_append

end ControlWord

namespace WellNested

open ControlWord

/-- A well-nested sequence leaves the constructs around it as they are. -/
theorem follow_eq {ws : List ControlWord} (h : WellNested ws) (kinds : List FrameKind) :
    follow kinds ws = some kinds := by
  induction h generalizing kinds with
  | empty => rfl
  | block _ _ ihbody ihrest | loop _ _ ihbody ihrest | ifThen _ _ _ ihbody ihrest =>
    rw [follow_cons, step, Option.bind_some, follow_append, ihbody, Option.bind_some, follow_cons]
    exact ihrest kinds
  | ifElse _ _ _ _ iharm ihother ihrest =>
    rw [follow_cons, step, Option.bind_some, follow_append, iharm, Option.bind_some, follow_cons]
    show follow (.elseArm :: kinds) _ = _
    rw [follow_append, ihother, Option.bind_some, follow_cons]
    exact ihrest kinds

end WellNested

/-- The sequence closes the open constructs, one after the other, with well-nested sequences before,
between and after. -/
def Closes : List FrameKind → List ControlWord → Prop
  | [], ws => WellNested ws
  | kind :: outer, ws => ∃ body rest, WellNested body ∧ Closes outer rest ∧
    (ws = body ++ .close :: rest ∨
      kind = .ifThen ∧ ∃ other, WellNested other ∧ ws = body ++ .elseArm :: (other ++ .close :: rest))

namespace Closes

/-- A construct in front of a sequence closes no more and no less. -/
theorem append {front : List ControlWord} (hfront : ∀ ws, WellNested ws → WellNested (front ++ ws))
    {kinds : List FrameKind} {ws : List ControlWord} (h : Closes kinds ws) :
    Closes kinds (front ++ ws) := by
  cases kinds with
  | nil => exact hfront ws h
  | cons kind outer =>
    obtain ⟨body, rest, hbody, hrest, hws⟩ := h
    refine ⟨front ++ body, rest, hfront body hbody, hrest, ?_⟩
    rcases hws with rfl | ⟨hkind, other, hother, rfl⟩
    · exact .inl (List.append_assoc ..).symm
    · exact .inr ⟨hkind, other, hother, (List.append_assoc ..).symm⟩

/-- A word that opens a construct, together with what closes it, closes no more and no less. -/
theorem opening {w : ControlWord} {kind : FrameKind} {outer : List FrameKind} {ws : List ControlWord}
    (h : Closes (kind :: outer) ws)
    (hplain : ∀ body rest, WellNested body → WellNested rest →
      WellNested (w :: (body ++ .close :: rest)))
    (harms : kind = .ifThen → ∀ arm other rest, WellNested arm → WellNested other → WellNested rest →
      WellNested (w :: (arm ++ .elseArm :: (other ++ .close :: rest)))) :
    Closes outer (w :: ws) := by
  obtain ⟨body, rest, hbody, hrest, rfl | ⟨hkind, other, hother, rfl⟩⟩ := h
  · have hfront : ∀ ws, WellNested ws → WellNested ((w :: (body ++ [.close])) ++ ws) := by
      intro ws hws
      simpa using hplain body ws hbody hws
    simpa using append hfront hrest
  · have hfront : ∀ ws, WellNested ws →
        WellNested ((w :: (body ++ .elseArm :: (other ++ [.close]))) ++ ws) := by
      intro ws hws
      simpa using harms hkind body other ws hbody hother hws
    simpa using append hfront hrest

/-- What is allowed and leaves nothing open closes the open constructs. -/
theorem of_follow {kinds : List FrameKind} {ws : List ControlWord}
    (h : ControlWord.follow kinds ws = some []) : Closes kinds ws := by
  induction ws generalizing kinds with
  | nil =>
    cases h
    exact .empty
  | cons w ws ih =>
    obtain ⟨after, hstep, hfollow⟩ := Option.bind_eq_some_iff.mp h
    have hafter := ih hfollow
    cases w with
    | block =>
      cases hstep
      exact hafter.opening (fun _ _ => .block) fun hkind => by cases hkind
    | loop =>
      cases hstep
      exact hafter.opening (fun _ _ => .loop) fun hkind => by cases hkind
    | ifThen test =>
      cases hstep
      exact hafter.opening (fun _ _ => .ifThen test) fun _ _ _ _ => .ifElse test
    | elseArm =>
      simp only [ControlWord.step] at hstep
      split at hstep
      · cases hstep
        obtain ⟨other, rest, hother, hrest, rfl | ⟨hkind, -⟩⟩ := hafter
        · exact ⟨[], rest, .empty, hrest, .inr ⟨rfl, other, hother, rfl⟩⟩
        · cases hkind
      · cases hstep
    | close =>
      simp only [ControlWord.step] at hstep
      split at hstep
      · cases hstep
        exact ⟨[], ws, .empty, hafter, .inl rfl⟩
      · cases hstep

end Closes

/-- The well-nested sequences are those that are allowed and leave nothing open. -/
theorem wellNested_iff_follow {ws : List ControlWord} :
    WellNested ws ↔ ControlWord.follow [] ws = some [] :=
  ⟨fun h => h.follow_eq [], Closes.of_follow⟩

/-! ## Words and nestings -/

/-- The kinds of the open constructs, innermost first. -/
def Nesting.kinds (n : Nesting) : List FrameKind := n.frames.map Frame.kind

theorem Nesting.enterElse_kind {n : Nesting} {cause : Cause} (h : n.enterElse = .error cause) :
    cause.kind = .unbalancedControl := by
  unfold enterElse at h
  split at h
  · cases h
    rfl
  · split at h
    · split at h <;> cases h
      rfl
    · cases h
      rfl

namespace ControlWord

/-- What the word does to the nesting of a unit. -/
def apply (n : Nesting) (w : ControlWord) : Except Cause Nesting :=
  match w with
  | block => .ok (n.openBlock w.mnemonic).2
  | loop => .ok (n.openLoop w.mnemonic).2
  | ifThen _ => .ok (n.openIf w.mnemonic).2
  | elseArm => n.enterElse.map Prod.snd
  | close => n.close.map Prod.snd

/-- A word that the nesting allows moves its constructs as it moves the stack. -/
theorem apply_ok {n n' : Nesting} {w : ControlWord} (h : apply n w = .ok n') :
    w.step n.kinds = some n'.kinds := by
  cases w with
  | block | loop | ifThen test =>
    cases h
    rfl
  | elseArm =>
    obtain ⟨⟨labels, n₁⟩, helse, rfl⟩ := ok_of_map_ok h
    obtain ⟨frame, outer, pending, hframes, hif, -, -, rfl⟩ := Nesting.enterElse_eq_ok helse
    rw [Nesting.kinds, hframes, List.map_cons, hif]
    rfl
  | close =>
    obtain ⟨⟨frame, n₁⟩, hclose, rfl⟩ := ok_of_map_ok h
    obtain ⟨outer, hframes, rfl⟩ := Nesting.close_eq_ok hclose
    rw [Nesting.kinds, hframes]
    rfl

theorem apply_consistent {n n' : Nesting} {w : ControlWord} (hn : n.Consistent)
    (h : apply n w = .ok n') : n'.Consistent := by
  cases w with
  | block =>
    cases h
    exact hn.after (.openBlock _)
  | loop =>
    cases h
    exact hn.after (.openLoop _)
  | ifThen test =>
    cases h
    exact hn.after (.openIf _)
  | elseArm =>
    obtain ⟨switched, helse, rfl⟩ := ok_of_map_ok h
    have hafter := hn.after .enterElse
    rwa [Nesting.after, helse] at hafter
  | close =>
    obtain ⟨closed, hclose, rfl⟩ := ok_of_map_ok h
    have hafter := hn.after .close
    rwa [Nesting.after, hclose] at hafter

/-- A word that a consistent nesting does not allow fails for a construct that is not balanced. -/
theorem apply_error {n : Nesting} {w : ControlWord} {cause : Cause} (hn : n.Consistent)
    (h : apply n w = .error cause) : w.step n.kinds = none ∧ cause.kind = .unbalancedControl := by
  cases w with
  | block | loop | ifThen test => cases h
  | elseArm =>
    have hno : ¬∃ frame outer, n.frames = frame :: outer ∧ frame.kind = .ifThen := by
      rw [← hn.answers.enterElse]
      rintro ⟨entered, helse⟩
      rw [apply, helse] at h
      cases h
    refine ⟨?_, ?_⟩
    · rw [Nesting.kinds]
      cases hframes : n.frames with
      | nil => rfl
      | cons frame outer =>
        rw [List.map_cons]
        cases hkind : frame.kind with
        | ifThen => exact absurd ⟨frame, outer, hframes, hkind⟩ hno
        | block | loop | elseArm => rfl
    · cases helse : n.enterElse with
      | ok entered =>
        rw [apply, helse] at h
        cases h
      | error cause' =>
        rw [apply, helse] at h
        cases h
        exact Nesting.enterElse_kind helse
  | close =>
    simp only [apply, Nesting.close] at h
    split at h
    · rename_i hframes
      cases h
      exact ⟨by rw [Nesting.kinds, hframes]; rfl, rfl⟩
    · cases h

/-! ## Lines -/

/-- The instructions that the word emits before its control action. -/
def setup : ControlWord → List String
  | ifThen test => test.val.setup
  | _ => []

/-- The control action of the word. -/
def kind : ControlWord → ControlKind
  | block => .block
  | loop => .loop
  | ifThen test => .ifThen test.val.condition
  | elseArm => .elseArm
  | close => .close

theorem performs {lib : Library} (hlib : lib.Structured) (w : ControlWord) :
    lib.Performs w.mnemonic w.setup w.kind := by
  cases w with
  | block => exact hlib.block
  | loop => exact hlib.loop
  | ifThen test => exact hlib.ifThen test
  | elseArm => exact hlib.elseArm
  | close => exact hlib.close

/-- The control action of a word does to an invocation what the word does to its nesting. -/
theorem control_eq {scope : Scope} (w : ControlWord) (hmnemonic : scope.mnemonic = w.mnemonic)
    (inv : Invocation) :
    ∃ ps, scope.control none inv w.kind =
      (w.apply inv.nesting).map fun n => { inv with nesting := n }.emitAll ps := by
  obtain ⟨table, className, mnemonic⟩ := scope
  obtain rfl : mnemonic = w.mnemonic := hmnemonic
  cases w with
  | block =>
    refine ⟨[], ?_⟩
    simp [Scope.control, kind, apply, Except.map, Invocation.emitAll]
  | loop => exact ⟨[.label (.generated (inv.nesting.openLoop "LOOP").1)], rfl⟩
  | ifThen test =>
    exact ⟨(table.isa.test test.val.condition true).primitives
      (.generated (inv.nesting.openIf test.val.ifName).1), rfl⟩
  | elseArm =>
    simp only [kind, Scope.control, apply]
    cases inv.nesting.enterElse with
    | error cause => exact ⟨[], rfl⟩
    | ok switched =>
      refine ⟨[.jump table.isa.goto (.generated switched.1.exit), .label (.generated switched.1.start)],
        ?_⟩
      simp [Bind.bind, Except.bind, Except.map, pure, Except.pure, Scope.emitGoto, Invocation.emit,
        Invocation.emitAll]
  | close =>
    simp only [kind, Scope.control, apply]
    cases inv.nesting.close with
    | error cause => exact ⟨[], rfl⟩
    | ok closed => exact ⟨Scope.closingLabels closed.1, rfl⟩

end ControlWord

/-- The words as the lines of a text, numbered after the first lines. -/
def ControlWord.sourceLines (first : Nat) (ws : List ControlWord) : List SourceLine :=
  (ws.zipIdx first).map fun (w, i) => ⟨min (i + 1) SourceLine.largestNumber, w.mnemonic, []⟩

theorem UnitConfig.promote_code (config : UnitConfig) (d : Diagnostic) :
    (config.promote d).code = d.code := by
  unfold UnitConfig.promote
  split <;> rfl

namespace UnitState

variable {lib : Library} (config : UnitConfig) (state : UnitState)

theorem lowerLine_word (hlib : lib.Structured) (w : ControlWord) (hlabel : lib.isLabel w.mnemonic = false)
    (number : Nat) :
    let r := state.lowerLine lib config ⟨number, w.mnemonic, []⟩
    match w.apply state.nesting with
    | .ok n => r.diagnostics = [] ∧ r.state = ⟨n, state.nextSite⟩
    | .error cause => r.diagnostics = [config.promote (.ofFailure number ⟨cause, some w.mnemonic⟩)] ∧
        r.state = state := by
  obtain ⟨id, e, hlookup, hperforms⟩ := w.performs hlib
  let scope : Scope := ⟨lib.table, config.className, w.mnemonic⟩
  let inv := (state.start []).emitAll (plainInsns w.setup)
  obtain ⟨ps, hcontrol⟩ := @ControlWord.control_eq scope w rfl inv
  have hpos : 0 < lib.table.entries.length :=
    List.length_pos_of_mem (Library.lookup_eq_ok hlookup).1
  have hinvoke : state.invoke scope e [] =
      inv.orHalt ((w.apply state.nesting).map fun n => { inv with nesting := n }.emitAll ps) := by
    have hrun : scope.runEntry scope.table.entries.length e (state.start []) = _ :=
      (hperforms.runEntry hpos _).trans (congrArg inv.orHalt hcontrol)
    rw [invoke]
    refine (congrArg (· >>= fun inv : Invocation => inv.orHalt inv.complete) hrun).trans ?_
    show (inv.orHalt ((w.apply state.nesting).map _) >>= _) = _
    cases w.apply state.nesting <;> rfl
  unfold lowerLine expand expandBy
  simp only [hlabel, Bool.and_false, hlookup]
  simp only [scope] at hinvoke
  rw [hinvoke]
  cases w.apply state.nesting <;> exact ⟨rfl, rfl⟩

/-- Lines of words have no diagnostic exactly if the words are allowed, and otherwise each diagnostic is
about a construct that is not balanced. -/
theorem lowerLines_words (hlib : lib.Structured)
    (hlabel : ∀ w : ControlWord, lib.isLabel w.mnemonic = false) (hn : state.nesting.Consistent)
    (ws : List ControlWord) (first : Nat) :
    let lines := ControlWord.sourceLines first ws
    let diagnostics := (state.lowerLines lib config lines).flatMap LineResult.diagnostics
    let after := (state.afterLines lib config lines).nesting
    (match ControlWord.follow state.nesting.kinds ws with
      | some kinds => diagnostics = [] ∧ after.kinds = kinds
      | none => diagnostics ≠ []) ∧
    (∀ d ∈ diagnostics, d.code = FailureKind.unbalancedControl.code) ∧ after.Consistent := by
  induction ws generalizing state first with
  | nil => exact ⟨⟨rfl, rfl⟩, nofun, hn⟩
  | cons w ws ih =>
    have hline := lowerLine_word config state hlib w (hlabel w) (min (first + 1) SourceLine.largestNumber)
    simp only [ControlWord.sourceLines, List.zipIdx_cons, List.map_cons, lowerLines, afterLines,
      List.foldl_cons, List.flatMap_cons, ControlWord.follow_cons] at hline ih ⊢
    cases happly : w.apply state.nesting with
    | ok n =>
      simp only [happly] at hline
      obtain ⟨hdiagnostics, hstate⟩ := hline
      simp only [hdiagnostics, hstate, ControlWord.apply_ok happly, List.nil_append, Option.bind_some]
      exact ih ⟨n, state.nextSite⟩ (ControlWord.apply_consistent hn happly) (first + 1)
    | error cause =>
      obtain ⟨hstep, hkind⟩ := ControlWord.apply_error hn happly
      simp only [happly] at hline
      obtain ⟨hdiagnostics, hstate⟩ := hline
      have hrest := ih state hn (first + 1)
      simp only [hdiagnostics, hstate, hstep, List.singleton_append, Option.bind_none]
      refine ⟨by simp, fun d hd => ?_, hrest.2.2⟩
      rcases List.mem_cons.mp hd with rfl | hd
      · rw [UnitConfig.promote_code, ← hkind]
        rfl
      · exact hrest.2.1 d hd

end UnitState

/-! ## The end of a unit -/

namespace Nesting

theorem finish_kind {n : Nesting} {f : Failure} (h : f ∈ n.finish) : f.kind = .unbalancedControl := by
  unfold finish at h
  split at h
  · cases h
  · split at h
    · rw [List.mem_singleton.mp h]
      rfl
    · obtain ⟨frame, -, rfl⟩ := List.mem_map.mp h
      rfl

end Nesting

theorem UnitState.endDiagnostics_code {config : UnitConfig} {state : UnitState} {line : Nat}
    {d : Diagnostic} (h : d ∈ state.endDiagnostics config line) :
    d.code = FailureKind.unbalancedControl.code := by
  obtain ⟨promoted, hpromoted, rfl⟩ := List.mem_map.mp h
  obtain ⟨reported, hreported, rfl⟩ := List.mem_map.mp hpromoted
  obtain ⟨f, hf, rfl⟩ := List.mem_map.mp hreported
  show (config.promote (.ofFailure line f)).code = _
  rw [UnitConfig.promote_code, ← Nesting.finish_kind hf]
  rfl

/-- The state of a unit after the lines of a text. -/
def finalState (lib : Library) (config : UnitConfig) (text : String) : UnitState :=
  (Progress.run { session := { library := lib, config } } (SourceLine.ofText text)).1.session.state

theorem finalState_eq (lib : Library) {config : UnitConfig} (hpolicy : config.policy = .keepGoing)
    (text : String) :
    finalState lib config text = UnitState.afterLines lib config {} (SourceLine.ofText text) := by
  have hgoes : config.policy ≠ .stop := by simp [hpolicy]
  have hrun := @Progress.run_unstopped lib config [] {} 0 (SourceLine.ofText text)
    fun hstop => absurd hstop hgoes
  rw [finalState, ← Progress.ofResults_nil, hrun]
  rfl

/-! ## Texts -/

/-- Each word is a line of its own, which holds its mnemonic only. -/
theorem ControlWord.mnemonic_fields (w : ControlWord) :
    '\n' ∉ w.mnemonic.toList ∧
      Text.fields (String.ofList (w.mnemonic.toList.takeWhile (· ≠ ';'))) = [w.mnemonic] := by
  have htests : (Test.all.all fun t => decide ('\n' ∉ t.ifName.toList ∧
      Text.fields (String.ofList (t.ifName.toList.takeWhile (· ≠ ';'))) = [t.ifName])) = true := by
    decide +kernel
  cases w with
  | ifThen test => exact of_decide_eq_true (List.all_eq_true.mp htests test.val test.property)
  | block | loop | elseArm | close => decide +kernel

theorem ControlWord.ofText_ofLines (ws : List ControlWord) :
    SourceLine.ofText (Text.ofLines (ws.map mnemonic)) = sourceLines 0 ws := by
  have hfeed : ∀ line ∈ ws.map mnemonic, '\n' ∉ line.toList := by
    intro line hline
    obtain ⟨w, -, rfl⟩ := List.mem_map.mp hline
    exact w.mnemonic_fields.1
  rw [SourceLine.ofText_ofLines hfeed, SourceLine.map_positioned, List.zipIdx_map, List.filterMap_map,
    sourceLines, ← List.filterMap_eq_map]
  refine List.filterMap_congr fun (w, i) _ => ?_
  simp only [Function.comp_apply, Prod.map_apply, id_eq, SourceLine.parse?, w.mnemonic_fields.2]

/-- A sequence of words is lowered without a diagnostic exactly if it is well-nested. Then nothing is open
at its end, and the indentation is zero. Otherwise each diagnostic is about a construct that is not
balanced. -/
theorem Catalog.wasm32_accepts_wellNested (config : UnitConfig) (hpolicy : config.policy = .keepGoing)
    (ws : List ControlWord) :
    let text := Text.ofLines (ws.map ControlWord.mnemonic)
    let final := (finalState wasm32Library config text).nesting
    ∃ report, lowerText wasm32Library config text = .ok report ∧
      (report.diagnostics = [] ↔ WellNested ws) ∧
      (WellNested ws → final.frames = [] ∧ final.indent = 0) ∧
      ∀ d ∈ report.diagnostics, d.code = FailureKind.unbalancedControl.code := by
  intro text final
  obtain ⟨report, line, hreport, -, hdiagnostics⟩ := lowerText_eq wasm32Library hpolicy text
  have hlines : SourceLine.ofText text = ControlWord.sourceLines 0 ws := ControlWord.ofText_ofLines ws
  have hfinal : final = (UnitState.afterLines wasm32Library config {} (SourceLine.ofText text)).nesting :=
    congrArg UnitState.nesting (finalState_eq wasm32Library hpolicy text)
  clear_value final
  obtain ⟨hallowed, hcodes, hconsistent⟩ := UnitState.lowerLines_words config {} wasm32_structured
    (fun _ => rfl) (.empty _) ws 0
  rw [← hlines] at hcodes
  simp only [← hlines, ← hfinal] at hallowed hconsistent
  have hends : UnitState.endDiagnostics config
      (UnitState.afterLines wasm32Library config {} (SourceLine.ofText text)) line = [] ↔
        final.frames = [] := by
    rw [UnitState.endDiagnostics, ← hfinal, List.map_eq_nil_iff, List.map_eq_nil_iff,
      List.map_eq_nil_iff]
    exact hconsistent.answers.finish_nil
  have hempty : final.kinds = [] ↔ final.frames = [] := List.map_eq_nil_iff
  have hstart : Nesting.kinds {} = [] := rfl
  refine ⟨report, hreport, ?_, ?_, ?_⟩
  · rw [hdiagnostics, List.append_eq_nil_iff, hends, ← hempty, wellNested_iff_follow, ← hstart]
    cases hfollow : ControlWord.follow (Nesting.kinds {}) ws with
    | none =>
      rw [hfollow] at hallowed
      simp [hallowed]
    | some kinds =>
      rw [hfollow] at hallowed
      simp [hallowed, hstart]
  · intro hnested
    rw [hnested.follow_eq] at hallowed
    have hframes : final.frames = [] := hempty.mp hallowed.2
    refine ⟨hframes, hconsistent.indent.trans ?_⟩
    rw [Nesting.depth, hframes, List.length_nil]
  · intro d hd
    rw [hdiagnostics] at hd
    exact (List.mem_append.mp hd).elim (hcodes d) UnitState.endDiagnostics_code

/-- An arm with a loop in it, and another one that is empty. -/
def loopInArm : List ControlWord :=
  [.ifThen ⟨.fused "I64" "LT_U" (.unsignedLong .lt), by decide +kernel⟩, .loop, .close, .elseArm, .close]

theorem Catalog.loopInArm_accepted :
    ({} : UnitConfig).policy = .keepGoing ∧ WellNested loopInArm ∧
    ∃ report, lowerText wasm32Library {} "I64_IFLT_U\nLOOP\nEND\nELSE\nEND\n" = .ok report ∧
      report.diagnostics = [] ∧
      (finalState wasm32Library {} "I64_IFLT_U\nLOOP\nEND\nELSE\nEND\n").nesting.frames = [] := by
  have hnested : WellNested loopInArm :=
    .ifElse _ (.loop .empty .empty) .empty .empty
  have htext : Text.ofLines (loopInArm.map ControlWord.mnemonic) =
      "I64_IFLT_U\nLOOP\nEND\nELSE\nEND\n" := by
    decide +kernel
  obtain ⟨report, hreport, haccepted, hclosed, -⟩ := wasm32_accepts_wellNested {} rfl loopInArm
  rw [htext] at hreport hclosed
  exact ⟨rfl, hnested, report, hreport, haccepted.mpr hnested, (hclosed hnested).1⟩

end Lowering
