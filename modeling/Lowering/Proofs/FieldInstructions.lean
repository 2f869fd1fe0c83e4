-- SUMMARY: What lines of field instructions lower to, and which field types they keep.
import Lowering.Proofs.Descriptors
import Lowering.Proofs.ReadBack

/-!
# Field instructions

The textifier writes a field instruction as a member, a colon and the type of the member. The library takes
the type as it stands, but the type of an object ends in the character that starts a comment. So a line keeps
the type just if it names no class, and otherwise the type is cut short without a diagnostic.
-/

namespace Lowering

/-! ## Lines and comments -/

namespace Text

/-- The text without a comment. -/
def uncommented (s : String) : String := String.ofList (s.toList.takeWhile (· ≠ ';'))

theorem uncommented_append {front : String} (h : ';' ∉ front.toList) (s : String) :
    uncommented (front ++ s) = front ++ uncommented s := by
  have hfront : ∀ c ∈ front.toList, decide (c ≠ ';') = true := by
    rintro c hc
    rw [decide_eq_true_eq]
    rintro rfl
    exact h hc
  rw [← String.toList_inj, uncommented, uncommented, String.toList_append, String.toList_append,
    List.takeWhile_append_of_pos hfront, String.toList_ofList, String.toList_ofList]

theorem uncommented_eq_self {s : String} (h : ';' ∉ s.toList) : uncommented s = s := by
  have hempty : uncommented "" = "" := rfl
  have hself := uncommented_append h ""
  rwa [hempty, String.append_empty] at hself

theorem noComment_uncommented (s : String) : ';' ∉ (uncommented s).toList := by
  rw [uncommented, String.toList_ofList]
  intro hmem
  simpa using List.mem_takeWhile_imp hmem

/-- No word has a semicolon or a line feed. -/
theorem IsWord.notMem {s : String} (h : IsWord s) {c : Char} (hc : c = ';' ∨ c = '\n') : c ∉ s.toList := by
  rcases hc with rfl | rfl
  · exact h.noComment
  · intro hmem
    exact absurd (h.noBlank _ hmem) (by decide)

theorem noBlank_of_any {s : String} (h : s.toList.any isBlank = false) :
    ∀ c ∈ s.toList, isBlank c = false := by
  simpa using h

/-- A text without a line feed is one line. -/
theorem lines_single {s : String} (hsome : s.toList ≠ []) (hfeed : '\n' ∉ s.toList) : lines s = [s] := by
  have hpassed := splitLines_passed hfeed [] []
  rw [List.append_nil] at hpassed
  rw [lines, hpassed, splitLines, if_neg (by simpa using hsome), List.append_nil, List.reverse_reverse,
    String.ofList_toList]

end Text

theorem SourceLine.parse?_uncommented (number : Nat) (text : String) :
    parse? number (Text.uncommented text) = parse? number text := by
  have hsame : String.ofList ((Text.uncommented text).toList.takeWhile (· ≠ ';')) = Text.uncommented text :=
    Text.uncommented_eq_self (Text.noComment_uncommented text)
  simp only [parse?, hsame]
  rfl

/-- A text that is one line and holds something has just that line. -/
theorem SourceLine.ofText_single {text : String} {line : SourceLine} (hfeed : '\n' ∉ text.toList)
    (hline : parse? 1 text = some line) : ofText text = [line] := by
  have hsome : text.toList ≠ [] := by
    intro hnil
    rw [parse?, hnil] at hline
    cases hline
  rw [ofText, Text.lines_single hsome hfeed]
  exact List.filterMap_cons_some hline

/-- A text of one line that becomes an instruction without a diagnostic, and leaves nothing open. -/
theorem lowerText_single {lib : Library} {config : UnitConfig} {text : String} {line : SourceLine}
    {item : Item} (hline : SourceLine.ofText text = [line])
    (hlower : ({} : UnitState).lowerLine lib config line = ⟨line, item, [], {}⟩) :
    ∃ report, lowerText lib config text = .ok report ∧ report.diagnostics = [] ∧
      report.primitives = item.primitives := by
  have hresults : ({} : UnitState).lowerLines lib config (SourceLine.ofText text) =
      [⟨line, item, [], {}⟩] := by
    rw [hline, UnitState.lowerLines, hlower]
    rfl
  have hafter : ({} : UnitState).afterLines lib config (SourceLine.ofText text) = {} := by
    rw [hline, UnitState.afterLines, List.foldl_cons, hlower]
    rfl
  refine ⟨_, lowerText_unstopped fun _ r hr => ?_, ?_, ?_⟩
  · rw [hresults] at hr
    simp [LineResult.isFatal, List.mem_singleton.mp hr]
  · rw [hresults, hafter]
    rfl
  · rw [hresults]
    simp [Report.primitives, Report.ofResults]

/-! ## Types and comments -/

/-- A field type has no semicolon, or it ends in its only one. -/
theorem FieldType.semicolon_cases {t : List Char} (h : FieldType t) :
    ';' ∉ t ∨ ∃ front, t = front ++ [';'] ∧ ';' ∉ front := by
  induction h with
  | base hc =>
    refine .inl fun hmem => ?_
    rw [← List.mem_singleton.mp hmem] at hc
    exact absurd hc (by decide)
  | @object name hname hend => exact .inr ⟨'L' :: name, rfl, by simpa using hend⟩
  | array ht ih =>
    refine ih.imp (fun hnone => by simpa using hnone) ?_
    rintro ⟨front, rfl, hfront⟩
    exact ⟨'[' :: front, rfl, by simpa using hfront⟩

/-- What stands before a comment in a field type is the type, or all of it but the semicolon at its end. -/
theorem FieldType.uncommented_cases {d : String} (h : FieldType d.toList) :
    ';' ∉ d.toList ∧ Text.uncommented d = d ∨ ';' ∈ d.toList ∧ d = Text.uncommented d ++ ";" := by
  rcases h.semicolon_cases with hnone | ⟨front, hfront, hnone⟩
  · exact .inl ⟨hnone, Text.uncommented_eq_self hnone⟩
  · have hd : d = String.ofList front ++ ";" := by
      rw [← String.toList_inj, hfront]
      simp
    have hkept : Text.uncommented d = String.ofList front ++ "" := by
      rw [hd]
      exact Text.uncommented_append (by rwa [String.toList_ofList]) ";"
    rw [String.append_empty] at hkept
    exact .inr ⟨by simp [hfront], by rw [hkept]; exact hd⟩

theorem FieldType.isWord_uncommented {d : String} (h : FieldType d.toList)
    (hblank : ∀ c ∈ d.toList, Text.isBlank c = false) : Text.IsWord (Text.uncommented d) := by
  refine ⟨fun hnil => ?_, fun c hc => ?_, Text.noComment_uncommented d⟩
  · rcases h.uncommented_cases with ⟨-, hkept⟩ | ⟨-, hcut⟩
    · exact h.ne_nil (hkept ▸ hnil)
    · -- A semicolon alone is no type.
      rw [hcut, String.toList_append, hnil] at h
      cases h with
      | base hc => exact absurd hc (by decide)
  · refine hblank c ?_
    rcases h.uncommented_cases with ⟨-, hkept⟩ | ⟨-, hcut⟩
    · rwa [hkept] at hc
    · rw [hcut, String.toList_append]
      exact List.mem_append_left _ hc

namespace Catalog

/-! ## Expansion -/

/-- The field instructions of the textifier and their opcodes. -/
def fieldInstructions : List (String × String) :=
  [("GETFIELD", "getfield"), ("GETSTATIC", "getstatic"), ("PUTFIELD", "putfield"),
   ("PUTSTATIC", "putstatic")]

variable {name opcode : String} (h : (name, opcode) ∈ fieldInstructions)
include h

theorem fieldInstruction_isWord : Text.IsWord name := by
  have hall : ∀ p ∈ fieldInstructions, Text.IsWord p.1 := by decide +kernel
  exact hall _ h

theorem fieldInstruction_form : jvm.find? opcode = some ⟨opcode, .two⟩ := by
  have hall : ∀ p ∈ fieldInstructions, jvm.keyed.find? (textKey p.2) = some ⟨p.2, .two⟩ := by
    decide +kernel
  rw [InstructionSet.find?_eq_keyed]
  exact hall _ h

theorem fieldEntry_mem : fieldEntry name opcode ∈ textifierLibrary.table.entries := by
  refine List.mem_append_right ownNames ?_
  simp only [fieldInstructions, List.mem_cons, Prod.mk.injEq, List.not_mem_nil, or_false] at h
  rcases h with ⟨rfl, rfl⟩ | ⟨rfl, rfl⟩ | ⟨rfl, rfl⟩ | ⟨rfl, rfl⟩ <;> simp [overrides]

/-- The member and what follows the colon become the operands. -/
theorem invoke_fieldEntry (className : String) (state : UnitState) (m t : String) :
    state.invoke ⟨textifier, className, name⟩ (fieldEntry name opcode) [m, ":", t] =
      .ok ((state.start []).emit (.insn opcode [m, t])) := by
  let scope : Scope := ⟨textifier, className, name⟩
  have hswap : scope.perform none (state.start [m, ":", t]) (.transform .swap) =
      .ok (state.start [":", m, t]) := rfl
  have hcheck : scope.perform none (state.start [":", m, t]) (.check (.expect ":")) =
      .ok (state.start [m, t]) := rfl
  have hemit : scope.emitNamed opcode (state.start [m, t]) =
      .ok ((state.start []).emit (.insn opcode [m, t])) :=
    Scope.emitNamed_two (fieldInstruction_form h) (show _ = [.text m, .text t] from rfl)
  refine UnitState.invoke_eq_ok_iff.mpr ⟨?_, rfl⟩
  exact Op.runAll_act hswap (Op.runAll_act hcheck (Op.runAll_last hemit))

/-- A line with a member and a type lowers to the instruction with the member and what stands before a
comment in the type. -/
theorem lowerText_field (config : UnitConfig) {m d : String} (hm : Text.IsWord m)
    (hkept : Text.IsWord (Text.uncommented d)) (hfeed : '\n' ∉ d.toList) :
    ∃ report, lowerText textifierLibrary config (name ++ " " ++ m ++ " : " ++ d) = .ok report ∧
      report.diagnostics = [] ∧ report.primitives = [.insn opcode [m, Text.uncommented d]] := by
  let line : SourceLine := ⟨1, name, [m, ":", Text.uncommented d]⟩
  have hname := fieldInstruction_isWord h
  have hfront : ∀ c, c = ';' ∨ c = '\n' → c ∉ (name ++ " " ++ m ++ " : ").toList := by
    intro c hc
    have hseparators : c ∉ " ".toList ∧ c ∉ " : ".toList := by rcases hc with rfl | rfl <;> decide
    simp only [String.toList_append, List.mem_append, not_or]
    exact ⟨⟨⟨hname.notMem hc, hseparators.1⟩, hm.notMem hc⟩, hseparators.2⟩
  have hparse : SourceLine.parse? 1 (name ++ " " ++ m ++ " : " ++ d) = some line := by
    have hwords : ∀ w ∈ [name, m, ":", Text.uncommented d], Text.IsWord w := by
      simp only [List.forall_mem_cons]
      exact ⟨hname, hm, by decide +kernel, hkept, List.forall_mem_nil _⟩
    have htext : name ++ " " ++ m ++ " : " ++ Text.uncommented d =
        " ".intercalate [name, m, ":", Text.uncommented d] := by
      simp [← String.toList_inj, String.intercalate_cons_cons]
    rw [← SourceLine.parse?_uncommented, Text.uncommented_append (hfront _ (.inl rfl)), htext]
    exact SourceLine.parse?_intercalate 1 hwords
  have hline : SourceLine.ofText (name ++ " " ++ m ++ " : " ++ d) = [line] := by
    refine SourceLine.ofText_single ?_ hparse
    rw [String.toList_append, List.mem_append, not_or]
    exact ⟨hfront _ (.inr rfl), hfeed⟩
  obtain ⟨id, hlookup⟩ := textifierLibrary.lookup_name (fieldEntry_mem h) rfl
  obtain ⟨indent, hlower⟩ :=
    UnitState.lowerLine_of_invoke line rfl hlookup (invoke_fieldEntry h config.className {} m _) rfl
  exact lowerText_single hline hlower

/-- A line of a field instruction lowers without a diagnostic to one instruction with the member. It has the
type just if there is no semicolon in the type, that is, if the type is a base type or an array of these. If
there is one, the instruction has the type without its last character. -/
theorem textifier_keeps_field_type_iff (config : UnitConfig) {m d : String} (hm : Text.IsWord m)
    (hd : fieldTypes? d.toList = some [d]) (hblank : ∀ c ∈ d.toList, Text.isBlank c = false) :
    ∃ report t, lowerText textifierLibrary config (name ++ " " ++ m ++ " : " ++ d) = .ok report ∧
      report.diagnostics = [] ∧ report.primitives = [.insn opcode [m, t]] ∧
      (report.primitives = [.insn opcode [m, d]] ↔ ';' ∉ d.toList) ∧
      (';' ∈ d.toList → d = t ++ ";") := by
  have htype : FieldType d.toList := (fieldTypes?_eq_some_iff.mp hd).1 d List.mem_cons_self
  have hfeed : '\n' ∉ d.toList := fun hmem => absurd (hblank _ hmem) (by decide)
  obtain ⟨report, hreport, hdiagnostics, hprimitives⟩ :=
    lowerText_field h config hm (htype.isWord_uncommented hblank) hfeed
  refine ⟨report, _, hreport, hdiagnostics, hprimitives, ?_, fun hmem => ?_⟩
  · rw [hprimitives]
    constructor
    · intro hsame hmem
      simp only [List.cons.injEq, Primitive.insn.injEq, true_and, and_true] at hsame
      have hkept := Text.noComment_uncommented d
      rw [hsame] at hkept
      exact hkept hmem
    · intro hnone
      rw [Text.uncommented_eq_self hnone]
  · rcases htype.uncommented_cases with ⟨hnone, -⟩ | ⟨-, hcut⟩
    · exact absurd hmem hnone
    · exact hcut

omit h

/-- An array of arrays of long integers is kept, and the type of an object loses its end. -/
theorem textifier_keeps_field_type_iff_long :
    (∃ report, lowerText textifierLibrary {} "PUTSTATIC a/B.c : [[J" = .ok report ∧
      report.diagnostics = [] ∧ report.primitives = [.insn "putstatic" ["a/B.c", "[[J"]]) ∧
    ∃ report t, lowerText textifierLibrary {} "GETFIELD a/B.c : La/B;" = .ok report ∧
      report.diagnostics = [] ∧ report.primitives = [.insn "getfield" ["a/B.c", t]] ∧ "La/B;" = t ++ ";" := by
  have hm : Text.IsWord "a/B.c" := by decide +kernel
  have hlong := textifier_keeps_field_type_iff (List.mem_of_getElem? (i := 3) rfl) {} hm
    (show fieldTypes? "[[J".toList = some ["[[J"] by decide +kernel)
    (Text.noBlank_of_any (by decide +kernel))
  have hobject := textifier_keeps_field_type_iff (List.mem_of_getElem? (i := 0) rfl) {} hm
    (show fieldTypes? "La/B;".toList = some ["La/B;"] by decide +kernel)
    (Text.noBlank_of_any (by decide +kernel))
  obtain ⟨report, -, hreport, hdiagnostics, -, hkept, -⟩ := hlong
  obtain ⟨report', t, hreport', hdiagnostics', hprimitives', -, hcut⟩ := hobject
  exact ⟨⟨report, hreport, hdiagnostics, hkept.mpr (by decide +kernel)⟩, report', t, hreport', hdiagnostics',
    hprimitives', hcut (by decide +kernel)⟩

/-- Not every field type is kept: that of a string is cut short. -/
theorem textifier_cuts_object_type :
    ¬∀ (config : UnitConfig) (name opcode m d : String), (name, opcode) ∈ fieldInstructions →
      Text.IsWord m → fieldTypes? d.toList = some [d] → (∀ c ∈ d.toList, Text.isBlank c = false) →
        ∃ report, lowerText textifierLibrary config (name ++ " " ++ m ++ " : " ++ d) = .ok report ∧
          report.diagnostics = [] ∧ report.primitives = [.insn opcode [m, d]] := by
  intro halways
  have hmem : ("GETFIELD", "getfield") ∈ fieldInstructions := List.mem_cons_self
  have hm : Text.IsWord "a/B.c" := by decide +kernel
  have hkept : Text.IsWord (Text.uncommented "Ljava/lang/String;") := by decide +kernel
  obtain ⟨report, hreport, -, hprimitives⟩ :=
    halways {} "GETFIELD" "getfield" "a/B.c" "Ljava/lang/String;" hmem hm (by decide +kernel)
      (Text.noBlank_of_any (by decide +kernel))
  obtain ⟨report', hreport', -, hprimitives'⟩ := lowerText_field hmem {} hm hkept (by decide +kernel)
  have hsame : report = report' := Except.ok.inj (hreport.symm.trans hreport')
  rw [hsame, hprimitives'] at hprimitives
  revert hprimitives
  decide +kernel

end Catalog

end Lowering
