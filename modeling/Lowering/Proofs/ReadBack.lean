-- SUMMARY: The textifier library reads a listing of target instructions back to the primitives it shows.
import Mathlib.Data.List.TakeWhile
import Lowering.Proofs.Rejection
import Lowering.Proofs.Resolution
import Lowering.Proofs.TargetCode

/-!
# Reading listings back

The text of an instruction or a jump is a line of the textifier library, since that library has most
instructions of the target under their own names. Such a line is split into the words it was made of, its
first word is no label and selects the entry of the instruction, however it is capitalized, and the
entry takes all other words as operands.
-/

namespace Lowering

/-! ## Words -/

namespace Text

/-- The text can be a field of a source line: it is not empty, and no character of it ends a field or
starts a comment. -/
structure IsWord (s : String) : Prop where
  ne_nil : s.toList ≠ []
  noBlank : ∀ c ∈ s.toList, isBlank c = false
  noComment : ';' ∉ s.toList

theorem isWord_iff {s : String} : IsWord s ↔
    (!s.toList.isEmpty && s.toList.all fun c => !isBlank c && c != ';') = true := by
  simp only [Bool.and_eq_true, Bool.not_eq_true', List.isEmpty_eq_false_iff, List.all_eq_true,
    bne_iff_ne]
  constructor
  · rintro ⟨hne, hblank, hcomment⟩
    exact ⟨hne, fun c hc => ⟨hblank c hc, fun heq => hcomment (heq ▸ hc)⟩⟩
  · rintro ⟨hne, hchars⟩
    exact ⟨hne, fun c hc => (hchars c hc).1, fun hmem => (hchars _ hmem).2 rfl⟩

instance (s : String) : Decidable (IsWord s) := decidable_of_iff' _ isWord_iff

theorem splitBlank_word {w : List Char} (hw : ∀ c ∈ w, isBlank c = false) (field rest : List Char) :
    splitBlank field (w ++ rest) = splitBlank (w.reverse ++ field) rest := by
  induction w generalizing field with
  | nil => rfl
  | cons c w ih =>
    have hc : isBlank c = false := hw c List.mem_cons_self
    rw [List.cons_append, splitBlank, if_neg (by simp [hc]),
      ih (fun d hd => hw d (List.mem_cons_of_mem _ hd)), List.reverse_cons, List.append_assoc]
    rfl

/-- The fields of a text are the words that it joins. -/
theorem fields_intercalate {ws : List String} (h : ∀ w ∈ ws, IsWord w) :
    fields (" ".intercalate ws) = ws := by
  rw [fields]
  induction ws with
  | nil => rfl
  | cons w ws ih =>
    have hw : IsWord w := h w List.mem_cons_self
    have hfield : w.toList.reverse.isEmpty = false := by simp [hw.ne_nil]
    have hself : String.ofList w.toList.reverse.reverse = w := by
      rw [List.reverse_reverse, String.ofList_toList]
    cases ws with
    | nil =>
      have hsplit := splitBlank_word hw.noBlank [] []
      rw [List.append_nil, List.append_nil] at hsplit
      rw [String.intercalate_singleton, hsplit, splitBlank, hfield, hself]
      rfl
    | cons w' ws =>
      rw [String.intercalate_cons_cons, String.toList_append, String.toList_append, List.append_assoc,
        splitBlank_word hw.noBlank, List.append_nil]
      show splitBlank w.toList.reverse (' ' :: (" ".intercalate (w' :: ws)).toList) = _
      rw [splitBlank, if_pos (by decide), hfield, hself, ih fun v hv => h v (List.mem_cons_of_mem _ hv)]
      rfl

theorem mem_intercalate {ws : List String} {c : Char} (h : c ∈ (" ".intercalate ws).toList) :
    c = ' ' ∨ ∃ w ∈ ws, c ∈ w.toList := by
  induction ws with
  | nil => cases h
  | cons w ws ih =>
    cases ws with
    | nil => exact .inr ⟨w, List.mem_cons_self, by rwa [String.intercalate_singleton] at h⟩
    | cons w' ws =>
      rw [String.intercalate_cons_cons, String.toList_append, String.toList_append] at h
      rcases List.mem_append.mp h with h | h
      · rcases List.mem_append.mp h with h | h
        · exact .inr ⟨w, List.mem_cons_self, h⟩
        · exact .inl (List.mem_singleton.mp h)
      · exact (ih h).imp_right fun ⟨v, hv, hc⟩ => ⟨v, List.mem_cons_of_mem _ hv, hc⟩

end Text

theorem SourceLine.parse?_intercalate (number : Nat) {mnemonic : String} {operands : List String}
    (h : ∀ w ∈ mnemonic :: operands, Text.IsWord w) :
    parse? number (" ".intercalate (mnemonic :: operands)) = some ⟨number, mnemonic, operands⟩ := by
  have hcomment : (" ".intercalate (mnemonic :: operands)).toList.takeWhile (· ≠ ';') =
      (" ".intercalate (mnemonic :: operands)).toList := by
    refine List.takeWhile_eq_self_iff.mpr fun c hc => ?_
    rw [decide_eq_true_eq]
    rintro rfl
    rcases Text.mem_intercalate hc with hblank | ⟨w, hw, hmem⟩
    · cases hblank
    · exact (h w hw).noComment hmem
  rw [parse?, hcomment, String.ofList_toList, Text.fields_intercalate h]

/-! ## Names of instructions -/

namespace Text

/-- Whether the character is one that names of target instructions are made of. -/
def isNameChar (c : Char) : Bool := c.isLower || c.isDigit || c == '_'

/-- Capitals of these characters stand for them, and neither ends a field, starts a comment or becomes
a digit. -/
theorem isNameChar_capital {c : Char} (h : isNameChar c = true) :
    (isBlank c = false ∧ c ≠ ';') ∧ (isBlank c.toUpper = false ∧ c.toUpper ≠ ';') ∧
      canonicalChar c = c.toUpper ∧ c.toUpper.toLower = c ∧ c.toUpper.isDigit = c.isDigit := by
  have hall : ∀ n < 128, isNameChar (Char.ofNat n) = true →
      let c := Char.ofNat n
      (isBlank c = false ∧ c ≠ ';') ∧ (isBlank c.toUpper = false ∧ c.toUpper ≠ ';') ∧
        canonicalChar c = c.toUpper ∧ c.toUpper.toLower = c ∧ c.toUpper.isDigit = c.isDigit := by
    decide +kernel
  have hlt : c.toNat < 128 := by
    have hranges : (decide ('a'.val ≤ c.val) && decide (c.val ≤ 'z'.val) ||
        decide ('0'.val ≤ c.val) && decide (c.val ≤ '9'.val) || c == '_') = true := h
    simp only [Bool.or_eq_true, Bool.and_eq_true, decide_eq_true_eq, beq_iff_eq,
      UInt32.le_iff_toNat_le] at hranges
    rcases hranges with (⟨-, hlast⟩ | ⟨-, hlast⟩) | rfl
    · exact Nat.lt_of_le_of_lt hlast (by decide)
    · exact Nat.lt_of_le_of_lt hlast (by decide)
    · decide
  have hc := hall c.toNat hlt
  rw [Char.ofNat_toNat] at hc
  exact hc h

/-- The text is made of the characters of instruction names, and it is more than a letter with a
number. -/
structure IsName (s : String) : Prop where
  chars : ∀ c ∈ s.toList, isNameChar c = true
  unnumbered : ∃ c ∈ s.toList.drop 1, c.isDigit = false

/-- The mnemonic is the name, as it stands or in capitals. -/
inductive Spells (name : String) : String → Prop
  | same : Spells name name
  | capitals : Spells name (upper name)

namespace IsName

variable {s : String}

theorem isWord (h : IsName s) : IsWord s where
  ne_nil hnil := by
    obtain ⟨c, hc, -⟩ := h.unnumbered
    rw [hnil] at hc
    cases hc
  noBlank c hc := (isNameChar_capital (h.chars c hc)).1.1
  noComment hmem := (isNameChar_capital (h.chars _ hmem)).1.2 rfl

theorem isWord_upper (h : IsName s) : IsWord (upper s) where
  ne_nil hnil := h.isWord.ne_nil (List.map_eq_nil_iff.mp (toList_upper s ▸ hnil))
  noBlank c hc := by
    rw [toList_upper] at hc
    obtain ⟨d, hd, rfl⟩ := List.mem_map.mp hc
    exact (isNameChar_capital (h.chars d hd)).2.1.1
  noComment hmem := by
    rw [toList_upper] at hmem
    obtain ⟨d, hd, heq⟩ := List.mem_map.mp hmem
    exact (isNameChar_capital (h.chars d hd)).2.1.2 heq

theorem canonical_eq (h : IsName s) : canonical s = upper s := by
  have hchars : s.toList.map canonicalChar = s.toList.map Char.toUpper :=
    List.map_congr_left fun c hc => (isNameChar_capital (h.chars c hc)).2.2.1
  exact congrArg String.ofList hchars

theorem lower_upper (h : IsName s) : lower (upper s) = s := by
  rw [lower, toList_upper, List.map_map]
  have hchars : s.toList.map (Char.toLower ∘ Char.toUpper) = s.toList.map id :=
    List.map_congr_left fun c hc => (isNameChar_capital (h.chars c hc)).2.2.2.1
  rw [hchars, List.map_id, String.ofList_toList]

/-- A label has only digits after its first character, and capitals do not make a digit of anything
else. -/
theorem not_accepts (h : IsName s) {m : String} (hm : Spells s m) (form : LabelForm) :
    form.accepts m = false := by
  obtain ⟨c, hc, hdigit⟩ := h.unnumbered
  obtain ⟨first, rest, hs⟩ := List.exists_cons_of_ne_nil h.isWord.ne_nil
  rw [hs] at hc
  have hupper : c.toUpper.isDigit = false := by
    rw [(isNameChar_capital (h.chars c (hs ▸ List.mem_cons_of_mem _ hc))).2.2.2.2, hdigit]
  have hrest : rest.all Char.isDigit = false := List.all_eq_false.mpr ⟨c, hc, by simp [hdigit]⟩
  have hcapitals : (rest.map Char.toUpper).all Char.isDigit = false :=
    List.all_eq_false.mpr ⟨c.toUpper, List.mem_map_of_mem hc, by simp [hupper]⟩
  cases hm with
  | same => simp [LabelForm.accepts, hs, hrest]
  | capitals => simp [LabelForm.accepts, hs, hcapitals]

end IsName

theorem Spells.isWord {s m : String} (hm : Spells s m) (h : IsName s) : IsWord m := by
  cases hm with
  | same => exact h.isWord
  | capitals => exact h.isWord_upper

theorem Spells.canonical_eq {s m : String} (hm : Spells s m) (h : IsName s) :
    canonical m = canonical s := by
  cases hm with
  | same => rfl
  | capitals => rw [← h.canonical_eq, canonical_canonical]

end Text

/-! ## Lookup -/

/-- An entry that shares its canonical form with no other is selected by every spelling of that form. -/
theorem Library.lookup_of_canonical (lib : Library) {mnemonic : String} {e : Entry}
    (he : e ∈ lib.table.entries) (hexternal : e.visibility = .external)
    (hform : canonical mnemonic = canonical e.name)
    (honly : ∀ e' ∈ lib.table.entries, canonical e'.name = canonical e.name → e' = e) :
    ∃ id, lib.lookup mnemonic = .ok (id, e) := by
  have hselects : lib.table.Selects mnemonic e := by
    by_cases hexact : mnemonic ∈ lib.table.names
    · obtain ⟨e', he', rfl⟩ := List.mem_map.mp hexact
      rw [honly e' he' hform]
      exact .exact he rfl
    by_cases hcanonical : canonical mnemonic ∈ lib.table.names
    · obtain ⟨e', he', hname⟩ := List.mem_map.mp hcanonical
      have hsame : e' = e := honly e' he' (by rw [hname, canonical_canonical, hform])
      exact .canonical hexact he (hsame ▸ hname)
    · exact .only hexact hcanonical he hform.symm fun e' he' hform' => honly e' he' (hform'.trans hform)
  obtain ⟨id, hid⟩ := List.mem_iff_getElem?.mp he
  have hselect : lib.index.select? mnemonic = some id := lib.select?_eq_some_iff.mpr ⟨e, hid, hselects⟩
  exact ⟨id, by rw [lib.lookup_of_select? hselect hid, if_pos hexternal]⟩

namespace Catalog

theorem isName_of_own {i : Instruction} (hi : i ∈ Jvm.instructions) (hown : i.name ∉ overridden) :
    Text.IsName i.name := by
  have hall : (Jvm.instructions.all fun i => decide (i.name = ".line") ||
      i.name.toList.all Text.isNameChar && (i.name.toList.drop 1).any fun c => !c.isDigit) = true := by
    decide +kernel
  have hchecked := List.all_eq_true.mp hall i hi
  simp only [Bool.or_eq_true, Bool.and_eq_true, decide_eq_true_eq, List.all_eq_true,
    List.any_eq_true, Bool.not_eq_true'] at hchecked
  rcases hchecked with hline | ⟨hchars, hunnumbered⟩
  · exact absurd (by rw [hline]; decide +kernel) hown
  · exact ⟨hchars, hunnumbered⟩

/-- An override differs from every instruction that is there under its own name by more than capitals. -/
theorem overrides_apart {e : Entry} (he : e ∈ overrides) :
    Text.lower (canonical e.name) ∈ overridden ∨ jvm.find? (Text.lower (canonical e.name)) = none := by
  have hall : ∀ e ∈ overrides, Text.lower (canonical e.name) ∈ overridden ∨
      jvm.keyed.find? (textKey (Text.lower (canonical e.name))) = none := by
    decide +kernel
  rw [InstructionSet.find?_eq_keyed]
  exact hall e he

/-- An instruction that is not overridden is selected by its name, also in capitals. -/
theorem lookup_own {i : Instruction} (hfind : jvm.find? i.name = some i) (hown : i.name ∉ overridden)
    {mnemonic : String} (hm : Text.Spells i.name mnemonic) :
    ∃ id, textifierLibrary.lookup mnemonic = .ok (id, { name := i.name, body := [.emit i.name] }) := by
  have hname : Text.IsName i.name := isName_of_own (List.mem_of_find?_eq_some hfind) hown
  have hmem : ({ name := i.name, body := [.emit i.name] } : Entry) ∈ ownNames := by
    refine List.mem_map.mpr ⟨i, List.mem_filter.mpr ⟨List.mem_of_find?_eq_some hfind, ?_⟩, rfl⟩
    simpa using hown
  refine textifierLibrary.lookup_of_canonical (List.mem_append_left overrides hmem) rfl
    (hm.canonical_eq hname) fun e he hform => ?_
  have hlower : Text.lower (canonical e.name) = i.name := by
    rw [hform, hname.canonical_eq, hname.lower_upper]
  rcases List.mem_append.mp he with he | he
  · obtain ⟨i', hi', rfl⟩ := List.mem_map.mp he
    obtain ⟨hi', hown'⟩ := List.mem_filter.mp hi'
    have hname' : Text.IsName i'.name := isName_of_own hi' (by simpa using hown')
    rw [hname'.canonical_eq, hname'.lower_upper] at hlower
    rw [hlower]
  · rcases overrides_apart he with hoverridden | hnone
    · exact absurd (hlower ▸ hoverridden) hown
    · rw [hlower, hfind] at hnone
      cases hnone

end Catalog

/-! ## Primitives that can be read back -/

/-- The primitive with its opcode spelled in another way. -/
def Primitive.respelled (spell : String → String) : Primitive → Primitive
  | insn opcode operands => insn (spell opcode) operands
  | jump opcode target => jump (spell opcode) target
  | label target => label target
  | tableSwitch opcode low default targets => tableSwitch (spell opcode) low default targets
  | dynCall site => dynCall site

/-- The primitive is an instruction with words for operands or a jump to a label that the source can
name, and its opcode is one that the textifier library has under its own name. -/
inductive Primitive.Readable : Primitive → Prop
  | insn {opcode : String} {operands : List String} (hinsn : jvm.Insn opcode operands)
      (hown : opcode ∉ Catalog.overridden) (hwords : ∀ operand ∈ operands, Text.IsWord operand) :
      Readable (.insn opcode operands)
  | jump {opcode name : String} {digits : List Char} (hjump : jvm.Jump opcode)
      (hown : opcode ∉ Catalog.overridden) (hname : name.toList = 'L' :: digits)
      (hdigits : digits ≠ [] ∧ ∀ c ∈ digits, c.isDigit = true) :
      Readable (.jump opcode (.named name))

/-- The primitive is written as the name of an instruction and some operands, and the instruction takes
just these operands to emit the primitive. -/
structure Primitive.WrittenAs (p : Primitive) (i : Instruction) (operands : List String) : Prop where
  found : jvm.find? i.name = some i
  own : i.name ∉ Catalog.overridden
  words : ∀ operand ∈ operands, Text.IsWord operand
  text : ∀ spell, (p.respelled spell).text = " ".intercalate (spell i.name :: operands)
  emits : ∀ (className mnemonic : String) (state : UnitState),
    Scope.emitInstruction ⟨Catalog.textifier, className, mnemonic⟩ i (state.start operands) =
      .ok ((state.start []).emit p)

namespace Primitive.Readable

theorem writtenAs_insn {opcode : String} {operands : List String} (hinsn : jvm.Insn opcode operands)
    (hown : opcode ∉ Catalog.overridden) (hwords : ∀ operand ∈ operands, Text.IsWord operand) :
    ∃ i, (Primitive.insn opcode operands).WrittenAs i operands := by
  obtain ⟨form, hfind, hcarries⟩ := hinsn
  refine ⟨⟨opcode, form⟩, hfind, hown, hwords, fun _ => rfl, fun className mnemonic state => ?_⟩
  cases form with
  | none =>
    obtain rfl := List.length_eq_zero_iff.mp hcarries
    rfl
  | one =>
    obtain ⟨a, rfl⟩ := List.length_eq_one_iff.mp hcarries
    rfl
  | two =>
    obtain ⟨a, b, rfl⟩ := List.length_eq_two.mp hcarries
    rfl
  | label => cases hcarries
  | rest =>
    have hshown : (Operands.ofTexts operands).map Field.shown = operands := by
      rw [Operands.ofTexts, List.map_map]
      exact List.map_id _
    simp only [Scope.emitInstruction, UnitState.start, hshown]
    rfl

theorem isWord_of_label {name : String} {digits : List Char} (hname : name.toList = 'L' :: digits)
    (hdigits : ∀ c ∈ digits, c.isDigit = true) : Text.IsWord name := by
  have hchars (c : Char) (hc : c ∈ name.toList) : Text.isBlank c = false ∧ c ≠ ';' := by
    rcases List.mem_cons.mp (hname ▸ hc) with rfl | hc
    · decide
    · exact (Text.isNameChar_capital (by simp [Text.isNameChar, hdigits c hc])).1
  exact ⟨by simp [hname], fun c hc => (hchars c hc).1, fun hmem => (hchars _ hmem).2 rfl⟩

theorem writtenAs_jump {opcode name : String} {digits : List Char} (hjump : jvm.Jump opcode)
    (hown : opcode ∉ Catalog.overridden) (hname : name.toList = 'L' :: digits)
    (hdigits : digits ≠ [] ∧ ∀ c ∈ digits, c.isDigit = true) :
    ∃ i, (Primitive.jump opcode (.named name)).WrittenAs i [name] := by
  refine ⟨⟨opcode, .label⟩, hjump, hown, ?_, fun _ => rfl, fun className mnemonic state => ?_⟩
  · simpa using isWord_of_label hname hdigits.2
  · have haccepts : LabelForm.accepts ⟨'L'⟩ name = true := by
      simpa [LabelForm.accepts, hname] using hdigits
    have hcheck : Scope.checkLabel ⟨Catalog.textifier, className, mnemonic⟩ (.named name) =
        .ok (.named name) := by
      have hoptions : Catalog.textifier.has .structuredLabels = false := rfl
      have hform : Catalog.textifier.labelForm = some ⟨'L'⟩ := rfl
      simp only [Scope.checkLabel, hoptions, hform, haccepts]
      rfl
    have htake : Scope.takeLabel ⟨Catalog.textifier, className, mnemonic⟩ (state.start [name]) =
        .ok (.named name, state.start []) := bind_of_ok hcheck _
    exact bind_of_ok htake _

theorem writtenAs {p : Primitive} (h : p.Readable) : ∃ i operands, p.WrittenAs i operands := by
  cases h with
  | insn hinsn hown hwords =>
    obtain ⟨i, hwritten⟩ := writtenAs_insn hinsn hown hwords
    exact ⟨i, _, hwritten⟩
  | jump hjump hown hname hdigits =>
    obtain ⟨i, hwritten⟩ := writtenAs_jump hjump hown hname hdigits
    exact ⟨i, _, hwritten⟩

end Primitive.Readable

/-! ## Lines -/

variable {p : Primitive} {i : Instruction} {operands : List String} {mnemonic : String}

namespace Primitive.WrittenAs

theorem isName (h : p.WrittenAs i operands) : Text.IsName i.name :=
  Catalog.isName_of_own (List.mem_of_find?_eq_some h.found) h.own

/-- The line of the primitive emits the primitive, and that is all. -/
theorem lowerLine (h : p.WrittenAs i operands) (hm : Text.Spells i.name mnemonic) (config : UnitConfig)
    (state : UnitState) (number : Nat) :
    let line : SourceLine := ⟨number, mnemonic, operands⟩
    ∃ indent, state.lowerLine Catalog.textifierLibrary config line =
      ⟨line, .instruction line indent [p], [], state⟩ := by
  obtain ⟨id, hlookup⟩ := Catalog.lookup_own h.found h.own hm
  have hlabel : Catalog.textifierLibrary.isLabel mnemonic = false := h.isName.not_accepts hm _
  have hinvoke : state.invoke ⟨Catalog.textifier, config.className, mnemonic⟩
      { name := i.name, body := [.emit i.name] } operands = .ok ((state.start []).emit p) := by
    have hisa : Catalog.textifier.isa = jvm := rfl
    refine UnitState.invoke_eq_ok_iff.mpr ⟨Op.runAll_last ?_, rfl⟩
    simp only [Scope.perform, Scope.emitNamed, hisa, h.found]
    exact h.emits ..
  exact UnitState.lowerLine_of_invoke ⟨number, mnemonic, operands⟩ (by simp [hlabel]) hlookup hinvoke rfl

theorem ofLine (h : p.WrittenAs i operands) {spell : String → String}
    (hspell : Text.Spells i.name (spell i.name)) (number : Nat) :
    SourceLine.parse? number (p.respelled spell).text = some ⟨number, spell i.name, operands⟩ := by
  rw [h.text]
  exact SourceLine.parse?_intercalate number
    (List.forall_mem_cons.mpr ⟨hspell.isWord h.isName, h.words⟩)

theorem noFeed (h : p.WrittenAs i operands) {spell : String → String}
    (hspell : Text.Spells i.name (spell i.name)) : '\n' ∉ (p.respelled spell).text.toList := by
  rw [h.text]
  intro hmem
  rcases Text.mem_intercalate hmem with hblank | ⟨w, hw, hmem⟩
  · cases hblank
  · have hword : Text.IsWord w :=
      List.forall_mem_cons.mpr ⟨hspell.isWord h.isName, h.words⟩ w hw
    exact absurd (hword.noBlank _ hmem) (by decide)

end Primitive.WrittenAs

/-- The lines of primitives, counted on from a number. -/
def Primitive.sourceLines (spell : String → String) (first : Nat) (ps : List Primitive) :
    List SourceLine :=
  ((ps.map fun p => (p.respelled spell).text).zipIdx first).filterMap
    fun numbered => SourceLine.parse? (min (numbered.2 + 1) SourceLine.largestNumber) numbered.1

theorem UnitState.lowerLines_readable {spell : String → String}
    (hspell : ∀ name, Text.Spells name (spell name)) (config : UnitConfig) (state : UnitState)
    {ps : List Primitive} (h : ∀ p ∈ ps, p.Readable) (first : Nat) :
    let lines := Primitive.sourceLines spell first ps
    let results := state.lowerLines Catalog.textifierLibrary config lines
    results.flatMap (·.item.primitives) = ps ∧ (∀ r ∈ results, r.diagnostics = []) ∧
      state.afterLines Catalog.textifierLibrary config lines = state := by
  induction ps generalizing first with
  | nil => exact ⟨rfl, nofun, rfl⟩
  | cons p ps ih =>
    obtain ⟨i, operands, hwritten⟩ := (h p List.mem_cons_self).writtenAs
    obtain ⟨hprimitives, hdiagnostics, hafter⟩ :=
      ih (fun q hq => h q (List.mem_cons_of_mem _ hq)) (first + 1)
    obtain ⟨indent, hline⟩ :=
      hwritten.lowerLine (hspell i.name) config state (min (first + 1) SourceLine.largestNumber)
    have hlines : Primitive.sourceLines spell first (p :: ps) =
        ⟨min (first + 1) SourceLine.largestNumber, spell i.name, operands⟩ ::
          Primitive.sourceLines spell (first + 1) ps := by
      rw [Primitive.sourceLines, List.map_cons, List.zipIdx_cons]
      exact List.filterMap_cons_some (hwritten.ofLine (hspell i.name) _)
    simp only [hlines, lowerLines, afterLines, List.foldl_cons, hline]
    refine ⟨?_, ?_, hafter⟩
    · rw [List.flatMap_cons, hprimitives]
      rfl
    · exact List.forall_mem_cons.mpr ⟨rfl, hdiagnostics⟩

/-- The listing of primitives with their opcodes spelled in some way, one on each line. -/
def Primitive.listing (spell : String → String) (ps : List Primitive) : String :=
  Text.ofLines (ps.map fun p => (p.respelled spell).text)

/-- The textifier library lowers a listing of instructions and jumps to the primitives that it shows,
without a diagnostic, whether the opcodes are written as in the target or in capitals. -/
theorem Catalog.textifier_reads_listing (config : UnitConfig) {ps : List Primitive}
    (h : ∀ p ∈ ps, p.Readable) :
    ∀ spell ∈ [id, Text.upper], ∃ report,
      lowerText textifierLibrary config (Primitive.listing spell ps) = .ok report ∧
        report.diagnostics = [] ∧ report.primitives = ps := by
  intro spell hspell
  have hspells (name : String) : Text.Spells name (spell name) := by
    rcases List.mem_cons.mp hspell with rfl | hspell
    · exact .same
    · rw [List.mem_singleton.mp hspell]
      exact .capitals
  have hlines : SourceLine.ofText (Primitive.listing spell ps) = Primitive.sourceLines spell 0 ps := by
    refine (SourceLine.ofText_ofLines fun line hline => ?_).trans (SourceLine.map_positioned _)
    obtain ⟨p, hp, rfl⟩ := List.mem_map.mp hline
    obtain ⟨i, operands, hwritten⟩ := (h p hp).writtenAs
    exact hwritten.noFeed (hspells i.name)
  obtain ⟨hprimitives, hdiagnostics, hafter⟩ := UnitState.lowerLines_readable hspells config {} h 0
  rw [← hlines] at hprimitives hdiagnostics hafter
  refine ⟨_, lowerText_unstopped fun _ r hr => ?_, ?_, ?_⟩
  · simp [LineResult.isFatal, hdiagnostics r hr]
  · rw [hafter]
    exact List.append_eq_nil_iff.mpr ⟨List.flatMap_eq_nil_iff.mpr hdiagnostics, rfl⟩
  · rw [Report.primitives, Report.ofResults, List.flatMap_map]
    exact hprimitives

/-- A listing with operands of any kind and with a jump to a label of the source. -/
def countdown : List Primitive :=
  [.insn "iinc" ["3", "-1"], .insn "ldc_w" ["\"é\""], .jump "goto_w" (.named "L07")]

theorem Catalog.countdown_reads_listing :
    (∀ p ∈ countdown, p.Readable) ∧
    ∃ report, lowerText textifierLibrary {} "IINC 3 -1\nLDC_W \"é\"\nGOTO_W L07\n" = .ok report ∧
      report.diagnostics = [] ∧ report.primitives = countdown := by
  have hforms : ∀ i ∈ [⟨"iinc", .two⟩, ⟨"ldc_w", .one⟩, ⟨"goto_w", .label⟩],
      jvm.keyed.find? (textKey i.name) = some i ∧ i.name ∉ overridden := by
    decide +kernel
  simp only [← InstructionSet.find?_eq_keyed, List.forall_mem_cons] at hforms
  obtain ⟨⟨hiinc, hiinc'⟩, ⟨hldc, hldc'⟩, ⟨hgoto, hgoto'⟩, -⟩ := hforms
  have hwords : ∀ w ∈ ["3", "-1", "\"é\""], Text.IsWord w := by decide +kernel
  have hdigits : ∀ c ∈ ['0', '7'], c.isDigit = true := List.all_eq_true.mp (by decide)
  have hreadable : ∀ p ∈ countdown, p.Readable := by
    simp only [countdown, List.forall_mem_cons]
    refine ⟨.insn ⟨.two, hiinc, rfl⟩ hiinc' fun w hw => hwords w ?_,
      .insn ⟨.one, hldc, rfl⟩ hldc' fun w hw => hwords w ?_,
      .jump hgoto hgoto' (by decide +kernel : "L07".toList = 'L' :: ['0', '7']) ⟨by simp, hdigits⟩,
      nofun⟩
    · exact List.mem_append_left ["\"é\""] hw
    · exact List.mem_append_right ["3", "-1"] hw
  have htext : Primitive.listing Text.upper countdown = "IINC 3 -1\nLDC_W \"é\"\nGOTO_W L07\n" := by
    decide +kernel
  refine ⟨hreadable, ?_⟩
  rw [← htext]
  exact textifier_reads_listing {} hreadable Text.upper (List.mem_cons_of_mem _ List.mem_cons_self)

end Lowering
