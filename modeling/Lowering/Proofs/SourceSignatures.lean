-- SUMMARY: Source signatures of any length have the target descriptor of their types.
import Mathlib.Data.List.Infix
import Lowering.Catalog.Wasm
import Lowering.Proofs.Descriptors

/-!
# Source signatures

The target descriptor of a source signature comes about by replacing one spelling after the other in the
whole text. No replacement can match across the end of a type or create a match for a later one: the arrow
occurs once, and where the separators are gone, a type still starts with the only character that is no
digit. So each type is replaced by its own code, however many there are.
-/

namespace Lowering

/-! ## Replacement -/

namespace Text

theorem occursIn_eq_true_iff {pattern cs : List Char} : occursIn pattern cs = true ↔ pattern <:+: cs := by
  induction cs with
  | nil => simp [occursIn]
  | cons c cs ih =>
    rw [occursIn, Bool.or_eq_true, ih, List.isPrefixOf_iff_prefix, List.infix_cons_iff]

/-- A text without one of the characters of a pattern does not contain the pattern. -/
theorem contains_eq_false {s pattern : String} {c : Char} (hc : c ∈ pattern.toList)
    (hs : c ∉ s.toList) : contains s pattern = false := by
  apply Bool.eq_false_iff.mpr
  intro h
  exact hs ((occursIn_eq_true_iff.mp h).subset hc)

variable {replacement : List Char}

/-- The rest of an occurrence is passed over. -/
theorem replaceFrom_passed {pattern : List Char} (passed rest : List Char) :
    replaceFrom pattern replacement passed.length (passed ++ rest) =
      replaceFrom pattern replacement 0 rest := by
  induction passed with
  | nil => rfl
  | cons c passed ih => exact ih

theorem replaceFrom_occurrence {pattern : List Char} (hpattern : pattern ≠ []) (rest : List Char) :
    replaceFrom pattern replacement 0 (pattern ++ rest) =
      replacement ++ replaceFrom pattern replacement 0 rest := by
  obtain ⟨c, pattern, rfl⟩ := List.exists_cons_of_ne_nil hpattern
  have hhere : (c :: pattern).isPrefixOf (c :: (pattern ++ rest)) = true :=
    List.isPrefixOf_iff_prefix.mpr (List.prefix_append (c :: pattern) rest)
  rw [List.cons_append, replaceFrom, if_pos hhere]
  exact congrArg _ (replaceFrom_passed pattern rest)

/-- Characters that no occurrence starts with are kept. -/
theorem replaceFrom_kept {c : Char} {pattern kept : List Char} (h : c ∉ kept) (rest : List Char) :
    replaceFrom (c :: pattern) replacement 0 (kept ++ rest) =
      kept ++ replaceFrom (c :: pattern) replacement 0 rest := by
  induction kept with
  | nil => rfl
  | cons d kept ih =>
    rw [List.mem_cons, not_or] at h
    have hother : (c :: pattern).isPrefixOf (d :: (kept ++ rest)) ≠ true := by
      simp [List.isPrefixOf, h.1]
    rw [List.cons_append, replaceFrom, if_neg hother, ih h.2, List.cons_append]

/-- Without a replacement, a single character is taken out. -/
theorem replaceFrom_singleton (c : Char) (cs : List Char) :
    replaceFrom [c] [] 0 cs = cs.filter (· ≠ c) := by
  induction cs with
  | nil => rfl
  | cons d cs ih =>
    by_cases h : d = c
    · subst h
      simpa [replaceFrom, List.isPrefixOf] using ih
    · simpa [replaceFrom, List.isPrefixOf, h, Ne.symm h] using ih

end Text

/-! ## Lexemes -/

/-- A character that is no digit, and the digits that belong to it. -/
inductive Lexeme : List Char → Prop where
  | mk {c : Char} {digits : List Char} (hc : c.isDigit = false)
      (hdigits : ∀ d ∈ digits, d.isDigit = true) : Lexeme (c :: digits)

namespace Lexeme

theorem iff_digits {w : List Char} :
    Lexeme w ↔ w.head?.any (fun c => !c.isDigit) = true ∧ w.tail.all Char.isDigit = true := by
  constructor
  · rintro ⟨hc, hdigits⟩
    simpa [hc] using hdigits
  · rintro ⟨hc, hdigits⟩
    cases w with
    | nil => cases hc
    | cons c digits => exact .mk (by simpa using hc) (by simpa using hdigits)

instance (w : List Char) : Decidable (Lexeme w) := decidable_of_iff _ iff_digits.symm

/-- What lexemes make up does not start with a digit. -/
theorem flatten_start {words : List (List Char)} (h : ∀ w ∈ words, Lexeme w) {d : Char} {rest : List Char}
    (hstart : words.flatten = d :: rest) : d.isDigit = false := by
  cases words with
  | nil => cases hstart
  | cons w words =>
    cases h w List.mem_cons_self with
    | mk hc hdigits =>
      cases hstart
      exact hc

/-- A lexeme that stands at the front of lexemes stands at the front of the first of them. -/
theorem prefix_first {pattern w : List Char} {words : List (List Char)} (hpattern : Lexeme pattern)
    (hw : Lexeme w) (hwords : ∀ w ∈ words, Lexeme w) (h : pattern <+: w ++ words.flatten) :
    pattern <+: w := by
  rcases List.prefix_or_prefix_of_prefix h (List.prefix_append w words.flatten) with hfirst | ⟨more, rfl⟩
  · exact hfirst
  · -- Beyond the first lexeme, the pattern would have a digit where no lexeme has one.
    cases more with
    | nil => simp
    | cons d more =>
      obtain ⟨rest, hrest⟩ := (List.prefix_append_right_inj w).mp h
      have hother := flatten_start hwords hrest.symm
      cases hw with
      | mk hc hdigits =>
        cases hpattern with
        | mk hc' hdigits' =>
          rw [hdigits' d (by simp)] at hother
          cases hother

/-- In lexemes that are not longer, an occurrence of a lexeme is one of them. -/
theorem replaceFrom_flatten {pattern replacement : List Char} (hpattern : Lexeme pattern)
    {words : List (List Char)} (hwords : ∀ w ∈ words, Lexeme w)
    (hlength : ∀ w ∈ words, w.length ≤ pattern.length) :
    Text.replaceFrom pattern replacement 0 words.flatten =
      (words.map fun w => if w = pattern then replacement else w).flatten := by
  induction words with
  | nil => rfl
  | cons w words ih =>
    obtain ⟨hw, hwords⟩ := List.forall_mem_cons.mp hwords
    obtain ⟨hfirst, hlength⟩ := List.forall_mem_cons.mp hlength
    have hrest := ih hwords hlength
    rw [List.flatten_cons, List.map_cons, List.flatten_cons, ← hrest]
    by_cases heq : w = pattern
    · subst heq
      rw [if_pos rfl]
      exact Text.replaceFrom_occurrence (by cases hw; simp) _
    · rw [if_neg heq]
      have hnot : pattern.isPrefixOf (w ++ words.flatten) ≠ true := by
        intro hprefix
        have hfront := prefix_first hpattern hw hwords (List.isPrefixOf_iff_prefix.mp hprefix)
        exact heq (hfront.eq_of_length_le hfirst).symm
      cases hw with
      | @mk c digits hc hdigits =>
        cases hpattern with
        | @mk c' digits' hc' hdigits' =>
          have hkept : c' ∉ digits := by
            intro hmem
            rw [hdigits c' hmem] at hc'
            cases hc'
          rw [List.cons_append] at hnot ⊢
          rw [Text.replaceFrom, if_neg hnot, Text.replaceFrom_kept hkept, List.cons_append]

end Lexeme

/-! ## Replacements in a row -/

namespace Text

/-- Replaces one pattern after the other. -/
def replaceEach (s : String) (rules : List (String × String)) : String :=
  rules.foldl (fun s rule => replaceAll s rule.1 rule.2) s

theorem replaceAll_ofList {pattern : String} (hpattern : pattern.toList ≠ []) (replacement : String)
    (cs : List Char) :
    replaceAll (String.ofList cs) pattern replacement =
      String.ofList (replaceFrom pattern.toList replacement.toList 0 cs) := by
  rw [replaceAll, replaceChars, String.toList_ofList, if_neg (by simpa using hpattern)]

/-- Where all patterns start with one character, what stands before it is kept. -/
theorem replaceEach_kept {c : Char} {kept : List Char} (hkept : c ∉ kept) {rules : List (String × String)}
    (hrules : ∀ rule ∈ rules, rule.1.toList.head? = some c) (rest : List Char) :
    replaceEach (String.ofList (kept ++ rest)) rules =
      String.ofList (kept ++ (replaceEach (String.ofList rest) rules).toList) := by
  induction rules generalizing rest with
  | nil => simp [replaceEach]
  | cons rule rules ih =>
    obtain ⟨hfirst, hrules⟩ := List.forall_mem_cons.mp hrules
    obtain ⟨pattern, hpattern⟩ := List.head?_eq_some_iff.mp hfirst
    have hne : rule.1.toList ≠ [] := by simp [hpattern]
    have hstep := ih hrules (replaceFrom rule.1.toList rule.2.toList 0 rest)
    unfold replaceEach at hstep ⊢
    rw [List.foldl_cons, List.foldl_cons, replaceAll_ofList hne, replaceAll_ofList hne, ← hstep, hpattern,
      replaceFrom_kept hkept]

/-- Spellings that are lexemes of one length, and replacements that are lexemes no longer than they. -/
structure Lexical (rules : List (String × String)) (length : Nat) : Prop where
  pattern : ∀ rule ∈ rules, Lexeme rule.1.toList ∧ rule.1.toList.length = length
  replacement : ∀ rule ∈ rules, Lexeme rule.2.toList ∧ rule.2.toList.length ≤ length

/-- Replacing lexemes one after the other in a text replaces each of the lexemes that it consists of. -/
theorem replaceEach_flatten {rules : List (String × String)} {length : Nat} (h : Lexical rules length)
    {words : List (List Char)} (hwords : ∀ w ∈ words, Lexeme w ∧ w.length ≤ length) :
    replaceEach (String.ofList words.flatten) rules =
      String.ofList (words.map fun w =>
        rules.foldl (fun w rule => if w = rule.1.toList then rule.2.toList else w) w).flatten := by
  induction rules generalizing words with
  | nil => simp [replaceEach]
  | cons rule rules ih =>
    have hpattern := h.pattern rule List.mem_cons_self
    have hreplacement := h.replacement rule List.mem_cons_self
    have hrules : Lexical rules length :=
      ⟨fun rule' hmem => h.pattern rule' (List.mem_cons_of_mem _ hmem),
        fun rule' hmem => h.replacement rule' (List.mem_cons_of_mem _ hmem)⟩
    have hne : rule.1.toList ≠ [] := by
      intro heq
      rw [heq] at hpattern
      cases hpattern.1
    have hfirst := @Lexeme.replaceFrom_flatten _ rule.2.toList hpattern.1 words
      (fun w hw => (hwords w hw).1) (fun w hw => hpattern.2 ▸ (hwords w hw).2)
    have hreplaced : ∀ w ∈ words.map (fun w => if w = rule.1.toList then rule.2.toList else w),
        Lexeme w ∧ w.length ≤ length := by
      intro w hw
      obtain ⟨w', hw', rfl⟩ := List.mem_map.mp hw
      split
      · exact hreplacement
      · exact hwords w' hw'
    have hstep := ih hrules hreplaced
    unfold replaceEach at hstep ⊢
    rw [List.foldl_cons, replaceAll_ofList hne, hfirst, hstep, List.map_map]
    rfl

end Text

theorem filter_ne_of_notMem {c : Char} {w : List Char} (h : c ∉ w) : w.filter (· ≠ c) = w := by
  apply List.filter_eq_self.mpr
  intro d hd
  exact decide_eq_true fun heq => h (heq ▸ hd)

theorem filter_intercalate {c : Char} {words : List (List Char)} (h : ∀ w ∈ words, c ∉ w) :
    ([c].intercalate words).filter (· ≠ c) = words.flatten := by
  induction words with
  | nil => rfl
  | cons w words ih =>
    have hfirst := filter_ne_of_notMem (h w List.mem_cons_self)
    cases words with
    | nil => simpa [List.intercalate] using hfirst
    | cons w' words =>
      have hrest := ih fun w hw => h w (List.mem_cons_of_mem _ hw)
      rw [List.intercalate_cons_cons, List.filter_append, List.filter_append, hfirst, hrest,
        List.flatten_cons]
      simp

/-- A source signature loses its arrow, then its separators, then the names of its types. -/
theorem SignatureStyle.toTarget_eq {style : SignatureStyle} {s : String}
    (h : Text.contains s style.arrow = true) :
    let arrows := style.voidMarkers.map (fun marker => (marker, "V")) ++ [(style.arrow, "")]
    style.toTarget s =
      Text.replaceEach (Text.replaceAll (Text.replaceEach s arrows) style.separator "") style.types := by
  simp only [toTarget, if_pos h, Text.replaceEach, List.foldl_append, List.foldl_map, List.foldl_cons,
    List.foldl_nil]

/-! ## Signatures -/

/-- A type in a source signature, by its name or by its target code. -/
inductive TypeWord where
  | name (type : ValueType)
  | code (type : ValueType)

namespace TypeWord

def type : TypeWord → ValueType
  | name type | code type => type

def text : TypeWord → String
  | name type => type.name
  | code type => type.code

end TypeWord

/-- The result in a source signature. There are two ways to write that there is none. -/
inductive ResultWord where
  | value (word : TypeWord)
  | empty
  | void

namespace ResultWord

def text : ResultWord → String
  | value word => word.text
  | empty => "()"
  | void => "V00"

/-- What is left of the result and the arrow before it when the arrow is gone. -/
def marker : ResultWord → String
  | value word => word.text
  | empty | void => "V"

/-- The code of the result in a target descriptor. -/
def code : ResultWord → String
  | value word => word.type.code
  | empty | void => "V"

end ResultWord

theorem ValueType.code_fieldType (type : ValueType) :
    FieldType type.code.toList ∧ ')' ∉ type.code.toList := by
  cases type with
  | i32 => exact ⟨.base (by decide), by decide⟩
  | i64 => exact ⟨.base (by decide), by decide⟩
  | f32 => exact ⟨.base (by decide), by decide⟩
  | f64 => exact ⟨.base (by decide), by decide⟩

structure SourceSignature where
  params : List TypeWord
  result : ResultWord

namespace SourceSignature

/-- The signature as it is written, such as `(I32,I64)->F64`. -/
def text (s : SourceSignature) : String :=
  "(" ++ ",".intercalate (s.params.map TypeWord.text) ++ ")->" ++ s.result.text

/-- The types of the signature as target codes. -/
def target (s : SourceSignature) : Signature :=
  ⟨s.params.map fun word => word.type.code, s.result.code⟩

/-- The parameters as they are written, in their parentheses. -/
def front (s : SourceSignature) : List Char :=
  '(' :: [','].intercalate (s.params.map fun word => word.text.toList) ++ [')']

/-- What the signature consists of when the arrow and the separators are gone. -/
def words (s : SourceSignature) : List (List Char) :=
  ['('] :: s.params.map (fun word => word.text.toList) ++ [[')'], s.result.marker.toList]

end SourceSignature

/-- A lexeme of at most three characters, none of which is part of an arrow or a separator. -/
structure SignatureWord (w : List Char) : Prop where
  no_arrow : '-' ∉ w
  no_separator : ',' ∉ w
  lexeme : Lexeme w
  length_le : w.length ≤ 3

theorem TypeWord.text_word (word : TypeWord) : SignatureWord word.text.toList := by
  rcases word with type | type <;> cases type <;> exact ⟨by decide, by decide, by decide, by decide⟩

theorem ResultWord.marker_word (r : ResultWord) : SignatureWord r.marker.toList := by
  rcases r with word | _ | _
  · exact word.text_word
  · exact ⟨by decide, by decide, by decide, by decide⟩
  · exact ⟨by decide, by decide, by decide, by decide⟩

namespace SourceSignature

theorem text_eq (s : SourceSignature) :
    s.text = String.ofList (s.front ++ '-' :: '>' :: s.result.text.toList) := by
  rw [← String.toList_inj, String.toList_ofList]
  simp [text, front, String.toList_intercalate, List.map_map, Function.comp_def]

theorem forall_words {P : List Char → Prop} (s : SourceSignature) (hopen : P ['(']) (hclose : P [')'])
    (hparam : ∀ word : TypeWord, P word.text.toList) (hresult : P s.result.marker.toList) :
    ∀ w ∈ s.words, P w := by
  intro w hw
  simp only [words, List.cons_append, List.mem_cons, List.mem_append, List.mem_map] at hw
  obtain rfl | ⟨word, -, rfl⟩ | rfl | rfl | hnone := hw
  · exact hopen
  · exact hparam word
  · exact hclose
  · exact hresult
  · cases hnone

theorem words_word (s : SourceSignature) : ∀ w ∈ s.words, SignatureWord w :=
  s.forall_words ⟨by decide, by decide, by decide, by decide⟩ ⟨by decide, by decide, by decide, by decide⟩
    TypeWord.text_word s.result.marker_word

theorem filter_separators (s : SourceSignature) :
    (s.front ++ s.result.marker.toList).filter (· ≠ ',') = s.words.flatten := by
  have hparams : ∀ w ∈ s.params.map (fun word => word.text.toList), ',' ∉ w := by
    intro w hw
    obtain ⟨word, -, rfl⟩ := List.mem_map.mp hw
    exact word.text_word.no_separator
  have hmarker := filter_ne_of_notMem s.result.marker_word.no_separator
  have hfront := filter_intercalate hparams
  simp only [front, words, List.cons_append, List.append_assoc, List.filter_cons, List.filter_append,
    hfront, hmarker]
  simp

theorem front_no_arrow (s : SourceSignature) : '-' ∉ s.front := by
  intro harrow
  have hmem : '-' ∈ s.words.flatten := by
    rw [← filter_separators]
    exact List.mem_filter.mpr ⟨List.mem_append_left _ harrow, by decide⟩
  obtain ⟨w, hw, hmem⟩ := List.mem_flatten.mp hmem
  exact (s.words_word w hw).no_arrow hmem

end SourceSignature

/-! ## WebAssembly -/

namespace Catalog

/-- What the markers and the arrow leave of the result. -/
theorem replaceEach_arrows (r : ResultWord) :
    Text.replaceEach (String.ofList ('-' :: '>' :: r.text.toList))
      [("->V00", "V"), ("->()", "V"), ("->", "")] = r.marker := by
  rcases r with word | _ | _
  · rcases word with type | type <;> cases type <;> decide
  · decide
  · decide

theorem wasmStyle_lexical : Text.Lexical wasmStyle.types 3 := ⟨by decide, by decide⟩

/-- The code that the replacements give a word. -/
def wasmCode (w : List Char) : List Char :=
  wasmStyle.types.foldl (fun w rule => if w = rule.1.toList then rule.2.toList else w) w

theorem wasmCode_type (word : TypeWord) : wasmCode word.text.toList = word.type.code.toList := by
  rcases word with type | type <;> cases type <;> decide

theorem wasmCode_result (r : ResultWord) : wasmCode r.marker.toList = r.code.toList := by
  rcases r with word | _ | _
  · exact wasmCode_type word
  · decide
  · decide

theorem flatten_wasmCode (s : SourceSignature) :
    (s.words.map wasmCode).flatten = s.target.text.toList := by
  have hparams : (s.params.map fun word => wasmCode word.text.toList) =
      s.params.map fun word => word.type.code.toList :=
    List.map_congr_left fun word _ => wasmCode_type word
  have hopen : wasmCode ['('] = ['('] := by decide
  have hclose : wasmCode [')'] = [')'] := by decide
  simp only [SourceSignature.words, List.map_cons, List.map_append, List.map_map, Function.comp_def,
    hparams, hopen, hclose, wasmCode_result, List.map_nil]
  simp [Signature.text, SourceSignature.target, List.flatMap_def, List.map_map, Function.comp_def]

/-- The target descriptor of a source signature is the descriptor of its types. -/
theorem wasmStyle_toTarget (s : SourceSignature) : wasmStyle.toTarget s.text = s.target.text := by
  have harrow : Text.contains s.text wasmStyle.arrow = true := by
    apply Text.occursIn_eq_true_iff.mpr
    refine ⟨s.front, s.result.text.toList, ?_⟩
    rw [SourceSignature.text_eq, String.toList_ofList, List.append_assoc]
    rfl
  have harrows : Text.replaceEach s.text [("->V00", "V"), ("->()", "V"), ("->", "")] =
      String.ofList (s.front ++ s.result.marker.toList) := by
    rw [SourceSignature.text_eq, Text.replaceEach_kept s.front_no_arrow (by decide), replaceEach_arrows]
  have hseparators : Text.replaceAll (String.ofList (s.front ++ s.result.marker.toList)) "," "" =
      String.ofList s.words.flatten := by
    rw [Text.replaceAll_ofList (by decide), ← s.filter_separators, ← Text.replaceFrom_singleton]
    rfl
  calc wasmStyle.toTarget s.text
    _ = Text.replaceEach (Text.replaceAll (Text.replaceEach s.text
          [("->V00", "V"), ("->()", "V"), ("->", "")]) "," "") wasmStyle.types :=
        SignatureStyle.toTarget_eq harrow
    _ = Text.replaceEach (String.ofList s.words.flatten) wasmStyle.types := by rw [harrows, hseparators]
    _ = String.ofList (s.words.map wasmCode).flatten :=
        Text.replaceEach_flatten wasmStyle_lexical fun w hw =>
          ⟨(s.words_word w hw).lexeme, (s.words_word w hw).length_le⟩
    _ = s.target.text := by rw [flatten_wasmCode, String.ofList_toList]

/-- No part of an arrow or of the name of a type is left in the descriptor. -/
theorem target_plain (s : SourceSignature) {c : Char} (hc : c ∈ s.target.text.toList) :
    c ≠ '-' ∧ c.isDigit = false := by
  have hwords : ∀ w ∈ s.words, (wasmCode w).all (fun c => c != '-' && !c.isDigit) = true := by
    refine s.forall_words (by decide) (by decide) (fun word => ?_) ?_
    · rw [wasmCode_type]
      cases word.type <;> decide
    · rw [wasmCode_result]
      rcases s.result with word | _ | _
      · show word.type.code.toList.all _ = true
        cases word.type <;> decide
      · decide
      · decide
  rw [← flatten_wasmCode] at hc
  obtain ⟨code, hcode, hc⟩ := List.mem_flatten.mp hc
  obtain ⟨w, hw, rfl⟩ := List.mem_map.mp hcode
  simpa using List.all_eq_true.mp (hwords w hw) c hc

theorem target_wellFormed (s : SourceSignature) : s.target.WellFormed where
  params t ht := by
    obtain ⟨word, -, rfl⟩ := List.mem_map.mp ht
    exact word.type.code_fieldType
  result := by
    show s.result.code = "V" ∨ FieldType s.result.code.toList
    cases s.result with
    | value word => exact .inr word.type.code_fieldType.1
    | empty => exact .inl rfl
    | void => exact .inl rfl

/-- A source signature, of any number of parameters, has a target descriptor in which no source spelling is
left. It is read as the codes of the parameters and of the result, and has itself as its target
descriptor. -/
theorem wasmStyle_translates_signatures (s : SourceSignature) :
    let target := wasmStyle.toTarget s.text
    wasmStyle.hasPlaceholder target = false ∧ Signature.parse? target = some s.target ∧
      wasmStyle.toTarget target = target := by
  intro target
  have htarget : target = s.target.text := wasmStyle_toTarget s
  have harrow : Text.contains target wasmStyle.arrow = false := by
    apply Text.contains_eq_false (show '-' ∈ wasmStyle.arrow.toList by decide)
    rw [htarget]
    exact fun hmem => (target_plain s hmem).1 rfl
  have htypes : wasmStyle.types.any (fun type => Text.contains target type.1) = false := by
    have hdigits : (wasmStyle.types.all fun type => type.1.toList.any Char.isDigit) = true := by decide
    apply List.any_eq_false.mpr
    intro type htype
    obtain ⟨d, hd, hdigit⟩ := List.any_eq_true.mp (List.all_eq_true.mp hdigits type htype)
    rw [Text.contains_eq_false hd]
    · exact Bool.false_ne_true
    · rw [htarget]
      intro hmem
      rw [(target_plain s hmem).2] at hdigit
      cases hdigit
  refine ⟨?_, ?_, ?_⟩
  · rw [SignatureStyle.hasPlaceholder, harrow, Bool.false_or]
    exact htypes
  · exact Signature.parse?_eq_some_iff.mpr ⟨htarget, target_wellFormed s⟩
  · exact if_neg (Bool.eq_false_iff.mp harrow)

end Catalog

end Lowering
