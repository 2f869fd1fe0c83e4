-- SUMMARY: Replacement in a text goes on separately before and behind a part that no occurrence touches.
import Lowering.Proofs.SourceSignatures

/-!
# Replacement around a part of a text

A translation replaces one spelling after the other, so what becomes of a text as a whole is hard to tell.
But where some part of it shares no character with any occurrence of a spelling, the part stays, and what
stands before it and what stands behind it are translated each on its own.
-/

namespace Lowering

namespace Text

/-! ## Characters -/

/-- Whether one of the texts starts with the other. -/
def meets (p q : List Char) : Bool := p.isPrefixOf q || q.isPrefixOf p

theorem meets_of_prefix_append {p q rest : List Char} (h : p <+: q ++ rest) : meets p q = true := by
  rw [meets, Bool.or_eq_true, List.isPrefixOf_iff_prefix, List.isPrefixOf_iff_prefix]
  exact List.prefix_or_prefix_of_prefix h (List.prefix_append q rest)

/-- No occurrence of the pattern shares a character with the text `middle`, whatever stands around it. -/
def apart (pattern middle : List Char) : Bool :=
  !pattern.isEmpty && middle.tails.all (fun m => m.isEmpty || !meets pattern m) &&
    pattern.tails.all fun p => p.isEmpty || !meets p middle

section

variable {pattern middle : List Char} (h : apart pattern middle = true)
include h

theorem ne_nil_of_apart : pattern ≠ [] := by
  simp only [apart, Bool.and_eq_true] at h
  simpa using h.1.1

/-- No occurrence starts in the middle. -/
theorem not_prefix_of_apart {m : List Char} (hm : m <:+ middle) (hne : m ≠ []) (rest : List Char) :
    ¬pattern <+: m ++ rest := by
  intro hprefix
  simp only [apart, Bool.and_eq_true, List.all_eq_true, List.mem_tails] at h
  have hmeets := h.1.2 m hm
  rw [meets_of_prefix_append hprefix] at hmeets
  exact hne (by simpa using hmeets)

/-- An occurrence that starts before the middle ends before it. -/
theorem prefix_around_iff (before rest : List Char) :
    pattern <+: before ++ (middle ++ rest) ↔ pattern <+: before := by
  refine ⟨fun hprefix => ?_, fun hprefix => hprefix.trans (List.prefix_append _ _)⟩
  rcases List.prefix_or_prefix_of_prefix hprefix (List.prefix_append before _) with hbefore | ⟨p, rfl⟩
  · exact hbefore
  · have hmeets := meets_of_prefix_append ((List.prefix_append_right_inj before).mp hprefix)
    simp only [apart, Bool.and_eq_true, List.all_eq_true, List.mem_tails] at h
    have hempty := h.2 p (List.suffix_append before p)
    rw [hmeets] at hempty
    obtain rfl : p = [] := by simpa using hempty
    rw [List.append_nil]

theorem replaceFrom_middle {replacement : List Char} (rest : List Char) :
    replaceFrom pattern replacement 0 (middle ++ rest) =
      middle ++ replaceFrom pattern replacement 0 rest := by
  have hsuffix : ∀ m, m <:+ middle → replaceFrom pattern replacement 0 (m ++ rest) =
      m ++ replaceFrom pattern replacement 0 rest := by
    intro m hm
    induction m with
    | nil => rfl
    | cons c m ih =>
      have hnot := not_prefix_of_apart h hm (List.cons_ne_nil c m) rest
      rw [← List.isPrefixOf_iff_prefix, List.cons_append] at hnot
      rw [List.cons_append, replaceFrom, if_neg hnot, ih ((List.suffix_cons c m).trans hm), List.cons_append]
  exact hsuffix middle (List.suffix_refl middle)

/-- A text that no occurrence touches separates the replacements before it from those behind it. -/
theorem replaceFrom_around {replacement : List Char} (before rest : List Char) {skip : Nat}
    (hskip : skip ≤ before.length) :
    replaceFrom pattern replacement skip (before ++ (middle ++ rest)) =
      replaceFrom pattern replacement skip before ++
        (middle ++ replaceFrom pattern replacement 0 rest) := by
  induction before generalizing skip with
  | nil =>
    obtain rfl := Nat.le_zero.mp hskip
    exact replaceFrom_middle h rest
  | cons c before ih =>
    cases skip with
    | succ skip => exact ih (Nat.le_of_succ_le_succ hskip)
    | zero =>
      have hiff := prefix_around_iff h (c :: before) rest
      simp only [← List.isPrefixOf_iff_prefix, List.cons_append] at hiff
      rw [List.cons_append, replaceFrom, replaceFrom]
      by_cases hhere : pattern.isPrefixOf (c :: before) = true
      · have hlength : pattern.length - 1 ≤ before.length := by
          have := (List.isPrefixOf_iff_prefix.mp hhere).length_le
          rw [List.length_cons] at this
          omega
        rw [if_pos (hiff.mpr hhere), if_pos hhere, ih hlength, List.append_assoc]
      · rw [if_neg (mt hiff.mp hhere), if_neg hhere, ih (Nat.zero_le _), List.cons_append]

theorem infix_around_iff (before rest : List Char) :
    pattern <:+: before ++ (middle ++ rest) ↔ pattern <:+: before ∨ pattern <:+: rest := by
  have hmiddle : ∀ m, m <:+ middle → (pattern <:+: m ++ rest ↔ pattern <:+: rest) := by
    intro m hm
    induction m with
    | nil => rfl
    | cons c m ih =>
      have hnot := not_prefix_of_apart h hm (List.cons_ne_nil c m) rest
      rw [List.cons_append, List.infix_cons_iff, ih ((List.suffix_cons c m).trans hm)]
      exact or_iff_right hnot
  induction before with
  | nil =>
    rw [List.nil_append, hmiddle middle (List.suffix_refl middle), List.infix_nil]
    exact (or_iff_right (ne_nil_of_apart h)).symm
  | cons c before ih =>
    have hiff := prefix_around_iff h (c :: before) rest
    rw [List.cons_append] at hiff ⊢
    rw [List.infix_cons_iff, List.infix_cons_iff, hiff, or_assoc]
    exact or_congr_right ih

end

/-! ## Texts -/

theorem toList_replaceAll {pattern : String} (hpattern : pattern.toList ≠ []) (s replacement : String) :
    (replaceAll s pattern replacement).toList =
      replaceFrom pattern.toList replacement.toList 0 s.toList := by
  have h := replaceAll_ofList hpattern replacement s.toList
  rw [String.ofList_toList] at h
  rw [h, String.toList_ofList]

theorem contains_eq_true_iff {s pattern : String} :
    contains s pattern = true ↔ pattern.toList <:+: s.toList :=
  occursIn_eq_true_iff

theorem contains_append (before pattern behind : String) :
    contains (before ++ pattern ++ behind) pattern = true := by
  rw [contains_eq_true_iff]
  exact ⟨before.toList, behind.toList, by simp⟩

section

variable {pattern middle : String} (h : apart pattern.toList middle.toList = true)
include h

theorem replaceAll_around (before behind replacement : String) :
    replaceAll (before ++ middle ++ behind) pattern replacement =
      replaceAll before pattern replacement ++ middle ++ replaceAll behind pattern replacement := by
  have hne := ne_nil_of_apart h
  rw [← String.toList_inj]
  simp only [String.toList_append, toList_replaceAll hne, List.append_assoc]
  exact replaceFrom_around h _ _ (Nat.zero_le _)

theorem contains_around (before behind : String) :
    contains (before ++ middle ++ behind) pattern = (contains before pattern || contains behind pattern) := by
  rw [Bool.eq_iff_iff, Bool.or_eq_true, contains_eq_true_iff, contains_eq_true_iff, contains_eq_true_iff,
    String.toList_append, String.toList_append, List.append_assoc]
  exact infix_around_iff h _ _

end

/-- The first occurrence of the pattern is replaced, and then those behind it. -/
theorem replaceAll_first {s pattern : String} (hpattern : pattern.toList ≠ [])
    (hs : contains s pattern = true) (replacement : String) :
    ∃ before behind, s = before ++ pattern ++ behind ∧
      replaceAll s pattern replacement = before ++ replacement ++ replaceAll behind pattern replacement := by
  have hchars : ∀ cs, pattern.toList <:+: cs → ∃ before behind, cs = before ++ (pattern.toList ++ behind) ∧
      replaceFrom pattern.toList replacement.toList 0 cs =
        before ++ (replacement.toList ++ replaceFrom pattern.toList replacement.toList 0 behind) := by
    intro cs hcs
    induction cs with
    | nil => exact absurd (List.infix_nil.mp hcs) hpattern
    | cons c cs ih =>
      by_cases hhere : pattern.toList.isPrefixOf (c :: cs) = true
      · obtain ⟨behind, heq⟩ := List.isPrefixOf_iff_prefix.mp hhere
        refine ⟨[], behind, heq.symm, ?_⟩
        rw [← heq]
        exact replaceFrom_occurrence hpattern behind
      · have hlater : pattern.toList <:+: cs := by
          rw [List.infix_cons_iff, ← List.isPrefixOf_iff_prefix] at hcs
          exact hcs.resolve_left hhere
        obtain ⟨before, behind, heq, hreplaced⟩ := ih hlater
        refine ⟨c :: before, behind, congrArg (c :: ·) heq, ?_⟩
        rw [replaceFrom, if_neg hhere, hreplaced, List.cons_append]
  obtain ⟨before, behind, hsplit, hreplaced⟩ := hchars s.toList (contains_eq_true_iff.mp hs)
  refine ⟨String.ofList before, String.ofList behind, ?_, ?_⟩
  · rw [← String.toList_inj]
    simpa using hsplit
  · rw [← String.toList_inj]
    simpa [toList_replaceAll hpattern] using hreplaced

theorem replaceAll_absent {s pattern : String} (hpattern : pattern.toList ≠ [])
    (hs : contains s pattern = false) (replacement : String) : replaceAll s pattern replacement = s := by
  have hchars : ∀ cs, ¬pattern.toList <:+: cs →
      replaceFrom pattern.toList replacement.toList 0 cs = cs := by
    intro cs hcs
    induction cs with
    | nil => rfl
    | cons c cs ih =>
      rw [List.infix_cons_iff, not_or, ← List.isPrefixOf_iff_prefix] at hcs
      rw [replaceFrom, if_neg hcs.1, ih hcs.2]
  rw [← String.toList_inj, toList_replaceAll hpattern]
  apply hchars
  rw [← contains_eq_true_iff, hs]
  exact Bool.false_ne_true

/-- Replacing one text by another does not add or remove occurrences of a pattern that is apart from both. -/
theorem contains_replaceAll {pattern old new : String} (hold : apart pattern.toList old.toList = true)
    (hnew : apart pattern.toList new.toList = true) (hne : old.toList ≠ []) (s : String) :
    contains (replaceAll s old new) pattern = contains s pattern := by
  induction hn : s.toList.length using Nat.strong_induction_on generalizing s with
  | _ n ih =>
    cases hs : contains s old with
    | false => rw [replaceAll_absent hne hs]
    | true =>
      obtain ⟨before, behind, rfl, hreplaced⟩ := replaceAll_first hne hs new
      have hlength : behind.toList.length < n := by
        have := List.length_pos_of_ne_nil hne
        simp only [String.toList_append, List.length_append] at hn
        omega
      rw [hreplaced, contains_around hnew, contains_around hold, ih _ hlength behind rfl]

theorem replaceEach_around {rules : List (String × String)} {middle : String}
    (h : rules.all (fun rule => apart rule.1.toList middle.toList) = true) (before behind : String) :
    replaceEach (before ++ middle ++ behind) rules =
      replaceEach before rules ++ middle ++ replaceEach behind rules := by
  induction rules generalizing before behind with
  | nil => rfl
  | cons rule rules ih =>
    rw [List.all_cons, Bool.and_eq_true] at h
    have hstep := ih h.2 (replaceAll before rule.1 rule.2) (replaceAll behind rule.1 rule.2)
    rw [← replaceAll_around h.1] at hstep
    exact hstep

end Text

end Lowering
