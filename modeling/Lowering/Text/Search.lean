-- SUMMARY: Occurrences of one text in another: containment, replacement, and cutting at a front or a back.

/-!
# Searching a text

Containment and replacement of a pattern, and removal of a known front or back. Replacement takes
the occurrences from the left, without overlap. The empty pattern occurs before every character and
once more at the end.
-/

namespace Lowering.Text

/-! ## Containment -/

/-- Whether the pattern stands somewhere in the characters. -/
def occursIn (pattern : List Char) : List Char → Bool
  | [] => pattern.isEmpty
  | c :: cs => pattern.isPrefixOf (c :: cs) || occursIn pattern cs

/-- Whether `s` contains `pattern`. -/
def contains (s pattern : String) : Bool := occursIn pattern.toList s.toList

/-! ## Replacement -/

/-- Replaces the occurrences of a nonempty pattern. `skip` counts the characters of the current
occurrence that are still to be passed over. -/
def replaceFrom (pattern replacement : List Char) : Nat → List Char → List Char
  | _, [] => []
  | skip + 1, _ :: cs => replaceFrom pattern replacement skip cs
  | 0, c :: cs =>
    if pattern.isPrefixOf (c :: cs) then
      replacement ++ replaceFrom pattern replacement (pattern.length - 1) cs
    else
      c :: replaceFrom pattern replacement 0 cs

/-- Puts the replacement before every character and at the end. -/
def interleave (replacement : List Char) : List Char → List Char
  | [] => replacement
  | c :: cs => replacement ++ c :: interleave replacement cs

/-- Replaces every occurrence of the pattern in a list of characters. -/
def replaceChars (pattern replacement cs : List Char) : List Char :=
  if pattern.isEmpty then interleave replacement cs else replaceFrom pattern replacement 0 cs

/-- The text with every occurrence of `pattern` replaced. -/
def replaceAll (s pattern replacement : String) : String :=
  String.ofList (replaceChars pattern.toList replacement.toList s.toList)

/-! ## Fronts and backs -/

/-- What follows `front` in a list of characters that starts with it. -/
def dropFront? : List Char → List Char → Option (List Char)
  | [], cs => some cs
  | _ :: _, [] => none
  | f :: fs, c :: cs => if f = c then dropFront? fs cs else none

/-- What follows `front` in a text that starts with it. -/
def after? (front s : String) : Option String :=
  (dropFront? front.toList s.toList).map String.ofList

/-- The characters without their last one, if that one satisfies `p`. -/
def dropLast? (p : Char → Bool) (cs : List Char) : Option (List Char) :=
  match cs.getLast? with
  | some c => if p c then some cs.dropLast else none
  | none => none

/-- The characters before the first one that satisfies `p`, and those after it. -/
def cutAt? (p : Char → Bool) : List Char → Option (List Char × List Char)
  | [] => none
  | c :: cs => if p c then some ([], cs) else (cutAt? p cs).map fun (a, b) => (c :: a, b)

theorem dropFront?_eq_some_iff {front cs rest : List Char} :
    dropFront? front cs = some rest ↔ cs = front ++ rest := by
  induction front generalizing cs with
  | nil => simp [dropFront?]
  | cons f fs ih =>
    cases cs with
    | nil => simp [dropFront?]
    | cons c cs =>
      by_cases h : f = c
      · subst h
        simp [dropFront?, ih]
      · simp [dropFront?, h, Ne.symm h]

theorem cutAt?_eq_some {p : Char → Bool} {cs before rest : List Char}
    (h : cutAt? p cs = some (before, rest)) :
    ∃ c, p c = true ∧ cs = before ++ c :: rest ∧ ∀ d ∈ before, p d = false := by
  induction cs generalizing before with
  | nil => simp [cutAt?] at h
  | cons c cs ih =>
    by_cases hc : p c = true
    · simp only [cutAt?, hc, if_true, Option.some.injEq, Prod.mk.injEq] at h
      obtain ⟨rfl, rfl⟩ := h
      exact ⟨c, hc, rfl, by simp⟩
    · simp only [cutAt?, hc] at h
      cases hcut : cutAt? p cs with
      | none => simp [hcut] at h
      | some cut =>
        obtain ⟨a, b⟩ := cut
        simp only [hcut] at h
        simp only [Bool.false_eq_true, if_false, Option.map_some, Option.some.injEq,
          Prod.mk.injEq] at h
        obtain ⟨rfl, rfl⟩ := h
        obtain ⟨d, hd, rfl, hbefore⟩ := ih hcut
        exact ⟨d, hd, rfl, by simpa [hc] using hbefore⟩

end Lowering.Text
