-- SUMMARY: ASCII case folding of texts.

/-!
# ASCII case

Mnemonics, library names and type annotations are compared without regard to the case of the ASCII
letters. Every other character stands for itself.
-/

namespace Lowering.Text

/-- The text with each of `a` to `z` written as a capital. -/
def upper (s : String) : String := String.ofList (s.toList.map Char.toUpper)

/-- The text with each of `A` to `Z` written small. -/
def lower (s : String) : String := String.ofList (s.toList.map Char.toLower)

/-- The text with the first character written as a capital. -/
def capitalized (s : String) : String :=
  match s.toList with
  | [] => ""
  | c :: cs => String.ofList (c.toUpper :: cs)

@[simp] theorem toList_upper (s : String) : (upper s).toList = s.toList.map Char.toUpper := by
  simp [upper]

@[simp] theorem toList_lower (s : String) : (lower s).toList = s.toList.map Char.toLower := by
  simp [lower]

end Lowering.Text
