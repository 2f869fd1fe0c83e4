-- SUMMARY: White space: the characters that separate fields, splitting into fields and lines, and trimming.

/-!
# White space

Fields of a source line are separated by the characters with the Unicode property White_Space, and
environment values are trimmed by the same property. Lines end at a line feed, and a carriage return
just before it belongs to the line end.
-/

namespace Lowering.Text

/-- The ranges of code points with the property White_Space. -/
def blankRanges : List (Nat × Nat) :=
  [(0x9, 0xD), (0x20, 0x20), (0x85, 0x85), (0xA0, 0xA0), (0x1680, 0x1680), (0x2000, 0x200A),
   (0x2028, 0x2029), (0x202F, 0x202F), (0x205F, 0x205F), (0x3000, 0x3000)]

/-- Whether a character has the property White_Space. -/
def isBlank (c : Char) : Bool :=
  blankRanges.any fun (first, last) => first ≤ c.toNat && c.toNat ≤ last

/-! ## Fields -/

/-- Splits into maximal runs of characters that are not blank. `field` holds the run in progress,
last character first. -/
def splitBlank (field : List Char) : List Char → List String
  | [] => if field.isEmpty then [] else [String.ofList field.reverse]
  | c :: cs =>
    if isBlank c then
      if field.isEmpty then splitBlank [] cs else String.ofList field.reverse :: splitBlank [] cs
    else
      splitBlank (c :: field) cs

/-- The fields of a text, in order. -/
def fields (s : String) : List String := splitBlank [] s.toList

/-- The text without the blanks at its two ends. -/
def trimmed (s : String) : String :=
  String.ofList ((s.toList.dropWhile isBlank).reverse.dropWhile isBlank).reverse

/-! ## Lines -/

/-- The line whose characters are given last first, without a carriage return at its end. -/
def closeLine : List Char → String
  | '\r' :: cs => String.ofList cs.reverse
  | cs => String.ofList cs.reverse

/-- Splits at line feeds. A last line without a line feed keeps its carriage return, and an empty
one is no line. -/
def splitLines (line : List Char) : List Char → List String
  | [] => if line.isEmpty then [] else [String.ofList line.reverse]
  | c :: cs => if c = '\n' then closeLine line :: splitLines [] cs else splitLines (c :: line) cs

/-- The lines of a text, in order. -/
def lines (s : String) : List String := splitLines [] s.toList

end Lowering.Text
