-- SUMMARY: Quoted text: double quotes, named escapes, and hexadecimal escapes for hidden characters.
import Lowering.Text.Hidden

/-!
# Quoted text

Text arguments of a call site are listed between double quotes. Six characters have an escape of
their own, every other hidden character is written by its code point in hexadecimal, and the rest
stand for themselves.
-/

namespace Lowering.Text

/-- The characters with an escape of their own, and the letter that names it. -/
def namedEscapes : List (Char × Char) :=
  [('"', '"'), ('\\', '\\'), ('\n', 'n'), ('\r', 'r'), ('\t', 't'), (Char.ofNat 0, '0')]

/-- A code point in small hexadecimal digits between braces. -/
def codePointEscape (c : Char) : List Char :=
  ['\\', 'u', '\x7b'] ++ Nat.toDigits 16 c.toNat ++ ['\x7d']

/-- One character of a quoted text. -/
def escapeChar (c : Char) : List Char :=
  match namedEscapes.lookup c with
  | some letter => ['\\', letter]
  | none => if isShown c then [c] else codePointEscape c

/-- The text in double quotes. -/
def quoted (s : String) : String :=
  String.ofList ('"' :: (s.toList.flatMap escapeChar ++ ['"']))

end Lowering.Text
