-- SUMMARY: Compact JSON text with sorted keys.

/-!
# JSON

Listings and diagnostics can be written as JSON. Objects have their keys in the order of their code
points, there is no space between tokens, and only control characters, quotes and backslashes are
escaped.
-/

namespace Lowering

inductive Json where
  | null
  | bool (b : Bool)
  | num (n : Int)
  | str (s : String)
  | arr (items : List Json)
  | obj (fields : List (String × Json))
  deriving Repr

namespace Json

/-- An object with these fields. The keys are distinct. -/
def object (fields : List (String × Json)) : Json :=
  .obj (fields.mergeSort fun a b => decide (a.1 ≤ b.1))

def nat (n : Nat) : Json := .num n

def strings (texts : List String) : Json := .arr (texts.map .str)

/-- The text, or null if there is none. -/
def ofOption : Option String → Json
  | some s => .str s
  | none => .null

/-! ## Text -/

/-- The characters with a short escape, and the letter that names it. -/
def shortEscapes : List (Char × Char) :=
  [('"', '"'), ('\\', '\\'), ('\x08', 'b'), ('\x0c', 'f'), ('\n', 'n'), ('\r', 'r'), ('\t', 't')]

/-- One character inside quotes. -/
def escape (c : Char) : List Char :=
  match shortEscapes.lookup c with
  | some letter => ['\\', letter]
  | none =>
    if c.toNat < 0x20 then
      let digits := Nat.toDigits 16 c.toNat
      "\\u".toList ++ List.replicate (4 - digits.length) '0' ++ digits
    else [c]

def quote (s : String) : String := String.ofList ('"' :: (s.toList.flatMap escape ++ ['"']))

mutual

def render : Json → String
  | null => "null"
  | bool true => "true"
  | bool false => "false"
  | num n => toString n
  | str s => quote s
  | arr items => "[" ++ ",".intercalate (renderItems items) ++ "]"
  | obj fields => "\x7b" ++ ",".intercalate (renderFields fields) ++ "\x7d"

def renderItems : List Json → List String
  | [] => []
  | item :: items => render item :: renderItems items

def renderFields : List (String × Json) → List String
  | [] => []
  | (key, value) :: fields => (quote key ++ ":" ++ render value) :: renderFields fields

end

end Json

end Lowering
