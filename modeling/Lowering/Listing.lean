-- SUMMARY: Listings of a unit as text and as JSON.
import Lowering.Json
import Lowering.Source

/-!
# Listings

The listing of a unit shows each source line and below it the primitives it was lowered to. As text,
the lines are indented by nesting if the library asks for it. As JSON, it also holds the call sites
and the diagnostics.
-/

namespace Lowering

/-! ## Text -/

/-- A line number, flush right in five columns. -/
def lineNumber (n : Nat) : String :=
  let digits := toString n
  "".pushn ' ' (5 - digits.length) ++ digits

/-- The lines of the listing for one item. -/
def Item.listing (indented : Bool) : Item → List String
  | .label line name => [lineNumber line ++ "  " ++ name]
  | .instruction source indent primitives =>
    let pad := if indented then "".pushn ' ' (2 * indent) else ""
    (lineNumber source.number ++ "  " ++ pad ++ source.text) ::
      primitives.map fun p => "       " ++ pad ++ "    " ++ p.text
  | .rejected source => [lineNumber source.number ++ "! " ++ source.text]

namespace Report

/-- The listing as lines. -/
def listing (r : Report) : List String :=
  s!"; {r.library} -> {r.className}" ::
    r.items.flatMap (Item.listing (r.options.contains .indent))

/-- The listing as text, each line ended by a line feed. -/
def text (r : Report) : String := String.join (r.listing.map (· ++ "\n"))

end Report

/-! ## JSON -/

def Item.json : Item → Json
  | .label line name => .object [("line", .nat line), ("label", .str name)]
  | .instruction source indent primitives =>
    .object [("line", .nat source.number), ("mnemonic", .str source.mnemonic),
      ("operands", .strings source.operands), ("indent", .nat indent),
      ("primitives", .strings (primitives.map Primitive.text))]
  | .rejected source =>
    .object [("line", .nat source.number), ("mnemonic", .str source.mnemonic),
      ("operands", .strings source.operands), ("rejected", .bool true)]

def CallSite.json (site : CallSite) : Json :=
  .object [("id", .nat site.id), ("name", .str site.name), ("descriptor", .str site.descriptor),
    ("bootstrap", .object [("owner", .str site.bootOwner), ("method", .str site.bootMethod),
      ("descriptor", .str site.bootDescriptor)]),
    ("static_args", .strings (site.args.map StaticArg.text))]

/-- The fields of a diagnostic. -/
def Diagnostic.fields (d : Diagnostic) : List (String × Json) :=
  [("code", .str d.code), ("severity", .str d.severity.name), ("message", .str d.message),
   ("line", .nat d.line), ("mnemonic", .ofOption d.mnemonic), ("notes", .strings d.notes),
   ("help", .strings d.help)]

def Diagnostic.json (d : Diagnostic) : Json := .object d.fields

def Report.json (r : Report) : Json :=
  .object [("schema", .str "lowerforge-listing-v1"), ("library", .str r.library),
    ("class", .str r.className), ("options", .strings (r.options.map LibraryOption.name)),
    ("lines", .arr (r.items.map Item.json)), ("call_sites", .arr (r.callSites.map CallSite.json)),
    ("diagnostics", .arr (r.diagnostics.map Diagnostic.json)), ("errors", .nat r.errors),
    ("warnings", .nat r.warnings)]

end Lowering
