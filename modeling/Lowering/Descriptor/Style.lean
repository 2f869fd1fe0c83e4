-- SUMMARY: Source spellings of signatures, owners and method references, and their target forms.
import Lowering.Text.Case
import Lowering.Text.Search

/-!
# Source spellings

Source text writes signatures with value-type names, an arrow and separators, and may leave out the
owner of a method or give it by a short name. The tables here turn such spellings into target
descriptors and qualified owners. They are plain substitutions, chosen by each library.
-/

namespace Lowering

/-! ## Signatures -/

/-- How source signatures are written. -/
structure SignatureStyle where
  /-- Stands between the parameters and the result. Text without it is a target descriptor. -/
  arrow : String
  /-- Results that stand for no value, arrow included. -/
  voidMarkers : List String
  separator : String
  /-- The source spelling and the target code of each type. -/
  types : List (String × String)
  deriving DecidableEq, Repr

namespace SignatureStyle

/-- The target descriptor of a source signature: markers become `V`, the arrow and the separators go,
and the type names become codes, in that order. -/
def toTarget (style : SignatureStyle) (s : String) : String :=
  if Text.contains s style.arrow then
    let s := style.voidMarkers.foldl (fun s marker => Text.replaceAll s marker "V") s
    let s := Text.replaceAll s style.arrow ""
    let s := Text.replaceAll s style.separator ""
    style.types.foldl (fun s (spelling, code) => Text.replaceAll s spelling code) s
  else s

/-- Whether a source spelling is left in the text. -/
def hasPlaceholder (style : SignatureStyle) (s : String) : Bool :=
  Text.contains s style.arrow || style.types.any fun (spelling, _) => Text.contains s spelling

end SignatureStyle

/-- The target descriptor of a signature in the library's style, if it has one. -/
def targetDescriptor (style : Option SignatureStyle) (s : String) : String :=
  match style with
  | some style => style.toTarget s
  | none => s

/-! ## Owners -/

/-- A substitution for the owner of a method. -/
inductive OwnerRule where
  /-- Owners with at most one slash that start with `front` move into `home`, capitalized. -/
  | package (front home : String)
  | exact (owner replacement : String)
  deriving DecidableEq, Repr

/-- The owner that a rule gives, if it applies. -/
def OwnerRule.rename? (owner : String) : OwnerRule → Option String
  | .package front home =>
    if owner = "" ∨ 1 < owner.toList.count '/' then none
    else
      match Text.after? front owner with
      | some _ => some (home ++ Text.capitalized owner)
      | none => none
  | .exact source replacement => if owner = source then some replacement else none

/-- The owner of a method reference. A missing, empty or dotted owner is the current class, the first
rule that applies gives the owner, and all others stay. -/
def resolveOwner (rules : List OwnerRule) (className : String) : Option String → String
  | none => className
  | some owner =>
    if owner = "" ∨ owner = "." then className
    else (rules.findSome? (OwnerRule.rename? owner)).getD owner

/-! ## Method references -/

/-- A reference `owner/name(descriptor)`. -/
structure MethodRef where
  owner : Option String
  name : String
  descriptor : String
  deriving DecidableEq, Repr

namespace MethodRef

/-- Splits what stands before the descriptor at its last slash. -/
def splitOwner (cs : List Char) : Option String × String :=
  match Text.cutAt? (· = '/') cs.reverse with
  | some (name, owner) => (some (String.ofList owner.reverse), String.ofList name.reverse)
  | none => (none, String.ofList cs)

/-- Reads a reference. The descriptor starts at the first opening parenthesis, and the name is not
empty. -/
def parse? (s : String) : Option MethodRef :=
  match s.toList.span (· ≠ '(') with
  | (_, []) => none
  | (head, descriptor) =>
    let (owner, name) := splitOwner head
    if name = "" then none else some ⟨owner, name, String.ofList descriptor⟩

end MethodRef

end Lowering
