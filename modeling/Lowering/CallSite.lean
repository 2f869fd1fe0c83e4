-- SUMMARY: Dynamic call sites: their description in a library, their checks, and first-use linkage.
import Lowering.Descriptor.Signature
import Lowering.Descriptor.Style
import Lowering.Text.Quoted

/-!
# Call sites

A dynamic call is linked on its first use by a bootstrap method, which receives three standard
arguments and then the static arguments of the call site. A library describes the call by a
`CallSpec`, which is checked once, and expanding it gives a `CallSite` with an identity of its own.
-/

namespace Lowering

/-! ## Static arguments -/

def stringType : String := "Ljava/lang/String;"

def methodHandleType : String := "Ljava/lang/invoke/MethodHandle;"

/-- A literal passed to a bootstrap method. -/
inductive StaticArg where
  | int (value : Int)
  | string (value : String)
  | handle (value : String)
  deriving DecidableEq, Repr

namespace StaticArg

/-- The parameter type that accepts the argument. -/
def type : StaticArg → String
  | int _ => "I"
  | string _ => stringType
  | handle _ => methodHandleType

def text : StaticArg → String
  | int value => toString value
  | string value => Text.quoted value
  | handle value => value

end StaticArg

/-- Where a static argument comes from. -/
inductive ArgSource where
  | fixed (arg : StaticArg)
  /-- An integer literal among the operands. -/
  | operandInt
  /-- All remaining operands, as method handles. -/
  | operandHandles
  deriving DecidableEq, Repr

/-- The parameter type that an argument source needs. -/
def ArgSource.type : ArgSource → String
  | fixed arg => arg.type
  | operandInt => "I"
  | operandHandles => "[" ++ methodHandleType

/-! ## Specifications -/

structure Bootstrap where
  owner : String
  method : String
  /-- The types of the parameters after the standard three. -/
  extraParams : String := ""
  args : List ArgSource := []
  deriving DecidableEq, Repr

/-- The parameters that every bootstrap method receives first. -/
def standardParams : String :=
  "Ljava/lang/invoke/MethodHandles$Lookup;Ljava/lang/String;Ljava/lang/invoke/MethodType;"

def Bootstrap.descriptor (b : Bootstrap) : String :=
  "(" ++ standardParams ++ b.extraParams ++ ")Ljava/lang/invoke/CallSite;"

/-- The description of a dynamic call. Without a descriptor, the call takes it from its operands. -/
structure CallSpec where
  name : String
  descriptor : Option String
  bootstrap : Bootstrap
  deriving DecidableEq, Repr

/-- Why a description is refused. -/
inductive CallSpecError where
  | descriptor (template : String)
  | extraParams (params : String)
  | arity (params args : Nat)
  | mismatch (position : Nat) (param : String)
  deriving DecidableEq, Repr

def CallSpecError.message : CallSpecError → String
  | descriptor template => template
  | extraParams params => s!"malformed extra parameter descriptor '{params}'"
  | arity params args => s!"{params} extra parameter(s) but {args} static argument(s)"
  | mismatch position param => s!"argument {position} does not match parameter type {param}"

namespace CallSpec

/-- The target form of a descriptor, if it is a method descriptor. -/
def resolve? (style : Option SignatureStyle) (descriptor : String) : Option String :=
  let target := targetDescriptor style descriptor
  if (Signature.parse? target).isSome then some target else none

/-- The target form of the description's own descriptor. -/
def resolved? (spec : CallSpec) (style : Option SignatureStyle) : Option String :=
  spec.descriptor.bind (resolve? style)

/-- Matches arguments with parameter types from the given position on. Only the last argument may be
all remaining operands. -/
def matchArgs : Nat → List String → List ArgSource → Except CallSpecError Unit
  | position, param :: params, arg :: args =>
    if param = arg.type ∧ (arg = .operandHandles → params = []) then
      matchArgs (position + 1) params args
    else .error (.mismatch position param)
  | _, _, _ => .ok ()

/-- Checks the static arguments against the extra parameters of the bootstrap method. -/
def checkArgs (b : Bootstrap) : Except CallSpecError Unit :=
  match fieldTypes? b.extraParams.toList with
  | none => .error (.extraParams b.extraParams)
  | some params =>
    if params.length = b.args.length then matchArgs 1 params b.args
    else .error (.arity params.length b.args.length)

/-- Checks a description: its descriptor first, then its bootstrap arguments. -/
def check (spec : CallSpec) (style : Option SignatureStyle) : Except CallSpecError Unit :=
  match spec.descriptor with
  | none => checkArgs spec.bootstrap
  | some template =>
    if (resolve? style template).isSome then checkArgs spec.bootstrap
    else .error (.descriptor template)

end CallSpec

/-! ## Call sites -/

structure CallSite where
  id : Nat
  name : String
  descriptor : String
  bootOwner : String
  bootMethod : String
  bootDescriptor : String
  args : List StaticArg
  deriving DecidableEq, Repr

namespace CallSite

/-- Whether two call sites differ at most in their identity. -/
def sameShape (a b : CallSite) : Bool := { a with id := b.id } = b

def text (site : CallSite) : String :=
  let call := s!"invokedynamic {site.name}{site.descriptor} "
  let boot := s!"{site.bootOwner}/{site.bootMethod}{site.bootDescriptor}"
  let args :=
    if site.args.isEmpty then ""
    else " \x7b " ++ " , ".intercalate (site.args.map StaticArg.text) ++ " \x7d"
  call ++ boot ++ args

end CallSite

/-! ## Linkage -/

/-- The handles of the call sites linked so far. -/
structure LinkCache (H : Type) where
  linked : List (Nat × H) := []

namespace LinkCache

variable {H : Type}

def isLinked (cache : LinkCache H) (id : Nat) : Bool := (cache.linked.lookup id).isSome

def size (cache : LinkCache H) : Nat := cache.linked.length

/-- The handle of a call site. The bootstrap runs only if the site is not linked yet. -/
def linkM {m : Type → Type} [Monad m] (cache : LinkCache H) (site : CallSite)
    (bootstrap : CallSite → m H) : m (H × LinkCache H) :=
  match cache.linked.lookup site.id with
  | some handle => pure (handle, cache)
  | none => do
    let handle ← bootstrap site
    return (handle, ⟨(site.id, handle) :: cache.linked⟩)

/-- The handle of a call site, with a bootstrap that has no effects. -/
def link (cache : LinkCache H) (site : CallSite) (bootstrap : CallSite → H) : H × LinkCache H :=
  Id.run (cache.linkM site fun site => pure (bootstrap site))

end LinkCache

end Lowering
