-- SUMMARY: Registries of libraries by name and alias, each built on first use.
import Lowering.Catalog.Textifier
import Lowering.Catalog.Wasm
import Lowering.Library

/-!
# Registries

A registry holds libraries under a name and aliases, which are compared without regard to case. A name
that is registered again refers to the later library. Each library is built when it is first asked
for, and what came of it, a failure included, is kept.
-/

namespace Lowering

/-- A library to register. -/
structure Registration where
  name : String
  aliases : List String := []
  description : String
  table : Table

/-- A registration and what came of building it, once that is known. -/
structure Slot where
  registration : Registration
  built : Option (Except LoadError Library) := none

/-- The registrations in order, and the position of each name. The latest names come first. -/
structure Registry where
  slots : List Slot := []
  names : List (String × Nat) := []

inductive RegistryError where
  | unknown (name : String)
  | load (e : LoadError)
  deriving DecidableEq, Repr

def RegistryError.message : RegistryError → String
  | unknown name => s!"no macro library registered as '{name}'"
  | load e => e.message

namespace Registry

/-- Adds a registration. Its name and aliases hide earlier ones. -/
def register (r : Registry) (registration : Registration) : Registry where
  slots := r.slots ++ [{ registration }]
  names :=
    (registration.name :: registration.aliases).map (fun name => (Text.lower name, r.slots.length)) ++
      r.names

/-- The position of the registration that a name refers to. -/
def position? (r : Registry) (name : String) : Option Nat := r.names.lookup (Text.lower name)

/-- The registration that a name refers to. -/
def find? (r : Registry) (name : String) : Option Registration :=
  (r.position? name).bind fun i => r.slots[i]?.map Slot.registration

/-- The names of the registrations, in order. -/
def libraryNames (r : Registry) : List String := r.slots.map (·.registration.name)

/-- The library that a name refers to. Unless that was done before, it is built, by the position and the
registration. -/
def getM {m : Type → Type} [Monad m] (r : Registry)
    (build : Nat → Registration → m (Except LoadError Library)) (name : String) :
    m (Except RegistryError Library × Registry) :=
  match r.position? name with
  | none => pure (.error (.unknown name), r)
  | some i =>
    match r.slots[i]? with
    | none => pure (.error (.unknown name), r)
    | some slot =>
      match slot.built with
      | some built => pure (built.mapError .load, r)
      | none => do
        let built ← build i slot.registration
        let slots := r.slots.set i { slot with built := some built }
        return (built.mapError .load, { r with slots })

/-- The library that a name refers to, built from its table. -/
def get (r : Registry) (name : String) : Except RegistryError Library × Registry :=
  Id.run (r.getM (fun _ registration => pure registration.table.build) name)

/-- The libraries of the catalog. The first is the default. -/
def shipped : Registry :=
  [{ name := "wasm32MVP", aliases := ["wasm", "wasm32"],
     description := "WebAssembly MVP instructions lowered onto the JVM with the wasmrun runtime",
     table := Catalog.wasm32 : Registration },
   { name := "wasi",
     description := "wasm32MVP with string stores for WASI trampolines",
     table := Catalog.wasi },
   { name := "ASMTextOps", aliases := ["asm", "asmtext"],
     description := "JVM instructions as printed by the ASM textifier",
     table := Catalog.textifier },
   { name := "extension", aliases := ["ext"],
     description := "platform helper calls, structured control and stack-select ops",
     table := Catalog.extension }].foldl register {}

end Registry

end Lowering
