-- SUMMARY: The library of Java virtual machine instructions in textifier form.
import Lowering.Jvm.InstructionSet
import Lowering.Table

/-!
# Textifier

The instructions of the Java virtual machine as the ASM textifier prints them. Most are instructions of
the target under their own name. The textifier writes the operands of the others differently.
-/

namespace Lowering.Catalog

/-- The target instructions that are not taken over under their own name. -/
def overridden : List String :=
  ["ldc", "invokedynamic", "lookupswitch", "tableswitch", "getfield", "getstatic", "putfield",
   "putstatic", "invokeinterface", "invokespecial", "invokestatic", "invokevirtual", "newarray",
   ".line"]

/-- An instruction whose operands have another form in the target. -/
def unsupportedEntry (name hint : String) : Entry := { name, body := [.act (.unsupported hint)] }

/-- An instruction that has no effect, and what it does with its operands. -/
def ignoredEntry (name reason : String) (operands : List Op) : Entry :=
  { name, body := .act (.ignored reason) :: operands }

/-- A field instruction, written with a colon before the type. -/
def fieldEntry (name opcode : String) : Entry :=
  { name, body := [.transform .swap, .check (.expect ":"), .emit opcode] }

/-- A method instruction, written with a space before the descriptor. -/
def methodEntry (name opcode : String) : Entry :=
  { name, body := [.transform (.join ""), .emit opcode] }

def overrides : List Entry :=
  [unsupportedEntry "LDC" "Jynx ldc used instead but different format if not int or double",
   unsupportedEntry "INVOKEDYNAMIC" "use Jynx invokedynamic instead as different format",
   unsupportedEntry "LOOKUPSWITCH" "use Jynx lookupswitch instead as different format",
   unsupportedEntry "TABLESWITCH" "use Jynx tableswitch instead as different format",
   ignoredEntry "FRAME" "stack map can be calculated" [.transform .skipAll],
   ignoredEntry "MAXSTACK" "maxstack can be calculated" [.check (.expect "="), .transform .skip],
   ignoredEntry "MAXLOCALS" "maxlocal can be calculated" [.check (.expect "="), .transform .skip],
   fieldEntry "GETFIELD" "getfield",
   fieldEntry "GETSTATIC" "getstatic",
   fieldEntry "PUTFIELD" "putfield",
   fieldEntry "PUTSTATIC" "putstatic",
   methodEntry "INVOKEINTERFACE" "invokeinterface",
   methodEntry "INVOKESPECIAL" "invokespecial",
   methodEntry "INVOKEVIRTUAL" "invokevirtual",
   { name := "INVOKESTATIC",
     body := [.check (.reject "\x7bitf\x7d"), .transform (.join ""), .emit "invokestatic"] },
   { name := "LINENUMBER", body := [.emit ".line", .transform .skip] },
   { name := "NEWARRAY",
     body := [.transform (.dropFront "T_"), .transform .lower, .emit "newarray"] }]

/-- The target instructions under their own name. -/
def ownNames : List Entry :=
  (Jvm.instructions.filter fun i => !overridden.contains i.name).map fun i =>
    { name := i.name, body := [.emit i.name] }

def textifier : Table where
  name := "ASMTextOps"
  isa := jvm
  labelForm := some { letter := 'L' }
  entries := ownNames ++ overrides

end Lowering.Catalog
