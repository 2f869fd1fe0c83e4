-- SUMMARY: Structured control, compare-and-jump and stack operations shared by libraries.
import Lowering.Table

/-!
# Extended operations

Structured control for every condition, conditional jumps for the comparisons that have no instruction
of their own, and stack operations that depend on the value type.
-/

namespace Lowering.Catalog

/-! ## Conditions -/

/-- The operations that open an `if`, with their conditions. -/
def ifConditions : List (String × Condition) :=
  [("ext_IF_ICMPEQ", .int .eq), ("ext_IF_ICMPNE", .int .ne), ("ext_IF_ICMPLT", .int .lt),
   ("ext_IF_ICMPGT", .int .gt), ("ext_IF_ICMPLE", .int .le), ("ext_IF_ICMPGE", .int .ge),
   ("ext_IF_IUCMPEQ", .unsignedInt .eq), ("ext_IF_IUCMPNE", .unsignedInt .ne),
   ("ext_IF_IUCMPLT", .unsignedInt .lt), ("ext_IF_IUCMPGT", .unsignedInt .gt),
   ("ext_IF_IUCMPLE", .unsignedInt .le), ("ext_IF_IUCMPGE", .unsignedInt .ge),
   ("ext_IF_LCMPEQ", .long .eq), ("ext_IF_LCMPNE", .long .ne), ("ext_IF_LCMPLT", .long .lt),
   ("ext_IF_LCMPGT", .long .gt), ("ext_IF_LCMPLE", .long .le), ("ext_IF_LCMPGE", .long .ge),
   ("ext_IF_LUCMPEQ", .unsignedLong .eq), ("ext_IF_LUCMPNE", .unsignedLong .ne),
   ("ext_IF_LUCMPLT", .unsignedLong .lt), ("ext_IF_LUCMPGT", .unsignedLong .gt),
   ("ext_IF_LUCMPLE", .unsignedLong .le), ("ext_IF_LUCMPGE", .unsignedLong .ge),
   ("ext_IF_FCMPEQ", .float .eq), ("ext_IF_FCMPNE", .float .ne), ("ext_IF_FCMPLT", .float .lt),
   ("ext_IF_FCMPGT", .float .gt), ("ext_IF_FCMPLE", .float .le), ("ext_IF_FCMPGE", .float .ge),
   ("ext_IF_DCMPEQ", .double .eq), ("ext_IF_DCMPNE", .double .ne), ("ext_IF_DCMPLT", .double .lt),
   ("ext_IF_DCMPGT", .double .gt), ("ext_IF_DCMPLE", .double .le), ("ext_IF_DCMPGE", .double .ge)]

/-- The operations that branch to an open construct, with their conditions. -/
def branchConditions : List (String × Condition) :=
  [("ext_BR_IF_ICMPEQ", .int .eq), ("ext_BR_IF_ICMPNE", .int .ne), ("ext_BR_IF_ICMPLT", .int .lt),
   ("ext_BR_IF_ICMPGT", .int .gt), ("ext_BR_IF_ICMPLE", .int .le), ("ext_BR_IF_ICMPGE", .int .ge),
   ("ext_BR_IF_IUCMPEQ", .unsignedInt .eq), ("ext_BR_IF_IUCMPNE", .unsignedInt .ne),
   ("ext_BR_IF_IUCMPLT", .unsignedInt .lt), ("ext_BR_IF_IUCMPGT", .unsignedInt .gt),
   ("ext_BR_IF_IUCMPLE", .unsignedInt .le), ("ext_BR_IF_IUCMPGE", .unsignedInt .ge),
   ("ext_BR_IF_LCMPEQ", .long .eq), ("ext_BR_IF_LCMPNE", .long .ne),
   ("ext_BR_IF_LCMPLT", .long .lt), ("ext_BR_IF_LCMPGT", .long .gt),
   ("ext_BR_IF_LCMPLE", .long .le), ("ext_BR_IF_LCMPGE", .long .ge),
   ("ext_BR_IF_LUCMPEQ", .unsignedLong .eq), ("ext_BR_IF_LUCMPNE", .unsignedLong .ne),
   ("ext_BR_IF_LUCMPLT", .unsignedLong .lt), ("ext_BR_IF_LUCMPGT", .unsignedLong .gt),
   ("ext_BR_IF_LUCMPLE", .unsignedLong .le), ("ext_BR_IF_LUCMPGE", .unsignedLong .ge),
   ("ext_BR_IF_FCMPEQ", .float .eq), ("ext_BR_IF_FCMPNE", .float .ne),
   ("ext_BR_IF_FCMPLT", .float .lt), ("ext_BR_IF_FCMPGT", .float .gt),
   ("ext_BR_IF_FCMPLE", .float .le), ("ext_BR_IF_FCMPGE", .float .ge),
   ("ext_BR_IF_DCMPEQ", .double .eq), ("ext_BR_IF_DCMPNE", .double .ne),
   ("ext_BR_IF_DCMPLT", .double .lt), ("ext_BR_IF_DCMPGT", .double .gt),
   ("ext_BR_IF_DCMPLE", .double .le), ("ext_BR_IF_DCMPGE", .double .ge)]

/-- The operations that jump to a label, with their conditions. -/
def jumpConditions : List (String × Condition) :=
  [("ext_if_iucmpeq", .unsignedInt .eq), ("ext_if_iucmpne", .unsignedInt .ne),
   ("ext_if_iucmplt", .unsignedInt .lt), ("ext_if_iucmpgt", .unsignedInt .gt),
   ("ext_if_iucmple", .unsignedInt .le), ("ext_if_iucmpge", .unsignedInt .ge),
   ("ext_if_lcmpeq", .long .eq), ("ext_if_lcmpne", .long .ne), ("ext_if_lcmplt", .long .lt),
   ("ext_if_lcmpgt", .long .gt), ("ext_if_lcmple", .long .le), ("ext_if_lcmpge", .long .ge),
   ("ext_if_lucmpeq", .unsignedLong .eq), ("ext_if_lucmpne", .unsignedLong .ne),
   ("ext_if_lucmplt", .unsignedLong .lt), ("ext_if_lucmpgt", .unsignedLong .gt),
   ("ext_if_lucmple", .unsignedLong .le), ("ext_if_lucmpge", .unsignedLong .ge),
   ("ext_if_fcmpeq", .float .eq), ("ext_if_fcmpne", .float .ne), ("ext_if_fcmplt", .float .lt),
   ("ext_if_fcmpgt", .float .gt), ("ext_if_fcmple", .float .le), ("ext_if_fcmpge", .float .ge),
   ("ext_if_dcmpeq", .double .eq), ("ext_if_dcmpne", .double .ne), ("ext_if_dcmplt", .double .lt),
   ("ext_if_dcmpgt", .double .gt), ("ext_if_dcmple", .double .le), ("ext_if_dcmpge", .double .ge)]

/-! ## Entries -/

/-- An entry that performs one control action and has its role. -/
def controlEntry (visibility : Visibility) (name : String) (kind : ControlKind) : Entry :=
  { name, visibility, body := [.control kind], role := kind.role }

/-- Structured control and conditional jumps. -/
def extendedEntries (visibility : Visibility) : List Entry :=
  [controlEntry visibility "ext_BLOCK" .block,
   controlEntry visibility "ext_LOOP" .loop,
   controlEntry visibility "ext_IF_NEZ" (.ifThen .nonZero),
   controlEntry visibility "ext_IF_EQZ" (.ifThen .zero),
   controlEntry visibility "ext_ELSE" .elseArm,
   controlEntry visibility "ext_END" .close,
   controlEntry visibility "ext_BR" .branch,
   controlEntry visibility "ext_BR_IFNEZ" (.branchIf .nonZero),
   controlEntry visibility "ext_BR_IFEQZ" (.branchIf .zero),
   controlEntry visibility "ext_BR_TABLE" .branchTable,
   controlEntry visibility "ext_RETURN" .exit] ++
  (ifConditions.map fun (name, c) => controlEntry visibility name (.ifThen c)) ++
  (branchConditions.map fun (name, c) => controlEntry visibility name (.branchIf c)) ++
  (jumpConditions.map fun (name, c) =>
    { name, visibility, body := [.act (.jumpIf c)] })

/-- Stack operations that depend on the value type. -/
def stackEntries (visibility : Visibility) : List Entry :=
  [{ name := "xxx_xload", visibility,
     body := [.act (.emitByType ⟨"iload", "lload", "fload", "dload"⟩)] },
   { name := "xxx_xstore", visibility,
     body := [.act (.emitByType ⟨"istore", "lstore", "fstore", "dstore"⟩)] },
   { name := "xxx_xreturn", visibility,
     body := [.act (.emitByType ⟨"ireturn", "lreturn", "freturn", "dreturn"⟩)] },
   { name := "xxx_popn", visibility, body := [.byWidth "pop" "pop2"] },
   { name := "xxx_dupn", visibility, body := [.byWidth "dup" "dup2"] },
   { name := "xxx_dupn_xn", visibility, body := [.byWidth "dup_x1" "dup2_x2"] }]

end Lowering.Catalog
