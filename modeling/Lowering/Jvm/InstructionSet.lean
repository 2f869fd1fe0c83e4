-- SUMMARY: The instruction set of the Java virtual machine.
import Lowering.Jvm.Constant

/-!
# The Java virtual machine

The instruction table with the operand form of each instruction, the tests of conditions, and the
instruction set made of them. `.line` is the assembler's line-number directive.
-/

namespace Lowering

namespace Jvm

def instructions : List Instruction :=
  [⟨"nop", .none⟩, ⟨"aconst_null", .none⟩, ⟨"iconst_m1", .none⟩, ⟨"iconst_0", .none⟩,
   ⟨"iconst_1", .none⟩, ⟨"iconst_2", .none⟩, ⟨"iconst_3", .none⟩, ⟨"iconst_4", .none⟩,
   ⟨"iconst_5", .none⟩, ⟨"lconst_0", .none⟩, ⟨"lconst_1", .none⟩, ⟨"fconst_0", .none⟩,
   ⟨"fconst_1", .none⟩, ⟨"fconst_2", .none⟩, ⟨"dconst_0", .none⟩, ⟨"dconst_1", .none⟩,
   ⟨"bipush", .one⟩, ⟨"sipush", .one⟩, ⟨"ldc", .one⟩, ⟨"ldc_w", .one⟩, ⟨"ldc2_w", .one⟩,
   ⟨"iload", .one⟩, ⟨"lload", .one⟩, ⟨"fload", .one⟩, ⟨"dload", .one⟩, ⟨"aload", .one⟩,
   ⟨"iaload", .none⟩, ⟨"laload", .none⟩, ⟨"faload", .none⟩, ⟨"daload", .none⟩, ⟨"aaload", .none⟩,
   ⟨"baload", .none⟩, ⟨"caload", .none⟩, ⟨"saload", .none⟩, ⟨"istore", .one⟩, ⟨"lstore", .one⟩,
   ⟨"fstore", .one⟩, ⟨"dstore", .one⟩, ⟨"astore", .one⟩, ⟨"iastore", .none⟩, ⟨"lastore", .none⟩,
   ⟨"fastore", .none⟩, ⟨"dastore", .none⟩, ⟨"aastore", .none⟩, ⟨"bastore", .none⟩,
   ⟨"castore", .none⟩, ⟨"sastore", .none⟩, ⟨"pop", .none⟩, ⟨"pop2", .none⟩, ⟨"dup", .none⟩,
   ⟨"dup_x1", .none⟩, ⟨"dup_x2", .none⟩, ⟨"dup2", .none⟩, ⟨"dup2_x1", .none⟩, ⟨"dup2_x2", .none⟩,
   ⟨"swap", .none⟩, ⟨"iadd", .none⟩, ⟨"ladd", .none⟩, ⟨"fadd", .none⟩, ⟨"dadd", .none⟩,
   ⟨"isub", .none⟩, ⟨"lsub", .none⟩, ⟨"fsub", .none⟩, ⟨"dsub", .none⟩, ⟨"imul", .none⟩,
   ⟨"lmul", .none⟩, ⟨"fmul", .none⟩, ⟨"dmul", .none⟩, ⟨"idiv", .none⟩, ⟨"ldiv", .none⟩,
   ⟨"fdiv", .none⟩, ⟨"ddiv", .none⟩, ⟨"irem", .none⟩, ⟨"lrem", .none⟩, ⟨"frem", .none⟩,
   ⟨"drem", .none⟩, ⟨"ineg", .none⟩, ⟨"lneg", .none⟩, ⟨"fneg", .none⟩, ⟨"dneg", .none⟩,
   ⟨"ishl", .none⟩, ⟨"lshl", .none⟩, ⟨"ishr", .none⟩, ⟨"lshr", .none⟩, ⟨"iushr", .none⟩,
   ⟨"lushr", .none⟩, ⟨"iand", .none⟩, ⟨"land", .none⟩, ⟨"ior", .none⟩, ⟨"lor", .none⟩,
   ⟨"ixor", .none⟩, ⟨"lxor", .none⟩, ⟨"iinc", .two⟩, ⟨"i2l", .none⟩, ⟨"i2f", .none⟩,
   ⟨"i2d", .none⟩, ⟨"l2i", .none⟩, ⟨"l2f", .none⟩, ⟨"l2d", .none⟩, ⟨"f2i", .none⟩, ⟨"f2l", .none⟩,
   ⟨"f2d", .none⟩, ⟨"d2i", .none⟩, ⟨"d2l", .none⟩, ⟨"d2f", .none⟩, ⟨"i2b", .none⟩, ⟨"i2c", .none⟩,
   ⟨"i2s", .none⟩, ⟨"lcmp", .none⟩, ⟨"fcmpl", .none⟩, ⟨"fcmpg", .none⟩, ⟨"dcmpl", .none⟩,
   ⟨"dcmpg", .none⟩, ⟨"ifeq", .label⟩, ⟨"ifne", .label⟩, ⟨"iflt", .label⟩, ⟨"ifge", .label⟩,
   ⟨"ifgt", .label⟩, ⟨"ifle", .label⟩, ⟨"if_icmpeq", .label⟩, ⟨"if_icmpne", .label⟩,
   ⟨"if_icmplt", .label⟩, ⟨"if_icmpge", .label⟩, ⟨"if_icmpgt", .label⟩, ⟨"if_icmple", .label⟩,
   ⟨"if_acmpeq", .label⟩, ⟨"if_acmpne", .label⟩, ⟨"goto", .label⟩, ⟨"jsr", .label⟩, ⟨"ret", .one⟩,
   ⟨"tableswitch", .rest⟩, ⟨"lookupswitch", .rest⟩, ⟨"ireturn", .none⟩, ⟨"lreturn", .none⟩,
   ⟨"freturn", .none⟩, ⟨"dreturn", .none⟩, ⟨"areturn", .none⟩, ⟨"return", .none⟩,
   ⟨"getstatic", .two⟩, ⟨"putstatic", .two⟩, ⟨"getfield", .two⟩, ⟨"putfield", .two⟩,
   ⟨"invokevirtual", .one⟩, ⟨"invokespecial", .one⟩, ⟨"invokestatic", .one⟩,
   ⟨"invokeinterface", .one⟩, ⟨"invokedynamic", .rest⟩, ⟨"new", .one⟩, ⟨"newarray", .one⟩,
   ⟨"anewarray", .one⟩, ⟨"arraylength", .none⟩, ⟨"athrow", .none⟩, ⟨"checkcast", .one⟩,
   ⟨"instanceof", .one⟩, ⟨"monitorenter", .none⟩, ⟨"monitorexit", .none⟩, ⟨"multianewarray", .two⟩,
   ⟨"ifnull", .label⟩, ⟨"ifnonnull", .label⟩, ⟨"goto_w", .label⟩, ⟨"jsr_w", .label⟩,
   ⟨".line", .one⟩]

/-! ## Conditions -/

/-- The jump that compares one integer with zero. -/
def zeroJump : Compare → String
  | .eq => "ifeq"
  | .ne => "ifne"
  | .lt => "iflt"
  | .gt => "ifgt"
  | .le => "ifle"
  | .ge => "ifge"

/-- The jump that compares two integers. -/
def intJump : Compare → String
  | .eq => "if_icmpeq"
  | .ne => "if_icmpne"
  | .lt => "if_icmplt"
  | .gt => "if_icmpgt"
  | .le => "if_icmple"
  | .ge => "if_icmpge"

/-- What reduces the operands of a condition to one integer. Floats below or equal are compared so
that an unordered pair counts as greater, all others so that it counts as less. -/
def prelude : Condition → List FixedInstruction
  | .nonZero | .zero | .int _ => []
  | .unsignedInt _ => [⟨"invokestatic", some "java/lang/Integer/compareUnsigned(II)I"⟩]
  | .long _ => [⟨"lcmp", none⟩]
  | .unsignedLong _ => [⟨"invokestatic", some "java/lang/Long/compareUnsigned(JJ)I"⟩]
  | .float .lt | .float .le => [⟨"fcmpg", none⟩]
  | .float _ => [⟨"fcmpl", none⟩]
  | .double .lt | .double .le => [⟨"dcmpg", none⟩]
  | .double _ => [⟨"dcmpl", none⟩]

/-- The jump that is taken when a condition holds, after its prelude. -/
def jump : Condition → String
  | .nonZero => "ifne"
  | .zero => "ifeq"
  | .int c => intJump c
  | .unsignedInt c | .long c | .unsignedLong c | .float c | .double c => zeroJump c

/-- The test of a condition or of its negation. The prelude is that of the condition as written, so
that an unordered pair fails the condition and passes its negation. -/
def test (c : Condition) (negated : Bool) : ConditionTest :=
  ⟨prelude c, jump (if negated then c.negate else c)⟩

end Jvm

/-- The instruction set of the Java virtual machine. -/
def jvm : InstructionSet where
  name := "jvm"
  instructions := Jvm.instructions
  goto := "goto"
  tableSwitch := "tableswitch"
  voidReturn := "return"
  typedReturn := ⟨"ireturn", "lreturn", "freturn", "dreturn"⟩
  test := Jvm.test
  load := Jvm.loadConstant

end Lowering
