-- SUMMARY: The library of WebAssembly instructions.
import Lowering.Catalog.Extended
import Lowering.Catalog.PlatformCalls
import Lowering.Jvm.InstructionSet

/-!
# WebAssembly

The instructions of the WebAssembly MVP, lowered to the Java virtual machine. Memory, tables and the
arithmetic that the machine lacks are left to the run-time classes in `wasmrun`. Comparisons fused with
an `if`, a branch or a `select` are instructions of their own.
-/

namespace Lowering.Catalog

/-! ## Names -/

/-- Signatures such as `(I32,I64)->F64`. -/
def wasmStyle : SignatureStyle where
  arrow := "->"
  voidMarkers := ["->V00", "->()"]
  separator := ","
  types := [("I32", "I"), ("I64", "J"), ("F32", "F"), ("F64", "D")]

/-- Short owners that start with `wasi` are in the trampoline package. -/
def wasmOwners : List OwnerRule := [.package "wasi" "wasi/trampoline/"]

def storageClass : String := "wasmrun/Storage"

def storageType : String := "Lwasmrun/Storage;"

def helperClass : String := "wasmrun/Helper"

def tableClass : String := "wasmrun/Table"

def tableType : String := "Lwasmrun/Table;"

/-! ## Common bodies -/

def external (name : String) (body : List Op) : Entry := { name, body }

def auxiliary (name : String) (body : List Op) : Entry :=
  { name, visibility := .auxiliary, body }

/-- Access to the storage of the module, through a call site bound to it. An operand gives the offset
or the number of the memory. -/
def storageCall (method descriptor : String) : Op :=
  .dynCall {
    name := method
    descriptor := some descriptor
    bootstrap := {
      owner := storageClass
      method := "storageBootstrap"
      extraParams := "Ljava/lang/invoke/MethodHandle;I"
      args := [.fixed (.handle "GS:__Memory__0()Lwasmrun/Storage;"), .operandInt] } }

/-- A call to a method of the run-time helper class. -/
def helperCall (method descriptor : String) : List Op := invokeStatic helperClass method descriptor

/-- Inserts a field type behind the name of a field. -/
def fieldOf (type : String) : List Op := [.transform (.insert type), .transform .swap]

/-- Chooses one of two values: a test that holds jumps over their exchange, and then the value on top
is dropped. -/
def selectOn (test : Op) : List Op :=
  [.act .localLabel, test, .call "aux_swapnn", .act .localLabel, .act .placeLabel, .call "aux_popn"]

/-! ## Auxiliary entries -/

/-- Reductions of a comparison to zero or one, and stack operations. Those named `m101` expect one of
-1, 0 and 1, the others any integer of that sign. -/
def auxiliaryEntries : List Entry :=
  [auxiliary "aux_ilt" [.emit "iconst_m1", .emit "iushr"],
   auxiliary "aux_ine_m101" [.emit "iconst_1", .emit "iand"],
   auxiliary "aux_ieq_m101" [.call "aux_ine_m101", .emit "iconst_1", .emit "ixor"],
   auxiliary "aux_ilt_m101" [.call "aux_ilt"],
   auxiliary "aux_ile_m101" [.emit "iconst_1", .emit "isub", .call "aux_ilt"],
   auxiliary "aux_igt_m101" [.emit "iconst_1", .emit "iadd", .emit "iconst_1", .emit "iushr"],
   auxiliary "aux_ige_m101" [.emit "ineg", .call "aux_ile_m101"],
   auxiliary "aux_ine" [.call "ext_isignum", .call "aux_ine_m101"],
   auxiliary "aux_ieq" [.call "ext_isignum", .call "aux_ieq_m101"],
   auxiliary "aux_ile" [.emit "i2l", .emit "lconst_1", .emit "lcmp", .call "aux_ilt"],
   auxiliary "aux_igt"
     [.emit "i2l", .emit "lneg", .emit "iconst_m1", .emit "lushr", .emit "l2i"],
   auxiliary "aux_ige" [.call "aux_ilt", .emit "iconst_1", .emit "ixor"],
   auxiliary "aux_popn" [.byWidth "pop" "pop2"],
   auxiliary "aux_dupn" [.byWidth "dup" "dup2"],
   auxiliary "aux_dupn_xn" [.byWidth "dup_x1" "dup2_x2"],
   auxiliary "aux_swapnn" [.call "aux_dupn_xn", .call "aux_popn"],
   auxiliary "aux_fstd_NaN" (helperCall "arithmeticFloatNaN" "(F)F"),
   auxiliary "aux_dstd_NaN" (helperCall "arithmeticDoubleNaN" "(D)D"),
   auxiliary "aux_newtable" (invokeStatic tableClass "getInstance" "()Lwasmrun/Table;"),
   auxiliary "aux_newmem" (invokeStatic storageClass "getInstance" "(II)Lwasmrun/Storage;")]

/-! ## Control and variables -/

/-- An indirect call fetches a method handle from a table and calls it. The handle takes the place of
the table index, which is the last parameter of the signature. -/
def callIndirect : List Op :=
  [.transform (.surround "__Table__" "")] ++ fieldOf tableType ++
  [.emit "getstatic", .emit "swap",
   .transform (.insertMethod tableClass "getMH" "(I)Ljava/lang/invoke/MethodHandle;"),
   .emit "invokevirtual", .transform .toDescriptor,
   .transform (.replace "I)" "Ljava/lang/invoke/MethodHandle;)"),
   .dynCall {
     name := "invokeExact"
     descriptor := none
     bootstrap := { owner := tableClass, method := "callIndirectBootstrapMH" } }]

def controlEntries : List Entry :=
  [external "UNREACHABLE"
     (helperCall "unreachable" "()Ljava/lang/AssertionError;" ++ [.emit "athrow"]),
   { name := "BLOCK", body := [.call "ext_BLOCK"], role := .opens },
   { name := "LOOP", body := [.call "ext_LOOP"], role := .opens },
   { name := "IF", body := [.call "ext_IF_NEZ"], role := .opens },
   { name := "ELSE", body := [.call "ext_ELSE"], role := .reopens },
   { name := "END", body := [.call "ext_END"], role := .closes },
   external "BR" [.call "ext_BR"],
   external "BR_IF" [.call "ext_BR_IFNEZ"],
   external "BR_TABLE" [.call "ext_BR_TABLE"],
   external "RETURN" [.call "ext_RETURN"],
   external "CALL" [.transform .toMethod, .emit "invokestatic"],
   external "CALL_INDIRECT" callIndirect]

/-- An entry that reads or writes a global variable of the given type. -/
def globalEntry (name opcode : String) (type : ValueType) : Entry :=
  { name, body := fieldOf type.code ++ [.emit opcode], type := some type }

def variableEntries : List Entry :=
  [external "DROP" [.call "aux_popn"],
   external "SELECT" (selectOn (.emit "ifne")),
   external "UNWIND"
     [.dynCall {
        name := "unwind"
        descriptor := none
        bootstrap := { owner := helperClass, method := "unwindBootstrap" } }],
   external "LOCAL_GET" [.call "xxx_xload"],
   external "LOCAL_SET" [.call "xxx_xstore"],
   external "LOCAL_TEE" [.call "aux_dupn", .call "xxx_xstore"],
   globalEntry "I32_GLOBAL_GET" "getstatic" .i32,
   globalEntry "I32_GLOBAL_SET" "putstatic" .i32,
   globalEntry "I64_GLOBAL_GET" "getstatic" .i64,
   globalEntry "I64_GLOBAL_SET" "putstatic" .i64,
   globalEntry "F32_GLOBAL_GET" "getstatic" .f32,
   globalEntry "F32_GLOBAL_SET" "putstatic" .f32,
   globalEntry "F64_GLOBAL_GET" "getstatic" .f64,
   globalEntry "F64_GLOBAL_SET" "putstatic" .f64]

/-! ## Memory -/

/-- Loads and stores with the storage method and its descriptor. -/
def memoryAccesses : List (String × String × String) :=
  [("I32_LOAD", "loadInt", "(I)I"), ("I64_LOAD", "loadLong", "(I)J"),
   ("F32_LOAD", "loadFloat", "(I)F"), ("F64_LOAD", "loadDouble", "(I)D"),
   ("I32_LOAD8_S", "loadByte", "(I)I"), ("I32_LOAD8_U", "loadUByte", "(I)I"),
   ("I32_LOAD16_S", "loadShort", "(I)I"), ("I32_LOAD16_U", "loadUShort", "(I)I"),
   ("I64_LOAD8_S", "loadByte2Long", "(I)J"), ("I64_LOAD8_U", "loadUByte2Long", "(I)J"),
   ("I64_LOAD16_S", "loadShort2Long", "(I)J"), ("I64_LOAD16_U", "loadUShort2Long", "(I)J"),
   ("I64_LOAD32_S", "loadInt2Long", "(I)J"), ("I64_LOAD32_U", "loadUInt2Long", "(I)J"),
   ("I32_STORE", "storeInt", "(II)V"), ("I64_STORE", "storeLong", "(IJ)V"),
   ("F32_STORE", "storeFloat", "(IF)V"), ("F64_STORE", "storeDouble", "(ID)V"),
   ("I32_STORE8", "storeByte", "(II)V"), ("I32_STORE16", "storeShort", "(II)V"),
   ("I64_STORE8", "storeLong2Byte", "(IJ)V"), ("I64_STORE16", "storeLong2Short", "(IJ)V"),
   ("I64_STORE32", "storeLong2Int", "(IJ)V")]

/-- The first operand of an access is its alignment, which is not needed. -/
def memoryEntries : List Entry :=
  (memoryAccesses.map fun (name, method, descriptor) =>
    external name [.transform .skip, storageCall method descriptor]) ++
  [external "MEMORY_SIZE" [storageCall "currentPages" "()I"],
   external "MEMORY_GROW" [storageCall "grow" "(I)I"]]

/-! ## Arithmetic -/

/-- Instructions that are instructions of the target. -/
def directInstructions : List (String × List String) :=
  [("NOP", ["nop"]), ("I32_ADD", ["iadd"]), ("I32_SUB", ["isub"]), ("I32_MUL", ["imul"]),
   ("I32_REM_S", ["irem"]), ("I32_AND", ["iand"]), ("I32_OR", ["ior"]), ("I32_XOR", ["ixor"]),
   ("I32_SHL", ["ishl"]), ("I32_SHR_S", ["ishr"]), ("I32_SHR_U", ["iushr"]),
   ("I64_ADD", ["ladd"]), ("I64_SUB", ["lsub"]), ("I64_MUL", ["lmul"]), ("I64_REM_S", ["lrem"]),
   ("I64_AND", ["land"]), ("I64_OR", ["lor"]), ("I64_XOR", ["lxor"]),
   ("I64_SHL", ["l2i", "lshl"]), ("I64_SHR_S", ["l2i", "lshr"]), ("I64_SHR_U", ["l2i", "lushr"]),
   ("F32_NEG", ["fneg"]), ("F32_ADD", ["fadd"]), ("F32_SUB", ["fsub"]), ("F32_MUL", ["fmul"]),
   ("F32_DIV", ["fdiv"]), ("F64_NEG", ["dneg"]), ("F64_ADD", ["dadd"]), ("F64_SUB", ["dsub"]),
   ("F64_MUL", ["dmul"]), ("F64_DIV", ["ddiv"]), ("I32_WRAP_I64", ["l2i"]),
   ("I64_EXTEND_S_I32", ["i2l"]), ("F32_CONVERT_S_I32", ["i2f"]), ("F32_CONVERT_S_I64", ["l2f"]),
   ("F32_DEMOTE_F64", ["d2f"]), ("F64_CONVERT_S_I32", ["i2d"]), ("F64_CONVERT_S_I64", ["l2d"]),
   ("F64_PROMOTE_F32", ["f2d"])]

/-- Instructions that are methods of the run-time helper class, with their descriptors. -/
def helperInstructions : List (String × String × String) :=
  [("I32_DIV_S", "intDiv", "(II)I"), ("I64_DIV_S", "longDiv", "(JJ)J"),
   ("F32_TRUNC", "truncFloat", "(F)F"), ("F64_TRUNC", "truncDouble", "(D)D"),
   ("I32_TRUNC_S_F32", "float2int", "(F)I"), ("I32_TRUNC_U_F32", "float2unsignedInt", "(F)I"),
   ("I32_TRUNC_S_F64", "double2int", "(D)I"), ("I32_TRUNC_U_F64", "double2unsignedInt", "(D)I"),
   ("I64_TRUNC_S_F32", "float2long", "(F)J"), ("I64_TRUNC_U_F32", "float2unsignedLong", "(F)J"),
   ("I64_TRUNC_S_F64", "double2long", "(D)J"), ("I64_TRUNC_U_F64", "double2unsignedLong", "(D)J"),
   ("F32_CONVERT_U_I64", "unsignedLong2float", "(J)F"),
   ("F64_CONVERT_U_I64", "unsignedLong2double", "(J)D")]

def numericEntries : List Entry :=
  [external "I32_CONST" [.load .i32],
   external "I64_CONST" [.load .i64],
   external "F32_CONST" [.load .f32],
   external "F64_CONST" [.load .f64]] ++
  (directInstructions.map fun (name, opcodes) => external name (opcodes.map Op.emit)) ++
  (helperInstructions.map fun (name, method, descriptor) =>
    external name (helperCall method descriptor)) ++
  [external "I32_CLZ" [.call "inv_iclz"],
   external "I32_CTZ" [.call "inv_ictz"],
   external "I32_POPCNT" [.call "inv_ipopct"],
   external "I32_DIV_U" [.call "inv_iudiv"],
   external "I32_REM_U" [.call "inv_iurem"],
   external "I32_ROTL" [.call "inv_irotl"],
   external "I32_ROTR" [.call "inv_irotr"],
   external "I64_CLZ" [.call "inv_lclz", .emit "i2l"],
   external "I64_CTZ" [.call "inv_lctz", .emit "i2l"],
   external "I64_POPCNT" [.call "inv_lpopct", .emit "i2l"],
   external "I64_DIV_U" [.call "inv_ludiv"],
   external "I64_REM_U" [.call "inv_lurem"],
   external "I64_ROTL" [.emit "l2i", .call "inv_lrotl"],
   external "I64_ROTR" [.emit "l2i", .call "inv_lrotr"],
   external "F32_ABS" [.call "inv_fabs"],
   external "F32_CEIL" [.emit "f2d", .call "inv_dceil", .emit "d2f"],
   external "F32_FLOOR" [.emit "f2d", .call "inv_dfloor", .emit "d2f"],
   external "F32_NEAREST" [.emit "f2d", .call "inv_drint", .emit "d2f"],
   external "F32_SQRT" [.emit "f2d", .call "inv_dsqrt", .emit "d2f"],
   external "F32_MIN" [.call "inv_fmin", .call "aux_fstd_NaN"],
   external "F32_MAX" [.call "inv_fmax", .call "aux_fstd_NaN"],
   external "F32_COPYSIGN" [.call "inv_fcopysign"],
   external "F64_ABS" [.call "inv_dabs"],
   external "F64_CEIL" [.call "inv_dceil", .call "aux_dstd_NaN"],
   external "F64_FLOOR" [.call "inv_dfloor", .call "aux_dstd_NaN"],
   external "F64_NEAREST" [.call "inv_drint"],
   external "F64_SQRT" [.call "inv_dsqrt"],
   external "F64_MIN" [.call "inv_dmin", .call "aux_dstd_NaN"],
   external "F64_MAX" [.call "inv_dmax", .call "aux_dstd_NaN"],
   external "F64_COPYSIGN" [.call "inv_dcopysign"],
   external "I64_EXTEND_U_I32" [.call "inv_iu2l"],
   external "F32_CONVERT_U_I32" [.call "inv_iu2l", .emit "l2f"],
   external "F64_CONVERT_U_I32" [.call "inv_iu2l", .emit "l2d"],
   external "I32_REINTERPRET_F32" [.call "inv_fasi"],
   external "I64_REINTERPRET_F64" [.call "inv_dasl"],
   external "F32_REINTERPRET_I32" [.call "inv_iasf"],
   external "F64_REINTERPRET_I64" [.call "inv_lasd"]]

/-! ## Comparisons -/

/-- Comparisons by a platform call, with the reduction of its result. -/
def calledComparisons : List (String × String × String) :=
  [("I32_EQ", "inv_icompare", "aux_ieq"), ("I32_NE", "inv_icompare", "aux_ine"),
   ("I32_LT_S", "inv_icompare", "aux_ilt"), ("I32_LT_U", "inv_iucompare", "aux_ilt"),
   ("I32_GT_S", "inv_icompare", "aux_igt"), ("I32_GT_U", "inv_iucompare", "aux_igt"),
   ("I32_LE_S", "inv_icompare", "aux_ile"), ("I32_LE_U", "inv_iucompare", "aux_ile"),
   ("I32_GE_S", "inv_icompare", "aux_ige"), ("I32_GE_U", "inv_iucompare", "aux_ige"),
   ("I64_LT_U", "inv_lucompare", "aux_ilt"), ("I64_GT_U", "inv_lucompare", "aux_igt"),
   ("I64_LE_U", "inv_lucompare", "aux_ile"), ("I64_GE_U", "inv_lucompare", "aux_ige")]

/-- Comparisons by an instruction, with the reduction of its result. -/
def directComparisons : List (String × String × String) :=
  [("I64_EQ", "lcmp", "aux_ieq_m101"), ("I64_NE", "lcmp", "aux_ine_m101"),
   ("I64_LT_S", "lcmp", "aux_ilt_m101"), ("I64_GT_S", "lcmp", "aux_igt_m101"),
   ("I64_LE_S", "lcmp", "aux_ile_m101"), ("I64_GE_S", "lcmp", "aux_ige_m101"),
   ("F32_EQ", "fcmpl", "aux_ieq_m101"), ("F32_NE", "fcmpl", "aux_ine_m101"),
   ("F32_LT", "fcmpg", "aux_ilt_m101"), ("F32_GT", "fcmpl", "aux_igt_m101"),
   ("F32_LE", "fcmpg", "aux_ile_m101"), ("F32_GE", "fcmpl", "aux_ige_m101"),
   ("F64_EQ", "dcmpl", "aux_ieq_m101"), ("F64_NE", "dcmpl", "aux_ine_m101"),
   ("F64_LT", "dcmpg", "aux_ilt_m101"), ("F64_GT", "dcmpl", "aux_igt_m101"),
   ("F64_LE", "dcmpg", "aux_ile_m101"), ("F64_GE", "dcmpl", "aux_ige_m101")]

def comparisonEntries : List Entry :=
  (calledComparisons.map fun (name, compare, reduction) =>
    external name [.call compare, .call reduction]) ++
  (directComparisons.map fun (name, compare, reduction) =>
    external name [.emit compare, .call reduction]) ++
  [external "I32_EQZ" [.emit "i2l", .emit "lconst_0", .emit "lcmp", .call "aux_ieq_m101"],
   external "I64_EQZ" [.emit "lconst_0", .emit "lcmp", .call "aux_ieq_m101"]]

/-- Comparisons fused with an `if`. -/
def fusedIfs : List (String × String) :=
  [("I32_IFEQZ", "ext_IF_EQZ"), ("I32_IFEQ", "ext_IF_ICMPEQ"), ("I32_IFNE", "ext_IF_ICMPNE"),
   ("I32_IFLT_S", "ext_IF_ICMPLT"), ("I32_IFLT_U", "ext_IF_IUCMPLT"),
   ("I32_IFGT_S", "ext_IF_ICMPGT"), ("I32_IFGT_U", "ext_IF_IUCMPGT"),
   ("I32_IFLE_S", "ext_IF_ICMPLE"), ("I32_IFLE_U", "ext_IF_IUCMPLE"),
   ("I32_IFGE_S", "ext_IF_ICMPGE"), ("I32_IFGE_U", "ext_IF_IUCMPGE"),
   ("I64_IFEQ", "ext_IF_LCMPEQ"), ("I64_IFNE", "ext_IF_LCMPNE"), ("I64_IFLT_S", "ext_IF_LCMPLT"),
   ("I64_IFLT_U", "ext_IF_LUCMPLT"), ("I64_IFGT_S", "ext_IF_LCMPGT"),
   ("I64_IFGT_U", "ext_IF_LUCMPGT"), ("I64_IFLE_S", "ext_IF_LCMPLE"),
   ("I64_IFLE_U", "ext_IF_LUCMPLE"), ("I64_IFGE_S", "ext_IF_LCMPGE"),
   ("I64_IFGE_U", "ext_IF_LUCMPGE"), ("F32_IFEQ", "ext_IF_FCMPEQ"), ("F32_IFNE", "ext_IF_FCMPNE"),
   ("F32_IFLT", "ext_IF_FCMPLT"), ("F32_IFGT", "ext_IF_FCMPGT"), ("F32_IFLE", "ext_IF_FCMPLE"),
   ("F32_IFGE", "ext_IF_FCMPGE"), ("F64_IFEQ", "ext_IF_DCMPEQ"), ("F64_IFNE", "ext_IF_DCMPNE"),
   ("F64_IFLT", "ext_IF_DCMPLT"), ("F64_IFGT", "ext_IF_DCMPGT"), ("F64_IFLE", "ext_IF_DCMPLE"),
   ("F64_IFGE", "ext_IF_DCMPGE")]

/-- Comparisons fused with a branch. -/
def fusedBranches : List (String × String) :=
  [("I32_BR_IFEQZ", "ext_BR_IFEQZ"), ("I32_BR_IFEQ", "ext_BR_IF_ICMPEQ"),
   ("I32_BR_IFNE", "ext_BR_IF_ICMPNE"), ("I32_BR_IFLT_S", "ext_BR_IF_ICMPLT"),
   ("I32_BR_IFLT_U", "ext_BR_IF_IUCMPLT"), ("I32_BR_IFGT_S", "ext_BR_IF_ICMPGT"),
   ("I32_BR_IFGT_U", "ext_BR_IF_IUCMPGT"), ("I32_BR_IFLE_S", "ext_BR_IF_ICMPLE"),
   ("I32_BR_IFLE_U", "ext_BR_IF_IUCMPLE"), ("I32_BR_IFGE_S", "ext_BR_IF_ICMPGE"),
   ("I32_BR_IFGE_U", "ext_BR_IF_IUCMPGE"), ("I64_BR_IFEQ", "ext_BR_IF_LCMPEQ"),
   ("I64_BR_IFNE", "ext_BR_IF_LCMPNE"), ("I64_BR_IFLT_S", "ext_BR_IF_LCMPLT"),
   ("I64_BR_IFLT_U", "ext_BR_IF_LUCMPLT"), ("I64_BR_IFGT_S", "ext_BR_IF_LCMPGT"),
   ("I64_BR_IFGT_U", "ext_BR_IF_LUCMPGT"), ("I64_BR_IFLE_S", "ext_BR_IF_LCMPLE"),
   ("I64_BR_IFLE_U", "ext_BR_IF_LUCMPLE"), ("I64_BR_IFGE_S", "ext_BR_IF_LCMPGE"),
   ("I64_BR_IFGE_U", "ext_BR_IF_LUCMPGE"), ("F32_BR_IFEQ", "ext_BR_IF_FCMPEQ"),
   ("F32_BR_IFNE", "ext_BR_IF_FCMPNE"), ("F32_BR_IFLT", "ext_BR_IF_FCMPLT"),
   ("F32_BR_IFGT", "ext_BR_IF_FCMPGT"), ("F32_BR_IFLE", "ext_BR_IF_FCMPLE"),
   ("F32_BR_IFGE", "ext_BR_IF_FCMPGE"), ("F64_BR_IFEQ", "ext_BR_IF_DCMPEQ"),
   ("F64_BR_IFNE", "ext_BR_IF_DCMPNE"), ("F64_BR_IFLT", "ext_BR_IF_DCMPLT"),
   ("F64_BR_IFGT", "ext_BR_IF_DCMPGT"), ("F64_BR_IFLE", "ext_BR_IF_DCMPLE"),
   ("F64_BR_IFGE", "ext_BR_IF_DCMPGE")]

/-- Comparisons fused with a `select`, with their test. -/
def fusedSelects : List (String × Op) :=
  [("I32_SELECTEQZ", .emit "ifeq"), ("I32_SELECTEQ", .emit "if_icmpeq"),
   ("I32_SELECTNE", .emit "if_icmpne"), ("I32_SELECTLT_S", .emit "if_icmplt"),
   ("I32_SELECTLT_U", .call "ext_if_iucmplt"), ("I32_SELECTGT_S", .emit "if_icmpgt"),
   ("I32_SELECTGT_U", .call "ext_if_iucmpgt"), ("I32_SELECTLE_S", .emit "if_icmple"),
   ("I32_SELECTLE_U", .call "ext_if_iucmple"), ("I32_SELECTGE_S", .emit "if_icmpge"),
   ("I32_SELECTGE_U", .call "ext_if_iucmpge"), ("I64_SELECTEQ", .call "ext_if_lcmpeq"),
   ("I64_SELECTNE", .call "ext_if_lcmpne"), ("I64_SELECTLT_S", .call "ext_if_lcmplt"),
   ("I64_SELECTLT_U", .call "ext_if_lucmplt"), ("I64_SELECTGT_S", .call "ext_if_lcmpgt"),
   ("I64_SELECTGT_U", .call "ext_if_lucmpgt"), ("I64_SELECTLE_S", .call "ext_if_lcmple"),
   ("I64_SELECTLE_U", .call "ext_if_lucmple"), ("I64_SELECTGE_S", .call "ext_if_lcmpge"),
   ("I64_SELECTGE_U", .call "ext_if_lucmpge"), ("F32_SELECTEQ", .call "ext_if_fcmpeq"),
   ("F32_SELECTNE", .call "ext_if_fcmpne"), ("F32_SELECTLT", .call "ext_if_fcmplt"),
   ("F32_SELECTGT", .call "ext_if_fcmpgt"), ("F32_SELECTLE", .call "ext_if_fcmple"),
   ("F32_SELECTGE", .call "ext_if_fcmpge"), ("F64_SELECTEQ", .call "ext_if_dcmpeq"),
   ("F64_SELECTNE", .call "ext_if_dcmpne"), ("F64_SELECTLT", .call "ext_if_dcmplt"),
   ("F64_SELECTGT", .call "ext_if_dcmpgt"), ("F64_SELECTLE", .call "ext_if_dcmple"),
   ("F64_SELECTGE", .call "ext_if_dcmpge")]

def fusedEntries : List Entry :=
  (fusedIfs.map fun (name, callee) => { name, body := [.call callee], role := .opens }) ++
  [{ name := "I64_IFEQZ", body := [.emit "lconst_0", .call "ext_IF_LCMPEQ"], role := .opens }] ++
  (fusedBranches.map fun (name, callee) => external name [.call callee]) ++
  [external "I64_BR_IFEQZ" [.emit "lconst_0", .call "ext_BR_IF_LCMPEQ"]] ++
  (fusedSelects.map fun (name, test) => external name (selectOn test)) ++
  [external "I64_SELECTEQZ" (.emit "lconst_0" :: selectOn (.call "ext_if_lcmpeq"))]

/-! ## Module initialization -/

/-- Adds method handles, given as operands, to a table at a constant index. -/
def addEntry : List Op :=
  [.load .i32,
   .dynCall {
     name := "mharray"
     descriptor := some "()[Ljava/lang/invoke/MethodHandle;"
     bootstrap := {
       owner := tableClass
       method := "constantArrayBootstrap"
       extraParams := "[Ljava/lang/invoke/MethodHandle;"
       args := [.operandHandles] } },
   .transform (.insertMethod tableClass "add" "(I[Ljava/lang/invoke/MethodHandle;)Lwasmrun/Table;"),
   .emit "invokevirtual"]

/-- Reads a field of the given type and writes another. -/
def copyField (type : String) : List Op :=
  fieldOf type ++ [.emit "getstatic"] ++ fieldOf type ++ [.emit "putstatic"]

def initializationEntries : List Entry :=
  [external "MEMORY_NEW" [.emit "ldc", .emit "ldc", .call "aux_newmem"],
   external "MEMORY_CHECK"
     [.emit "ldc", .emit "ldc", storageCall "checkInstance" "(II)Lwasmrun/Storage;"],
   external "ADD_SEGMENT"
     [.emit "ldc", .transform .swap, .emit "ldc",
      storageCall "putBase64String" "(ILjava/lang/String;)V"],
   external "COPY_MEMORY" (copyField storageType),
   external "MEMORY_GLOBAL_GET" (fieldOf storageType ++ [.emit "getstatic"]),
   external "MEMORY_GLOBAL_SET" (fieldOf storageType ++ [.emit "putstatic"]),
   external "TABLE_NEW" [.call "aux_newtable"],
   external "COPY_TABLE" (copyField tableType),
   external "ADD_ENTRY" addEntry,
   external "TABLE_TEE"
     ([.emit "dup", .transform (.surround "__Table__" "")] ++ fieldOf tableType ++
      [.emit "putstatic"])]

/-! ## The table -/

def wasmEntries : List Entry :=
  platformCallEntries .auxiliary ++ extendedEntries .auxiliary ++ stackEntries .auxiliary ++
  auxiliaryEntries ++ controlEntries ++ variableEntries ++ memoryEntries ++ numericEntries ++
  comparisonEntries ++ fusedEntries ++ initializationEntries

/-- A table that extends the WebAssembly instructions by further entries. -/
def wasmTable (name : String) (further : List Entry) : Table where
  name := name
  isa := jvm
  style := some wasmStyle
  owners := wasmOwners
  options := [.structuredLabels, .unsignedLong, .indent]
  entries := wasmEntries ++ further

def wasm32 : Table := wasmTable "wasm32MVP" []

/-- WebAssembly with stores of strings into memory. -/
def wasi : Table :=
  wasmTable "wasi"
    [external "STRING_STORE_SIZED" [storageCall "putSizedString" "(ILjava/lang/String;)V"],
     external "STRING_STORE_C" [storageCall "putCString" "(ILjava/lang/String;)V"],
     external "STRING_STORE" [storageCall "putString" "(ILjava/lang/String;)V"]]

/-- The platform calls and the extended and stack operations, invocable as they are. -/
def extension : Table where
  name := "extension"
  isa := jvm
  entries :=
    platformCallEntries .external ++ extendedEntries .external ++ stackEntries .external

end Lowering.Catalog
