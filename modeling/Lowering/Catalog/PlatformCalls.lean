-- SUMMARY: Operations that call static methods of the Java platform classes.
import Lowering.Table

/-!
# Platform calls

Operations without an instruction of their own are calls to static methods of the Java platform.
-/

namespace Lowering.Catalog

/-- An operation and the static method that it calls. -/
structure PlatformCall where
  name : String
  owner : String
  method : String
  descriptor : String
  deriving DecidableEq, Repr

def platformCalls : List PlatformCall :=
  [⟨"inv_icompare", "java/lang/Integer", "compare", "(II)I"⟩,
   ⟨"inv_iucompare", "java/lang/Integer", "compareUnsigned", "(II)I"⟩,
   ⟨"inv_lcompare", "java/lang/Long", "compare", "(JJ)I"⟩,
   ⟨"inv_lucompare", "java/lang/Long", "compareUnsigned", "(JJ)I"⟩,
   ⟨"inv_iclz", "java/lang/Integer", "numberOfLeadingZeros", "(I)I"⟩,
   ⟨"inv_ictz", "java/lang/Integer", "numberOfTrailingZeros", "(I)I"⟩,
   ⟨"inv_ipopct", "java/lang/Integer", "bitCount", "(I)I"⟩,
   ⟨"inv_iudiv", "java/lang/Integer", "divideUnsigned", "(II)I"⟩,
   ⟨"inv_iurem", "java/lang/Integer", "remainderUnsigned", "(II)I"⟩,
   ⟨"inv_irotl", "java/lang/Integer", "rotateLeft", "(II)I"⟩,
   ⟨"inv_irotr", "java/lang/Integer", "rotateRight", "(II)I"⟩,
   ⟨"inv_iu2l", "java/lang/Integer", "toUnsignedLong", "(I)J"⟩,
   ⟨"inv_lclz", "java/lang/Long", "numberOfLeadingZeros", "(J)I"⟩,
   ⟨"inv_lctz", "java/lang/Long", "numberOfTrailingZeros", "(J)I"⟩,
   ⟨"inv_lpopct", "java/lang/Long", "bitCount", "(J)I"⟩,
   ⟨"inv_ludiv", "java/lang/Long", "divideUnsigned", "(JJ)J"⟩,
   ⟨"inv_lurem", "java/lang/Long", "remainderUnsigned", "(JJ)J"⟩,
   ⟨"inv_lrotl", "java/lang/Long", "rotateLeft", "(JI)J"⟩,
   ⟨"inv_lrotr", "java/lang/Long", "rotateRight", "(JI)J"⟩,
   ⟨"inv_fabs", "java/lang/Math", "abs", "(F)F"⟩,
   ⟨"inv_fmin", "java/lang/Math", "min", "(FF)F"⟩,
   ⟨"inv_fmax", "java/lang/Math", "max", "(FF)F"⟩,
   ⟨"inv_fcopysign", "java/lang/Math", "copySign", "(FF)F"⟩,
   ⟨"inv_dabs", "java/lang/Math", "abs", "(D)D"⟩,
   ⟨"inv_dceil", "java/lang/Math", "ceil", "(D)D"⟩,
   ⟨"inv_dfloor", "java/lang/Math", "floor", "(D)D"⟩,
   ⟨"inv_drint", "java/lang/Math", "rint", "(D)D"⟩,
   ⟨"inv_dsqrt", "java/lang/Math", "sqrt", "(D)D"⟩,
   ⟨"inv_dmin", "java/lang/Math", "min", "(DD)D"⟩,
   ⟨"inv_dmax", "java/lang/Math", "max", "(DD)D"⟩,
   ⟨"inv_dcopysign", "java/lang/Math", "copySign", "(DD)D"⟩,
   ⟨"inv_fasi", "java/lang/Float", "floatToRawIntBits", "(F)I"⟩,
   ⟨"inv_iasf", "java/lang/Float", "intBitsToFloat", "(I)F"⟩,
   ⟨"inv_dasl", "java/lang/Double", "doubleToRawLongBits", "(D)J"⟩,
   ⟨"inv_lasd", "java/lang/Double", "longBitsToDouble", "(J)D"⟩,
   ⟨"ext_isignum", "java/lang/Integer", "signum", "(I)I"⟩]

/-- Calls a static method. -/
def invokeStatic (owner method descriptor : String) : List Op :=
  [.transform (.insertMethod owner method descriptor), .emit "invokestatic"]

/-- The entries for the platform calls. -/
def platformCallEntries (visibility : Visibility) : List Entry :=
  platformCalls.map fun c =>
    { name := c.name, visibility, body := invokeStatic c.owner c.method c.descriptor }

end Lowering.Catalog
