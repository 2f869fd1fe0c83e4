-- SUMMARY: The comparisons of WebAssembly, what they mean, and the code that computes them.
import Lowering.Proofs.Comparison.Machine

/-!
# Comparisons

A comparison of WebAssembly stands alone, or is fused with an `if`, a branch or a `select`. Alone it
compares its operands into an integer of three signs, which it then reduces to one or zero without a
branch. Fused it jumps on the operands or on that integer. Both are decided by the relation.
-/

namespace Lowering

/-! ## Relations -/

inductive Signedness where
  | signed | unsigned
  deriving DecidableEq, Repr

def Signedness.suffix : Signedness → String
  | signed => "_S"
  | unsigned => "_U"

/-- A relation of integers. -/
inductive IntRelation where
  | eq | ne
  | lt (s : Signedness) | gt (s : Signedness) | le (s : Signedness) | ge (s : Signedness)
  deriving DecidableEq, Repr

namespace IntRelation

def compare : IntRelation → Compare
  | eq => .eq
  | ne => .ne
  | lt _ => .lt
  | gt _ => .gt
  | le _ => .le
  | ge _ => .ge

/-- How the operands are read. It does not matter for their equality. -/
def signedness : IntRelation → Signedness
  | eq | ne => .signed
  | lt s | gt s | le s | ge s => s

/-- The letters that name the relation in a mnemonic. -/
def suffix (r : IntRelation) : String :=
  match r with
  | eq | ne => r.compare.suffix
  | lt s | gt s | le s | ge s => r.compare.suffix ++ s.suffix

/-- Whether the relation holds of two words. -/
def holds {w : Nat} : IntRelation → BitVec w → BitVec w → Bool
  | eq, a, b => a == b
  | ne, a, b => a != b
  | lt .signed, a, b => a.slt b
  | lt .unsigned, a, b => a.ult b
  | gt .signed, a, b => b.slt a
  | gt .unsigned, a, b => b.ult a
  | le .signed, a, b => a.sle b
  | le .unsigned, a, b => a.ule b
  | ge .signed, a, b => b.sle a
  | ge .unsigned, a, b => b.ule a

def all : List IntRelation :=
  [eq, ne, lt .signed, lt .unsigned, gt .signed, gt .unsigned, le .signed, le .unsigned, ge .signed,
   ge .unsigned]

theorem mem_all (r : IntRelation) : r ∈ all := by
  rcases r with _ | _ | s | s | s | s <;> first | decide | cases s <;> decide

/-- How two words are ordered when they are read so. -/
def order {w : Nat} (r : IntRelation) (a b : BitVec w) : Ordering :=
  match r.signedness with
  | .signed => ordering a.toInt b.toInt
  | .unsigned => ordering a.toNat b.toNat

end IntRelation

theorem ordering_lt_iff {a b : Int} : ordering a b = .lt ↔ a < b := by
  unfold ordering
  grind

theorem ordering_eq_iff {a b : Int} : ordering a b = .eq ↔ a = b := by
  unfold ordering
  grind

theorem ordering_gt_iff {a b : Int} : ordering a b = .gt ↔ b < a := by
  unfold ordering
  grind

/-- The order of two words decides a relation. -/
theorem IntRelation.holds_order {w : Nat} (r : IntRelation) (a b : BitVec w) :
    r.compare.holds (r.order a b) = r.holds a b := by
  have heq : (ordering a.toInt b.toInt = .eq) ↔ a = b := by
    rw [ordering_eq_iff, BitVec.toInt_inj]
  rw [Bool.eq_iff_iff]
  rcases r with _ | _ | s | s | s | s
  · simp [compare, order, signedness, holds, Compare.holds, heq]
  · simp [compare, order, signedness, holds, Compare.holds, heq]
  all_goals
    cases s <;>
      simp [compare, order, signedness, holds, Compare.holds, ordering_lt_iff, ordering_gt_iff,
        BitVec.slt_iff_toInt_lt, BitVec.sle_iff_toInt_le, BitVec.ult_iff_lt, BitVec.ule_iff_le,
        BitVec.lt_def, BitVec.le_def]

/-! ## Comparisons -/

def Compare.all : List Compare := [eq, ne, lt, gt, le, ge]

/-- A comparison with zero, of integers or of floats. -/
inductive Comparison where
  | zeroInt | zeroLong
  | int (r : IntRelation) | long (r : IntRelation)
  | float (c : Compare) | double (c : Compare)
  deriving DecidableEq, Repr

/-- Whether a comparison holds of floats in this order. Of unordered ones, only that they differ. -/
def Compare.holdsOf (c : Compare) : Option Ordering → Bool
  | some o => c.holds o
  | none => c == .ne

namespace Comparison

/-! ### Names -/

/-- The type of the operands. -/
def type : Comparison → ValueType
  | zeroInt | int _ => .i32
  | zeroLong | long _ => .i64
  | float _ => .f32
  | double _ => .f64

/-- The letters that name the relation in a mnemonic. -/
def relation : Comparison → String
  | zeroInt | zeroLong => "EQZ"
  | int r | long r => r.suffix
  | float c | double c => c.suffix

def name (c : Comparison) : String := c.type.name ++ "_" ++ c.relation

def ifName (c : Comparison) : String := c.type.name ++ "_IF" ++ c.relation

def branchName (c : Comparison) : String := c.type.name ++ "_BR_IF" ++ c.relation

def selectName (c : Comparison) : String := c.type.name ++ "_SELECT" ++ c.relation

def all : List Comparison :=
  [zeroInt, zeroLong] ++ IntRelation.all.map int ++ IntRelation.all.map long ++
  Compare.all.map float ++ Compare.all.map double

theorem mem_all (c : Comparison) : c ∈ all := by
  have hcompare : ∀ c : Compare, c ∈ Compare.all := by
    intro c
    cases c <;> decide
  cases c with
  | zeroInt | zeroLong => decide
  | int r | long r => simp [all, IntRelation.mem_all]
  | float c | double c => simp [all, hcompare]

/-! ### Meaning -/

/-- The operands of a comparison. -/
inductive Operands (p : Platform) : Comparison → Type
  | zeroInt (a : BitVec 32) : Operands p .zeroInt
  | zeroLong (a : BitVec 64) : Operands p .zeroLong
  | int (r : IntRelation) (a b : BitVec 32) : Operands p (.int r)
  | long (r : IntRelation) (a b : BitVec 64) : Operands p (.long r)
  | float (c : Compare) (a b : p.Single) : Operands p (.float c)
  | double (c : Compare) (a b : p.Double) : Operands p (.double c)

variable {p : Platform}

/-- The operands on the stack, the last on top. -/
def Operands.values {c : Comparison} : Operands p c → Stack p
  | zeroInt a => [.int a]
  | zeroLong a => [.long a]
  | int _ a b => [.int b, .int a]
  | long _ a b => [.long b, .long a]
  | float _ a b => [.float b, .float a]
  | double _ a b => [.double b, .double a]

/-- Whether the comparison holds of its operands. -/
def Operands.holds {c : Comparison} : Operands p c → Bool
  | zeroInt a => a == 0
  | zeroLong a => a == 0
  | int r a b => r.holds a b
  | long r a b => r.holds a b
  | float c a b => c.holdsOf (p.singleOrder a b)
  | double c a b => c.holdsOf (p.doubleOrder a b)

/-! ### Code -/

/-- The comparison of the integer that the code computes with zero. -/
def compare : Comparison → Compare
  | zeroInt | zeroLong => .eq
  | int r | long r => r.compare
  | float c | double c => c

/-- The code that compares the operands into an integer. An unordered pair of floats counts as greater
where less or equal is asked, and else as less. -/
def threeWay : Comparison → List Instr
  | zeroInt => [.i2l, .lconst0, .lcmp]
  | zeroLong => [.lconst0, .lcmp]
  | int r => match r.signedness with
    | .signed => [.compare]
    | .unsigned => [.compareUnsigned]
  | long r => match r.signedness with
    | .signed => [.lcmp]
    | .unsigned => [.longCompareUnsigned]
  | float c => if c = .lt ∨ c = .le then [.fcmpg] else [.fcmpl]
  | double c => if c = .lt ∨ c = .le then [.dcmpg] else [.dcmpl]

/-- Whether that integer is one of -1, 0 and 1. -/
def isExact : Comparison → Bool
  | int _ => false
  | long r => r.signedness == .signed
  | _ => true

/-- The code that reduces an integer to one or zero by its sign, and that for -1, 0 and 1 only. -/
def reduction : Bool → Compare → List Instr
  | true, .eq => [.iconst1, .iand, .iconst1, .ixor]
  | true, .ne => [.iconst1, .iand]
  | _, .lt => [.iconstM1, .iushr]
  | true, .gt => [.iconst1, .iadd, .iconst1, .iushr]
  | true, .le => [.iconst1, .isub, .iconstM1, .iushr]
  | true, .ge => [.ineg, .iconst1, .isub, .iconstM1, .iushr]
  | false, .eq => [.signum, .iconst1, .iand, .iconst1, .ixor]
  | false, .ne => [.signum, .iconst1, .iand]
  | false, .gt => [.i2l, .lneg, .iconstM1, .lushr, .l2i]
  | false, .le => [.i2l, .lconst1, .lcmp, .iconstM1, .iushr]
  | false, .ge => [.iconstM1, .iushr, .iconst1, .ixor]

/-- The code of the comparison that stands alone. -/
def code (c : Comparison) : List Instr := c.threeWay ++ reduction c.isExact c.compare

/-- What a fused comparison pushes before its test. -/
def setup : Comparison → List Instr
  | zeroLong => [.lconst0]
  | _ => []

/-- What a fused comparison tests. -/
def condition : Comparison → Condition
  | zeroInt => .zero
  | zeroLong => .long .eq
  | int r => match r.signedness with
    | .signed => .int r.compare
    | .unsigned => .unsignedInt r.compare
  | long r => match r.signedness with
    | .signed => .long r.compare
    | .unsigned => .unsignedLong r.compare
  | float c => .float c
  | double c => .double c

end Comparison

/-! ## The reductions -/

theorem sign_lt_iff {r : BitVec 32} : sign r = .lt ↔ r.toInt < 0 := ordering_lt_iff

theorem sign_gt_iff {r : BitVec 32} : sign r = .gt ↔ 0 < r.toInt := ordering_gt_iff

/-- The highest bit of an integer tells whether it is less than zero. -/
theorem ushiftRight_highest {w : Nat} (x : BitVec (w + 1)) :
    (x >>> w).toNat = if x.toInt < 0 then 1 else 0 := by
  rw [BitVec.toNat_ushiftRight, Nat.shiftRight_eq_div_pow, BitVec.toInt_eq_toNat_cond]
  have hlt := x.isLt
  have hpow : 2 ^ (w + 1) = 2 * 2 ^ w := Nat.pow_succ'
  split
  · rw [if_neg (by omega)]
    exact Nat.div_eq_of_lt (by omega)
  · rw [if_pos (by omega)]
    exact Nat.div_eq_of_lt_le (by omega) (by omega)

theorem int_highest (r : BitVec 32) : r >>> 31 = if sign r = .lt then 1 else 0 := by
  apply BitVec.eq_of_toNat_eq
  rw [ushiftRight_highest]
  simp only [sign_lt_iff]
  split <;> rfl

theorem long_highest (x : BitVec 64) : (x >>> 63).setWidth 32 = if x.toInt < 0 then 1 else 0 := by
  apply BitVec.eq_of_toNat_eq
  rw [BitVec.toNat_setWidth, ushiftRight_highest]
  split <;> rfl

theorem toInt_neg_signExtend (r : BitVec 32) : (-(r.signExtend 64)).toInt = -r.toInt := by
  have hle := r.toInt_lt
  have hge := r.le_toInt
  rw [BitVec.toInt_neg, BitVec.toInt_signExtend_of_le (by decide)]
  exact Int.bmod_eq_of_le (by omega) (by omega)

namespace Comparison

variable {p : Platform}

theorem reduction_exact (c : Compare) (o : Ordering) (s : Stack p) :
    Instr.execAll p (reduction true c) (.int (ofOrdering o) :: s) =
      some (.int (if c.holds o then 1 else 0) :: s) := by
  cases c <;> cases o <;> rfl

/-- The code that is used for any integer reduces it by its sign. -/
theorem reduction_sign (c : Compare) (r : BitVec 32) (s : Stack p) :
    Instr.execAll p (reduction false c) (.int r :: s) =
      some (.int (if c.holds (sign r) then 1 else 0) :: s) := by
  cases c with
  | eq => exact reduction_exact .eq (sign r) s
  | ne => exact reduction_exact .ne (sign r) s
  | lt =>
    show some (Value.int (r >>> 31) :: s) = _
    rw [int_highest]
    cases sign r <;> rfl
  | gt =>
    show some (Value.int (((-(r.signExtend 64)) >>> 63).setWidth 32) :: s) = _
    have hsign : (-r.toInt < 0) ↔ Compare.gt.holds (sign r) = true := by
      rw [Compare.holds, beq_iff_eq, sign_gt_iff]
      omega
    rw [long_highest, toInt_neg_signExtend]
    simp only [hsign]
  | le =>
    show some (Value.int (ofOrdering (ordering (r.signExtend 64).toInt 1) >>> 31) :: s) = _
    have hsign : ordering r.toInt 1 = .lt ↔ Compare.le.holds (sign r) = true := by
      rw [Compare.holds, bne_iff_ne, ne_eq, sign_gt_iff, ordering_lt_iff]
      omega
    rw [int_highest, sign_ofOrdering, BitVec.toInt_signExtend_of_le (by decide)]
    simp only [hsign]
  | ge =>
    show some (Value.int ((r >>> 31) ^^^ 1) :: s) = _
    rw [int_highest]
    cases sign r <;> rfl

/-! ## The comparisons -/

/-- Floats are compared so that an unordered pair fails every comparison but that for difference. -/
theorem holds_getD (c : Compare) (o : Option Ordering) :
    c.holds (o.getD (if c = .lt ∨ c = .le then .gt else .lt)) = c.holdsOf o := by
  rcases o with _ | o
  · cases c <;> rfl
  · rfl

/-- The operands are compared into an integer whose sign decides the comparison. -/
theorem threeWay_exec {c : Comparison} (x : Operands p c) (s : Stack p) :
    ∃ r, Instr.execAll p c.threeWay (x.values ++ s) = some (.int r :: s) ∧
      c.compare.holds (sign r) = x.holds ∧ (c.isExact = true → r = ofOrdering (sign r)) := by
  cases x with
  | zeroInt a =>
    refine ⟨ofOrdering (ordering (a.signExtend 64).toInt 0), rfl, ?_, by simp⟩
    rw [sign_ofOrdering, BitVec.toInt_signExtend_of_le (by decide)]
    exact IntRelation.holds_order .eq a 0
  | zeroLong a =>
    refine ⟨ofOrdering (ordering a.toInt 0), rfl, ?_, by simp⟩
    rw [sign_ofOrdering]
    exact IntRelation.holds_order .eq a 0
  | int r a b =>
    have hholds := IntRelation.holds_order r a b
    unfold IntRelation.order at hholds
    simp only [threeWay]
    split at hholds
    · refine ⟨p.intCompare a b, rfl, ?_, nofun⟩
      rw [p.sign_intCompare]
      exact hholds
    · refine ⟨p.intCompareUnsigned a b, rfl, ?_, nofun⟩
      rw [p.sign_intCompareUnsigned]
      exact hholds
  | long r a b =>
    have hholds := IntRelation.holds_order r a b
    unfold IntRelation.order at hholds
    simp only [threeWay]
    split at hholds
    · refine ⟨ofOrdering (ordering a.toInt b.toInt), rfl, ?_, by simp⟩
      rw [sign_ofOrdering]
      exact hholds
    · rename_i hunsigned
      refine ⟨p.longCompareUnsigned a b, rfl, ?_, by simp [isExact, hunsigned]⟩
      rw [p.sign_longCompareUnsigned]
      exact hholds
  | float c a b =>
    refine ⟨ofOrdering ((p.singleOrder a b).getD (if c = .lt ∨ c = .le then .gt else .lt)), ?_, ?_,
      by simp⟩
    · cases c <;> rfl
    · rw [sign_ofOrdering]
      exact holds_getD c _
  | double c a b =>
    refine ⟨ofOrdering ((p.doubleOrder a b).getD (if c = .lt ∨ c = .le then .gt else .lt)), ?_, ?_,
      by simp⟩
    · cases c <;> rfl
    · rw [sign_ofOrdering]
      exact holds_getD c _

/-- A comparison that stands alone leaves one if it holds, and else zero. -/
theorem code_exec {c : Comparison} (x : Operands p c) (s : Stack p) :
    Instr.execAll p c.code (x.values ++ s) = some (.int (if x.holds then 1 else 0) :: s) := by
  obtain ⟨r, hexec, hholds, hexact⟩ := threeWay_exec x s
  rw [code, Instr.execAll_append, hexec, Option.bind_some, ← hholds]
  cases h : c.isExact with
  | false => exact reduction_sign c.compare r s
  | true =>
    have hreduced := reduction_exact c.compare (sign r) s
    rwa [← hexact h] at hreduced

end Comparison

end Lowering
