-- SUMMARY: The operand stack of the Java virtual machine, under comparisons, selections and jumps forward.
import Lowering.Expansion
import Lowering.Jvm.InstructionSet

/-!
# The operand stack

A machine for code that compares, selects and jumps: values of one or two slots on a stack, and a jump
that is pending until its label comes. Code that ends with a pending jump has been left by that jump. An
instruction that is applied to other values than it asks for gets stuck.
-/

namespace Lowering

/-! ## Orderings -/

/-- How two integers are ordered. -/
def ordering (a b : Int) : Ordering :=
  if a < b then .lt else if a = b then .eq else .gt

/-- How an integer and zero are ordered. -/
def sign (r : BitVec 32) : Ordering := ordering r.toInt 0

/-- The integer that stands for an ordering. -/
def ofOrdering : Ordering → BitVec 32
  | .lt => -1
  | .eq => 0
  | .gt => 1

@[simp] theorem sign_ofOrdering (o : Ordering) : sign (ofOrdering o) = o := by
  cases o <;> decide

/-- Whether the comparison holds of values in this order. -/
def Compare.holds : Compare → Ordering → Bool
  | eq, o => o == .eq
  | ne, o => o != .eq
  | lt, o => o == .lt
  | gt, o => o == .gt
  | le, o => o != .gt
  | ge, o => o != .lt

theorem Compare.holds_negate (c : Compare) (o : Ordering) : c.negate.holds o = !c.holds o := by
  cases c <;> cases o <;> rfl

/-! ## Values -/

/-- What the machine leaves open: the floats with their order, in which two may be unordered, and the
integers that the methods of the platform return for a comparison, of which only the sign is known. -/
structure Platform where
  Single : Type
  Double : Type
  singleOrder : Single → Single → Option Ordering
  doubleOrder : Double → Double → Option Ordering
  intCompare : BitVec 32 → BitVec 32 → BitVec 32
  intCompareUnsigned : BitVec 32 → BitVec 32 → BitVec 32
  longCompareUnsigned : BitVec 64 → BitVec 64 → BitVec 32
  sign_intCompare : ∀ a b, sign (intCompare a b) = ordering a.toInt b.toInt
  sign_intCompareUnsigned : ∀ a b, sign (intCompareUnsigned a b) = ordering a.toNat b.toNat
  sign_longCompareUnsigned : ∀ a b, sign (longCompareUnsigned a b) = ordering a.toNat b.toNat

inductive Value (p : Platform) where
  | int (v : BitVec 32)
  | long (v : BitVec 64)
  | float (v : p.Single)
  | double (v : p.Double)

def Value.type {p : Platform} : Value p → ValueType
  | int _ => .i32
  | long _ => .i64
  | float _ => .f32
  | double _ => .f64

def Value.width {p : Platform} (v : Value p) : Width := v.type.width

/-- The values on the stack, top first. -/
abbrev Stack (p : Platform) := List (Value p)

/-- The values in the two slots on top, and those below. -/
def Stack.topTwo? {p : Platform} : Stack p → Option (Stack p × Stack p)
  | [] => none
  | v :: below =>
    match v.width, below with
    | .double, below => some ([v], below)
    | .single, w :: below => if w.width = .single then some ([v, w], below) else none
    | .single, [] => none

theorem Stack.topTwo?_double {p : Platform} {v : Value p} (hv : v.width = .double) (s : Stack p) :
    topTwo? (v :: s) = some ([v], s) := by
  simp only [topTwo?, hv]

/-! ## Instructions -/

/-- The instructions that comparisons and selections consist of. -/
inductive Instr where
  | iconstM1 | iconst1 | lconst0 | lconst1
  | iadd | isub | ineg | iand | ixor | iushr
  | lneg | lushr | i2l | l2i
  | lcmp | fcmpl | fcmpg | dcmpl | dcmpg
  | compare | compareUnsigned | longCompareUnsigned | signum
  | pop | pop2 | dupX1 | dup2X2
  deriving DecidableEq, Repr

namespace Instr

/-- The instruction as it is emitted. -/
def fixed : Instr → FixedInstruction
  | iconstM1 => ⟨"iconst_m1", none⟩
  | iconst1 => ⟨"iconst_1", none⟩
  | lconst0 => ⟨"lconst_0", none⟩
  | lconst1 => ⟨"lconst_1", none⟩
  | iadd => ⟨"iadd", none⟩
  | isub => ⟨"isub", none⟩
  | ineg => ⟨"ineg", none⟩
  | iand => ⟨"iand", none⟩
  | ixor => ⟨"ixor", none⟩
  | iushr => ⟨"iushr", none⟩
  | lneg => ⟨"lneg", none⟩
  | lushr => ⟨"lushr", none⟩
  | i2l => ⟨"i2l", none⟩
  | l2i => ⟨"l2i", none⟩
  | lcmp => ⟨"lcmp", none⟩
  | fcmpl => ⟨"fcmpl", none⟩
  | fcmpg => ⟨"fcmpg", none⟩
  | dcmpl => ⟨"dcmpl", none⟩
  | dcmpg => ⟨"dcmpg", none⟩
  | compare => ⟨"invokestatic", some "java/lang/Integer/compare(II)I"⟩
  | compareUnsigned => ⟨"invokestatic", some "java/lang/Integer/compareUnsigned(II)I"⟩
  | longCompareUnsigned => ⟨"invokestatic", some "java/lang/Long/compareUnsigned(JJ)I"⟩
  | signum => ⟨"invokestatic", some "java/lang/Integer/signum(I)I"⟩
  | pop => ⟨"pop", none⟩
  | pop2 => ⟨"pop2", none⟩
  | dupX1 => ⟨"dup_x1", none⟩
  | dup2X2 => ⟨"dup2_x2", none⟩

def primitive (i : Instr) : Primitive := i.fixed.primitive

def all : List Instr :=
  [iconstM1, iconst1, lconst0, lconst1, iadd, isub, ineg, iand, ixor, iushr, lneg, lushr, i2l, l2i,
   lcmp, fcmpl, fcmpg, dcmpl, dcmpg, compare, compareUnsigned, longCompareUnsigned, signum, pop, pop2,
   dupX1, dup2X2]

/-- The instruction that is emitted so. -/
def decode? (p : Primitive) : Option Instr := all.find? fun i => decide (i.primitive = p)

theorem decode?_primitive (i : Instr) : decode? i.primitive = some i := by
  have hall : (all.all fun i => decide (decode? i.primitive = some i)) = true := by decide +kernel
  have hmem : i ∈ all := by cases i <;> decide
  exact of_decide_eq_true (List.all_eq_true.mp hall i hmem)

/-- Performs an instruction on the stack. Only the low bits of a shift count are used. -/
def exec (p : Platform) : Instr → Stack p → Option (Stack p)
  | iconstM1, s => some (.int (-1) :: s)
  | iconst1, s => some (.int 1 :: s)
  | lconst0, s => some (.long 0 :: s)
  | lconst1, s => some (.long 1 :: s)
  | iadd, .int b :: .int a :: s => some (.int (a + b) :: s)
  | isub, .int b :: .int a :: s => some (.int (a - b) :: s)
  | ineg, .int a :: s => some (.int (-a) :: s)
  | iand, .int b :: .int a :: s => some (.int (a &&& b) :: s)
  | ixor, .int b :: .int a :: s => some (.int (a ^^^ b) :: s)
  | iushr, .int n :: .int a :: s => some (.int (a >>> (n.toNat % 32)) :: s)
  | lneg, .long a :: s => some (.long (-a) :: s)
  | lushr, .int n :: .long a :: s => some (.long (a >>> (n.toNat % 64)) :: s)
  | i2l, .int a :: s => some (.long (a.signExtend 64) :: s)
  | l2i, .long a :: s => some (.int (a.setWidth 32) :: s)
  | lcmp, .long b :: .long a :: s => some (.int (ofOrdering (ordering a.toInt b.toInt)) :: s)
  | fcmpl, .float b :: .float a :: s => some (.int (ofOrdering ((p.singleOrder a b).getD .lt)) :: s)
  | fcmpg, .float b :: .float a :: s => some (.int (ofOrdering ((p.singleOrder a b).getD .gt)) :: s)
  | dcmpl, .double b :: .double a :: s =>
    some (.int (ofOrdering ((p.doubleOrder a b).getD .lt)) :: s)
  | dcmpg, .double b :: .double a :: s =>
    some (.int (ofOrdering ((p.doubleOrder a b).getD .gt)) :: s)
  | compare, .int b :: .int a :: s => some (.int (p.intCompare a b) :: s)
  | compareUnsigned, .int b :: .int a :: s => some (.int (p.intCompareUnsigned a b) :: s)
  | longCompareUnsigned, .long b :: .long a :: s => some (.int (p.longCompareUnsigned a b) :: s)
  | signum, .int a :: s => some (.int (ofOrdering (sign a)) :: s)
  | pop, v :: s => if v.width = .single then some s else none
  | pop2, s => s.topTwo?.map Prod.snd
  | dupX1, v :: w :: s => if v.width = .single ∧ w.width = .single then some (v :: w :: v :: s) else none
  | dup2X2, s => do
    let (top, s) ← s.topTwo?
    let (next, s) ← s.topTwo?
    return top ++ next ++ top ++ s
  | _, _ => none

/-- Performs instructions in order, up to one that gets stuck. -/
def execAll (p : Platform) (is : List Instr) (s : Stack p) : Option (Stack p) :=
  is.foldlM (fun s i => i.exec p s) s

theorem execAll_append (p : Platform) (is is' : List Instr) (s : Stack p) :
    execAll p (is ++ is') s = (execAll p is s).bind (execAll p is') := List.foldlM_append

end Instr

/-! ## Jumps -/

/-- The comparison with zero that decides a jump. -/
def zeroTest? : String → Option Compare
  | "ifeq" => some .eq
  | "ifne" => some .ne
  | "iflt" => some .lt
  | "ifge" => some .ge
  | "ifgt" => some .gt
  | "ifle" => some .le
  | _ => none

/-- The comparison of two integers that decides a jump. -/
def intTest? : String → Option Compare
  | "if_icmpeq" => some .eq
  | "if_icmpne" => some .ne
  | "if_icmplt" => some .lt
  | "if_icmpge" => some .ge
  | "if_icmpgt" => some .gt
  | "if_icmple" => some .le
  | _ => none

theorem zeroTest?_zeroJump (c : Compare) : zeroTest? (Jvm.zeroJump c) = some c := by
  cases c <;> rfl

theorem zeroTest?_intJump (c : Compare) : zeroTest? (Jvm.intJump c) = none := by
  cases c <;> rfl

theorem intTest?_intJump (c : Compare) : intTest? (Jvm.intJump c) = some c := by
  cases c <;> rfl

namespace Platform

/-- A jump that is on its way to its label, if there is one, and the stack. -/
structure State (p : Platform) where
  pending : Option LabelRef
  stack : Stack p

variable (p : Platform)

/-- Performs a conditional jump. -/
def jump (opcode : String) (target : LabelRef) (s : Stack p) : Option p.State :=
  match zeroTest? opcode with
  | some c =>
    match s with
    | .int r :: s => some ⟨if c.holds (sign r) then some target else none, s⟩
    | _ => none
  | none =>
    match intTest? opcode, s with
    | some c, .int b :: .int a :: s =>
      some ⟨if c.holds (ordering a.toInt b.toInt) then some target else none, s⟩
    | _, _ => none

/-- Performs a primitive, or passes over it while a jump is pending. -/
def step (state : p.State) (primitive : Primitive) : Option p.State :=
  match state.pending, primitive with
  | some target, .label l => some (if l = target then { state with pending := none } else state)
  | some _, _ => some state
  | none, .label _ => some state
  | none, .jump opcode target => p.jump opcode target state.stack
  | none, primitive => do
    let i ← Instr.decode? primitive
    let s ← i.exec p state.stack
    return ⟨none, s⟩

/-- Performs primitives in order, up to one that gets stuck. -/
def run (code : List Primitive) (state : p.State) : Option p.State := code.foldlM p.step state

variable {p}

theorem run_append (code code' : List Primitive) (state : p.State) :
    p.run (code ++ code') state = (p.run code state).bind (p.run code') := List.foldlM_append

/-- What instructions do to the stack, their primitives do. -/
theorem run_instrs {is : List Instr} {s s' : Stack p} (h : Instr.execAll p is s = some s') :
    p.run (is.map Instr.primitive) ⟨none, s⟩ = some ⟨none, s'⟩ := by
  induction is generalizing s with
  | nil =>
    cases h
    rfl
  | cons i is ih =>
    obtain ⟨s₁, hi, his⟩ := Option.bind_eq_some_iff.mp h
    dsimp only at hi
    have hstep : p.step ⟨none, s⟩ i.primitive = some ⟨none, s₁⟩ := by
      show (Instr.decode? i.primitive).bind
        (fun i => (i.exec p s).bind fun s => some (State.mk none s)) = _
      rw [Instr.decode?_primitive, Option.bind_some, hi, Option.bind_some]
    exact (congrArg (·.bind (p.run (is.map Instr.primitive))) hstep).trans (ih his)

theorem jump_zeroJump (c : Compare) (target : LabelRef) (r : BitVec 32) (s : Stack p) :
    p.jump (Jvm.zeroJump c) target (.int r :: s) =
      some ⟨if c.holds (sign r) then some target else none, s⟩ := by
  simp only [jump, zeroTest?_zeroJump]

theorem jump_intJump (c : Compare) (target : LabelRef) (a b : BitVec 32) (s : Stack p) :
    p.jump (Jvm.intJump c) target (.int b :: .int a :: s) =
      some ⟨if c.holds (ordering a.toInt b.toInt) then some target else none, s⟩ := by
  simp only [jump, zeroTest?_intJump, intTest?_intJump]

end Platform

end Lowering
