-- SUMMARY: Loads of integers accept the literals in range, and push their value in the shortest form.
import Lowering.Jvm.Constant
import Lowering.Proofs.IntegerLiterals

/-!
# Loads of integers

The instruction that loads an integer is chosen by the value of the literal as a signed integer. What such an
instruction pushes is described for itself, with the sign extension of short operands. The value pushed is
congruent to the one that the literal denotes, so unsigned literals are loaded with the same bits.
-/

namespace Lowering.Jvm

open Literal

/-! ## Values and forms -/

/-- An integer on the operand stack. -/
inductive StackInteger where
  | int (v : BitVec 32)
  | long (v : BitVec 64)

/-- The integers that have an instruction of their own. -/
def intConstants : List (Int × String) :=
  [(-1, "iconst_m1"), (0, "iconst_0"), (1, "iconst_1"), (2, "iconst_2"), (3, "iconst_3"), (4, "iconst_4"),
   (5, "iconst_5")]

def longConstants : List (Int × String) := [(0, "lconst_0"), (1, "lconst_1")]

/-- What an instruction pushes that loads an integer. A byte or a short is extended by its sign. -/
inductive Pushes : FixedInstruction → StackInteger → Prop
  | iconst {w : Int} {opcode : String} (h : (w, opcode) ∈ intConstants) :
      Pushes ⟨opcode, none⟩ (.int (.ofInt 32 w))
  | bipush {s : String} {b : BitVec 8} (h : Denotes s b.toInt) :
      Pushes ⟨"bipush", some s⟩ (.int (b.signExtend 32))
  | sipush {s : String} {b : BitVec 16} (h : Denotes s b.toInt) :
      Pushes ⟨"sipush", some s⟩ (.int (b.signExtend 32))
  | ldc {s : String} {b : BitVec 32} (h : Denotes s b.toInt) : Pushes ⟨"ldc", some s⟩ (.int b)
  | lconst {w : Int} {opcode : String} (h : (w, opcode) ∈ longConstants) :
      Pushes ⟨opcode, none⟩ (.long (.ofInt 64 w))
  | ldc2_w {s : String} {b : BitVec 64} (h : Denotes s b.toInt) :
      Pushes ⟨"ldc2_w", some (s ++ "L")⟩ (.long b)

/-- The instruction has the shortest form for a 32-bit integer, which its operand is read as. -/
inductive IntForm (w : Int) : FixedInstruction → Prop
  | iconst {opcode : String} (h : (w, opcode) ∈ intConstants) : IntForm w ⟨opcode, none⟩
  | bipush (hlong : ¬(-1 ≤ w ∧ w ≤ 5)) (h : -128 ≤ w ∧ w ≤ 127) (hread : int? (toString w) = some w) :
      IntForm w ⟨"bipush", some (toString w)⟩
  | sipush (hlong : ¬(-128 ≤ w ∧ w ≤ 127)) (h : -32768 ≤ w ∧ w ≤ 32767)
      (hread : int? (toString w) = some w) : IntForm w ⟨"sipush", some (toString w)⟩
  | ldc (hlong : ¬(-32768 ≤ w ∧ w ≤ 32767)) (hread : int? (toString w) = some w) :
      IntForm w ⟨"ldc", some (toString w)⟩

/-- The instruction has the shortest form for a 64-bit integer, which its operand is read as, without the
mark. -/
inductive LongForm (w : Int) : FixedInstruction → Prop
  | lconst {opcode : String} (h : (w, opcode) ∈ longConstants) : LongForm w ⟨opcode, none⟩
  | ldc2_w (hlong : ¬(0 ≤ w ∧ w ≤ 1)) (hread : int? (toString w) = some w) :
      LongForm w ⟨"ldc2_w", some (toString w ++ "L")⟩

/-- The second text is the first one, up to one mark of 64-bit integers at its end. -/
def Unmarked (t t' : String) : Prop := t = t' ∨ t = t' ++ "L" ∨ t = t' ++ "l"

/-! ## Instructions -/

theorem int?_toString {w : Int} (h : -0x8000000000000000 ≤ w ∧ w < 0x8000000000000000) :
    int? (toString w) = some w :=
  int?_eq_some_iff.mpr ⟨denotes_toString w, h⟩

theorem intLoad_form {w : Int} (hread : int? (toString w) = some w) : IntForm w (intLoad w) := by
  unfold intLoad
  iterate 7
    split
    · rename_i hw
      subst hw
      exact .iconst (by decide)
  split
  · rename_i hbyte
    exact .bipush (by omega) hbyte hread
  · rename_i hbyte
    split
    · rename_i hshort
      exact .sipush hbyte hshort hread
    · rename_i hshort
      exact .ldc hshort hread

theorem longLoad_form {w : Int} (hread : int? (toString w) = some w) : LongForm w (longLoad w) := by
  unfold longLoad
  iterate 2
    split
    · rename_i hw
      subst hw
      exact .lconst (by decide)
  exact .ldc2_w (by omega) hread

/-- A value that fits in fewer bits is the extension of these bits by their sign. -/
theorem signExtend_ofInt {n : Nat} {b : BitVec 32} (h : (BitVec.ofInt n b.toInt).toInt = b.toInt) :
    (BitVec.ofInt n b.toInt).signExtend 32 = b :=
  (congrArg (BitVec.ofInt 32) h).trans BitVec.ofInt_toInt

theorem IntForm.pushes {b : BitVec 32} {i : FixedInstruction} (h : IntForm b.toInt i) :
    Pushes i (.int b) := by
  cases h with
  | iconst h =>
    have hpushes := Pushes.iconst h
    rwa [BitVec.ofInt_toInt] at hpushes
  | bipush hlong h hread =>
    have hvalue : (BitVec.ofInt 8 b.toInt).toInt = b.toInt :=
      BitVec.toInt_ofInt_eq_self (by decide) h.1 (Int.lt_add_one_of_le h.2)
    have hdenotes : Denotes (toString b.toInt) (BitVec.ofInt 8 b.toInt).toInt := by
      rw [hvalue]
      exact denotes_toString b.toInt
    have hpushes := Pushes.bipush hdenotes
    rwa [signExtend_ofInt hvalue] at hpushes
  | sipush hlong h hread =>
    have hvalue : (BitVec.ofInt 16 b.toInt).toInt = b.toInt :=
      BitVec.toInt_ofInt_eq_self (by decide) h.1 (Int.lt_add_one_of_le h.2)
    have hdenotes : Denotes (toString b.toInt) (BitVec.ofInt 16 b.toInt).toInt := by
      rw [hvalue]
      exact denotes_toString b.toInt
    have hpushes := Pushes.sipush hdenotes
    rwa [signExtend_ofInt hvalue] at hpushes
  | ldc hlong hread => exact .ldc (denotes_toString b.toInt)

theorem LongForm.pushes {b : BitVec 64} {i : FixedInstruction} (h : LongForm b.toInt i) :
    Pushes i (.long b) := by
  cases h with
  | lconst h =>
    have hpushes := Pushes.lconst h
    rwa [BitVec.ofInt_toInt] at hpushes
  | ldc2_w hlong hread => exact .ldc2_w (denotes_toString b.toInt)

/-- The load of a 32-bit value pushes it, in the shortest form. -/
theorem intLoad_loads (b : BitVec 32) :
    Pushes (intLoad b.toInt) (.int b) ∧ IntForm b.toInt (intLoad b.toInt) := by
  have hleast : -0x80000000 ≤ b.toInt := b.le_toInt
  have hgreatest : b.toInt < 0x80000000 := b.toInt_lt
  have hform := intLoad_form (@int?_toString b.toInt (by omega))
  exact ⟨hform.pushes, hform⟩

/-- The load of a 64-bit value pushes it, in the shortest form. -/
theorem longLoad_loads (b : BitVec 64) :
    Pushes (longLoad b.toInt) (.long b) ∧ LongForm b.toInt (longLoad b.toInt) := by
  have hform := longLoad_form (int?_toString ⟨b.le_toInt, b.toInt_lt⟩)
  exact ⟨hform.pushes, hform⟩

/-! ## Accepted literals -/

theorem loadInt_eq_ok_iff {t : String} {i : FixedInstruction} :
    loadInt t = .ok i ↔ ∃ v, Denotes t v ∧ (-0x80000000 ≤ v ∧ v ≤ 0xffffffff) ∧
      i = intLoad (BitVec.ofInt 32 v).toInt := by
  have hwrap : ∀ v, (BitVec.ofInt 32 v).toInt = v.bmod 0x100000000 := BitVec.toInt_ofInt
  unfold loadInt
  constructor
  · intro h
    split at h
    · cases h
    · rename_i v hv
      split at h
      · rename_i hrange
        cases h
        exact ⟨v, (int?_eq_some_iff.mp hv).1, by omega, by rw [hwrap]⟩
      · cases h
  · rintro ⟨v, hdenotes, hrange, rfl⟩
    have hv := int?_eq_some_iff.mpr ⟨hdenotes, by omega⟩
    have hwithin : -0x80000000 ≤ v ∧ v < 0x100000000 := by omega
    simp only [hv, if_pos hwithin, hwrap]

theorem toInt_le_value (m : Magnitude) : m.toInt ≤ m.value := by
  unfold Magnitude.toInt
  split <;> omega

theorem loadLong_eq_ok_iff {unsigned : Bool} {t : String} {i : FixedInstruction} :
    loadLong unsigned t = .ok i ↔ ∃ v, Denotes (withoutLongMark t) v ∧
      (-0x8000000000000000 ≤ v ∧ v ≤ if unsigned then 0xffffffffffffffff else 0x7fffffffffffffff) ∧
        i = longLoad (BitVec.ofInt 64 v).toInt := by
  have hwrap : ∀ v, (BitVec.ofInt 64 v).toInt = v.bmod 0x10000000000000000 := BitVec.toInt_ofInt
  unfold loadLong
  constructor
  · intro h
    split at h
    · cases h
    · rename_i m hm
      split at h
      · cases h
      · split at h
        · rename_i hleast hgreatest
          cases h
          have hvalue := (magnitude?_eq_some_iff.mp hm).2
          have hle := toInt_le_value m
          refine ⟨m.toInt, denotes_of_magnitude? hm, ⟨by omega, ?_⟩, by rw [hwrap]⟩
          cases unsigned with
          | true =>
            show m.toInt ≤ 0xffffffffffffffff
            omega
          | false =>
            have hsigned : m.toInt < 0x8000000000000000 := by simpa using hgreatest
            show m.toInt ≤ 0x7fffffffffffffff
            omega
        · cases h
  · rintro ⟨v, hdenotes, ⟨hleast, hgreatest⟩, rfl⟩
    have hfits : v < 0x8000000000000000 ∨ unsigned = true := by
      cases unsigned with
      | true => exact .inr rfl
      | false => exact .inl (Int.lt_add_one_of_le hgreatest)
    have hbound : v < 0x10000000000000000 := by
      cases unsigned with
      | true => exact Int.lt_add_one_of_le hgreatest
      | false => exact Int.lt_of_le_of_lt hgreatest (by decide)
    obtain ⟨m, hm, rfl⟩ := magnitude?_of_denotes hdenotes ⟨by omega, hbound⟩
    have hwithin : ¬m.toInt < -0x8000000000000000 := by omega
    simp only [hm, if_neg hwithin, if_pos hfits, hwrap]

/-! ## Marks -/

/-- No mark is part of a literal. -/
theorem notMem_of_signed {cs : List Char} {m : Magnitude} (h : Signed cs m) {c : Char}
    (hc : c = 'L' ∨ c = 'l') : c ∉ cs := by
  have hunsigned : ∀ {cs : List Char} {n : Nat}, Unsigned cs n → c ∉ cs := by
    intro cs n hcs hmem
    have hchar := hcs.mem hmem
    rcases hc with rfl | rfl
    · exact absurd hchar (by decide)
    · exact absurd hchar (by decide)
  cases h with
  | plain h => exact hunsigned h
  | plus h | minus h =>
    rw [List.mem_cons, not_or]
    exact ⟨by rcases hc with rfl | rfl <;> decide, hunsigned h⟩

theorem dropLast?_eq_some_iff {p : Char → Bool} {cs rest : List Char} :
    Text.dropLast? p cs = some rest ↔ ∃ c, p c = true ∧ cs = rest ++ [c] := by
  rcases List.eq_nil_or_concat cs with rfl | ⟨front, c, rfl⟩
  · simp [Text.dropLast?]
  · rw [List.concat_eq_append]
    simp only [Text.dropLast?, List.getLast?_concat, List.dropLast_concat, Option.ite_none_right_eq_some,
      Option.some.injEq]
    constructor
    · rintro ⟨hc, rfl⟩
      exact ⟨c, hc, rfl⟩
    · rintro ⟨d, hd, heq⟩
      obtain ⟨rfl, hlast⟩ := List.append_inj' heq rfl
      cases hlast
      exact ⟨hd, rfl⟩

theorem unmarked_withoutLongMark (t : String) : Unmarked t (withoutLongMark t) := by
  unfold withoutLongMark
  split
  · rename_i cs hcs
    obtain ⟨c, hc, heq⟩ := dropLast?_eq_some_iff.mp hcs
    rw [Bool.or_eq_true, decide_eq_true_eq, decide_eq_true_eq] at hc
    rcases hc with rfl | rfl
    · exact .inr (.inl (String.toList_inj.mp (by simp [heq])))
    · exact .inr (.inr (String.toList_inj.mp (by simp [heq])))
  · exact .inl rfl

/-- A literal does not end in a mark, so only one text is left when the mark is gone. -/
theorem withoutLongMark_eq {t t' : String} {v : Int} (h : Unmarked t t') (hdenotes : Denotes t' v) :
    withoutLongMark t = t' := by
  obtain ⟨m, hm, -⟩ := hdenotes
  have hmarked : ∀ c, c = 'L' ∨ c = 'l' → t.toList = t'.toList ++ [c] → withoutLongMark t = t' := by
    intro c hc heq
    have hdrop : Text.dropLast? (fun c => c = 'L' || c = 'l') t.toList = some t'.toList :=
      dropLast?_eq_some_iff.mpr ⟨c, by simpa using hc, heq⟩
    simp only [withoutLongMark, hdrop, String.ofList_toList]
  rcases h with rfl | rfl | rfl
  · have hdrop : Text.dropLast? (fun c => c = 'L' || c = 'l') t.toList = none := by
      apply Option.eq_none_iff_forall_ne_some.mpr
      intro rest hrest
      obtain ⟨c, hc, heq⟩ := dropLast?_eq_some_iff.mp hrest
      exact notMem_of_signed hm (by simpa using hc) (heq ▸ List.mem_append_right _ List.mem_cons_self)
    simp only [withoutLongMark, hdrop]
  · exact hmarked 'L' (.inl rfl) (by simp)
  · exact hmarked 'l' (.inr rfl) (by simp)

/-! ## Loads -/

/-- Loads of integers accept the literals in range and no other text. The instruction pushes the value of the
literal, cut to its width, and is the shortest for that value. -/
theorem loadConstant_integers (unsigned : Bool) (t : String) :
    ((∃ i, loadConstant unsigned .i32 t = .ok i) ↔
      ∃ v, Denotes t v ∧ -0x80000000 ≤ v ∧ v ≤ 0xffffffff) ∧
    (∀ i v, loadConstant unsigned .i32 t = .ok i → Denotes t v →
      Pushes i (.int (.ofInt 32 v)) ∧ IntForm (BitVec.ofInt 32 v).toInt i) ∧
    ((∃ i, loadConstant unsigned .i64 t = .ok i) ↔
      ∃ t' v, Unmarked t t' ∧ Denotes t' v ∧ -0x8000000000000000 ≤ v ∧
        v ≤ if unsigned then 0xffffffffffffffff else 0x7fffffffffffffff) ∧
    (∀ i t' v, loadConstant unsigned .i64 t = .ok i → Unmarked t t' → Denotes t' v →
      Pushes i (.long (.ofInt 64 v)) ∧ LongForm (BitVec.ofInt 64 v).toInt i) := by
  refine ⟨⟨?_, ?_⟩, ?_, ⟨?_, ?_⟩, ?_⟩
  · rintro ⟨i, h⟩
    obtain ⟨v, hv, hrange, -⟩ := loadInt_eq_ok_iff.mp h
    exact ⟨v, hv, hrange⟩
  · rintro ⟨v, hv, hrange⟩
    exact ⟨_, loadInt_eq_ok_iff.mpr ⟨v, hv, hrange, rfl⟩⟩
  · intro i v h hv
    obtain ⟨v', hv', -, rfl⟩ := loadInt_eq_ok_iff.mp h
    obtain rfl := hv.unique hv'
    exact intLoad_loads (.ofInt 32 v)
  · rintro ⟨i, h⟩
    obtain ⟨v, hv, hrange, -⟩ := loadLong_eq_ok_iff.mp h
    exact ⟨_, v, unmarked_withoutLongMark t, hv, hrange⟩
  · rintro ⟨t', v, ht, hv, hrange⟩
    obtain rfl := withoutLongMark_eq ht hv
    exact ⟨_, loadLong_eq_ok_iff.mpr ⟨v, hv, hrange, rfl⟩⟩
  · intro i t' v h ht hv
    obtain rfl := withoutLongMark_eq ht hv
    obtain ⟨v', hv', -, rfl⟩ := loadLong_eq_ok_iff.mp h
    obtain rfl := hv.unique hv'
    exact longLoad_loads (.ofInt 64 v)

/-- The greatest unsigned literal of 32 bits is loaded as minus one, or as a long integer from the pool. -/
theorem loadConstant_integers_mask :
    (∃ i, loadConstant false .i32 "0xFFFFFFFF" = .ok i ∧ Pushes i (.int (-1)) ∧ IntForm (-1) i) ∧
      ∃ i, loadConstant false .i64 "0xFFFFFFFF" = .ok i ∧ Pushes i (.long 0xffffffff) ∧
        LongForm 0xffffffff i := by
  have hdenotes : Denotes "0xFFFFFFFF" 0xffffffff :=
    @denotes_of_magnitude? _ ⟨false, 0xffffffff⟩ (by decide +kernel)
  obtain ⟨hint, hpushes, hlong, hpushes'⟩ := loadConstant_integers false "0xFFFFFFFF"
  obtain ⟨i, hi⟩ := hint.mpr ⟨_, hdenotes, by decide⟩
  obtain ⟨j, hj⟩ := hlong.mpr ⟨_, _, .inl rfl, hdenotes, by decide⟩
  exact ⟨⟨i, hi, hpushes i _ hi hdenotes⟩, j, hj, hpushes' j _ _ hj (.inl rfl) hdenotes⟩

end Lowering.Jvm
