-- SUMMARY: Integer literals are read exactly, also in words of 64 bits, where nothing wraps around.
import Lowering.Proofs.IntegerLiterals

/-!
# Integer literals in words

Literals can be read in words of 64 bits: digits are gathered with checked products and sums, and the sign
is put on by a negation that wraps around. The checks refuse just the magnitudes from 2^64 on, and the
negation meets no word that it would wrap, except 2^63, whose negation is the least integer. So reading in
words gives what reading in unbounded numbers gives, which is what the grammar says.
-/

namespace Lowering.Literal

/-! ## Magnitudes -/

/-- Reads digits after a word already read, unless a product or a sum does not fit in a word. -/
def wordFrom? (radix : Nat) : BitVec 64 → List Char → Option (BitVec 64)
  | w, [] => some w
  | w, c :: cs =>
    match digit? radix c with
    | some d =>
      let product := w * BitVec.ofNat 64 radix
      if w.umulOverflow (.ofNat 64 radix) || product.uaddOverflow (.ofNat 64 d) then none
      else wordFrom? radix (product + .ofNat 64 d) cs
    | none => none

/-- Reads the sign and the magnitude of a literal. -/
def wordMagnitude? (s : String) : Option (Bool × BitVec 64) :=
  let (negative, unsigned) := splitSign s.toList
  let (radix, digits) := splitRadix unsigned
  if digits.isEmpty then none else (wordFrom? radix 0 digits).map fun w => (negative, w)

/-- Puts the sign on a magnitude, unless it is out of range. -/
def signedWord? (m : Bool × BitVec 64) : Option (BitVec 64) :=
  if m.1 then if m.2 ≤ 0x8000000000000000 then some (-m.2) else none
  else if m.2 ≤ 0x7fffffffffffffff then some m.2 else none

/-- More digits do not make a number smaller. -/
theorem le_of_digitsFrom? {radix value n : Nat} (hradix : 0 < radix) {cs : List Char}
    (h : digitsFrom? radix value cs = some n) : value ≤ n := by
  induction cs generalizing value with
  | nil =>
    cases h
    exact Nat.le_refl _
  | cons c cs ih =>
    rw [digitsFrom?] at h
    split at h
    · rename_i d hd
      have hmore := ih h
      have hshifted := Nat.le_mul_of_pos_right value hradix
      omega
    · cases h

section Digit

variable {radix d : Nat} (hradix : radix ≤ 16) (hd : d < radix) (w : BitVec 64)
include hradix hd

/-- A digit is refused just if the number with it does not fit. -/
theorem overflow_iff :
    (w.umulOverflow (.ofNat 64 radix) || (w * BitVec.ofNat 64 radix).uaddOverflow (.ofNat 64 d)) = true ↔
      0x10000000000000000 ≤ w.toNat * radix + d := by
  have hproduct : w.umulOverflow (.ofNat 64 radix) =
      decide (0x10000000000000000 ≤ w.toNat * (radix % 0x10000000000000000)) := rfl
  have hsum : (w * BitVec.ofNat 64 radix).uaddOverflow (.ofNat 64 d) =
      decide (0x10000000000000000 ≤ w.toNat * (radix % 0x10000000000000000) % 0x10000000000000000 +
        d % 0x10000000000000000) := rfl
  rw [hproduct, hsum, Bool.or_eq_true, decide_eq_true_eq, decide_eq_true_eq,
    @Nat.mod_eq_of_lt radix _ (by omega)]
  omega

theorem toNat_word (h : w.toNat * radix + d < 0x10000000000000000) :
    (w * BitVec.ofNat 64 radix + .ofNat 64 d).toNat = w.toNat * radix + d := by
  rw [BitVec.toNat_add, BitVec.toNat_mul, BitVec.toNat_ofNat, BitVec.toNat_ofNat,
    @Nat.mod_eq_of_lt radix _ (by omega)]
  omega

end Digit

/-- Digits are read in words as far as their number fits. -/
theorem wordFrom?_eq {radix : Nat} (hradix : 0 < radix ∧ radix ≤ 16) (w : BitVec 64) (cs : List Char) :
    (wordFrom? radix w cs).map BitVec.toNat =
      (digitsFrom? radix w.toNat cs).filter (· < 0x10000000000000000) := by
  induction cs generalizing w with
  | nil =>
    have hw : w.toNat < 0x10000000000000000 := w.isLt
    simp [wordFrom?, digitsFrom?, Option.filter, hw]
  | cons c cs ih =>
    rw [wordFrom?, digitsFrom?]
    cases hdigit : digit? radix c with
    | none => rfl
    | some d =>
      have hd : d < radix := ((digit?_eq_some_iff hradix.2).mp hdigit).1
      by_cases hfits : w.toNat * radix + d < 0x10000000000000000
      · have hpasses := mt (overflow_iff hradix.2 hd w).mp (Nat.not_le.mpr hfits)
        simp only [if_neg hpasses]
        rw [ih, toNat_word hradix.2 hd w hfits]
      · have hrefused := (overflow_iff hradix.2 hd w).mpr (Nat.not_lt.mp hfits)
        simp only [if_pos hrefused]
        symm
        rw [Option.map_none, Option.filter_eq_none_iff]
        intro n hn
        have hmore := le_of_digitsFrom? hradix.1 hn
        rw [decide_eq_true_eq]
        omega

theorem splitRadix_bounds (cs : List Char) : 0 < (splitRadix cs).1 ∧ (splitRadix cs).1 ≤ 16 := by
  rcases splitRadix_cases cs with ⟨x, rest, -, -, heq⟩ | heq
  · rw [heq]
    omega
  · rw [heq]
    omega

/-- A magnitude is read in words as it is in unbounded numbers. -/
theorem magnitude?_eq_words (s : String) :
    magnitude? s = (wordMagnitude? s).map fun m => ⟨m.1, m.2.toNat⟩ := by
  obtain ⟨negative, unsigned, hsign⟩ : ∃ negative unsigned, splitSign s.toList = (negative, unsigned) :=
    ⟨_, _, rfl⟩
  obtain ⟨radix, digits, hradix⟩ : ∃ radix digits, splitRadix unsigned = (radix, digits) := ⟨_, _, rfl⟩
  have hbounds := splitRadix_bounds unsigned
  rw [hradix] at hbounds
  simp only [magnitude?, wordMagnitude?, hsign, hradix]
  cases digits with
  | nil => rfl
  | cons c cs =>
    have hwords : (wordFrom? radix 0 (c :: cs)).map BitVec.toNat =
        (digitsFrom? radix 0 (c :: cs)).filter (· < 0x10000000000000000) := wordFrom?_eq hbounds 0 _
    rw [digits?_eq (List.cons_ne_nil c cs), List.isEmpty_cons, if_neg Bool.false_ne_true]
    cases hnumber : digitsFrom? radix 0 (c :: cs) with
    | none =>
      rw [hnumber, Option.filter_none, Option.map_eq_none_iff] at hwords
      rw [hwords]
      rfl
    | some n =>
      rw [hnumber, Option.filter_some] at hwords
      by_cases hn : n < 0x10000000000000000
      · rw [if_pos (decide_eq_true hn)] at hwords
        obtain ⟨w, hw, rfl⟩ := Option.map_eq_some_iff.mp hwords
        simp only [hw, if_pos hn]
        rfl
      · rw [if_neg (by simpa using hn), Option.map_eq_none_iff] at hwords
        simp only [hwords, if_neg hn]
        rfl

/-! ## Signs -/

theorem toInt_of_small {w : BitVec 64} (h : w.toNat ≤ 0x7fffffffffffffff) : w.toInt = w.toNat := by
  rw [BitVec.toInt_eq_toNat_of_lt]
  omega

/-- The negation of a magnitude up to 2^63 does not wrap around. -/
theorem toInt_neg_word {w : BitVec 64} (h : w.toNat ≤ 0x8000000000000000) :
    (-w).toInt = -(w.toNat : Int) := by
  rw [BitVec.toInt_eq_toNat_cond, BitVec.toNat_neg]
  omega

theorem signedWord?_eq (m : Bool × BitVec 64) :
    (signedWord? m).map BitVec.toInt =
      let v := Magnitude.toInt ⟨m.1, m.2.toNat⟩
      if -0x8000000000000000 ≤ v ∧ v < 0x8000000000000000 then some v else none := by
  obtain ⟨negative, w⟩ := m
  cases negative with
  | true =>
    have hrange : w ≤ 0x8000000000000000 ↔ w.toNat ≤ 0x8000000000000000 := BitVec.le_def
    simp only [signedWord?, Magnitude.toInt, if_true, hrange]
    split
    · rename_i hw
      rw [if_pos (by omega), Option.map_some, toInt_neg_word hw]
    · rw [if_neg (by omega)]
      rfl
  | false =>
    have hrange : w ≤ 0x7fffffffffffffff ↔ w.toNat ≤ 0x7fffffffffffffff := BitVec.le_def
    simp only [signedWord?, Magnitude.toInt, hrange, Bool.false_eq_true, if_false]
    split
    · rename_i hw
      rw [if_pos (by omega), Option.map_some, toInt_of_small hw]
    · rw [if_neg (by omega)]
      rfl

/-- An integer is read in words as it is in unbounded numbers. -/
theorem int?_eq_words (s : String) :
    int? s = ((wordMagnitude? s).bind signedWord?).map BitVec.toInt := by
  rw [int?, magnitude?_eq_words]
  cases wordMagnitude? s with
  | none => rfl
  | some m => exact (signedWord?_eq m).symm

/-! ## Hexadecimal texts -/

/-- The integer in hexadecimal, as a sign, `0x` and the digits of its magnitude. -/
def hexText (v : Int) : String :=
  String.ofList ((if v < 0 then ['-'] else []) ++ '0' :: 'x' :: Nat.toDigits 16 v.natAbs)

theorem denotes_hexText (v : Int) : Denotes (hexText v) v := by
  have hdigits : Unsigned ('0' :: 'x' :: Nat.toDigits 16 v.natAbs) v.natAbs :=
    .hexadecimal (.inl rfl) (digits_toDigits (by decide) (by decide) _)
  rw [Denotes, hexText, String.toList_ofList]
  split
  · refine ⟨⟨true, v.natAbs⟩, .minus hdigits, ?_⟩
    simp only [Magnitude.toInt, if_true]
    omega
  · refine ⟨⟨false, v.natAbs⟩, .plain hdigits, ?_⟩
    simp only [Magnitude.toInt, Bool.false_eq_true, if_false]
    omega

/-! ## Literals -/

/-- Literals are read with their sign and magnitude if that is below 2^64, and as integers if these are in
the signed range of 64 bits. No other text is read, words give the same as unbounded numbers, and every
integer of 64 bits is read back from its decimal and its hexadecimal text. -/
theorem integers_read_exactly :
    (∀ s m, magnitude? s = some m ↔ Signed s.toList m ∧ m.value < 0x10000000000000000) ∧
    (∀ s v, int? s = some v ↔ Denotes s v ∧ -0x8000000000000000 ≤ v ∧ v ≤ 0x7fffffffffffffff) ∧
    (∀ s, magnitude? s = (wordMagnitude? s).map fun m => ⟨m.1, m.2.toNat⟩) ∧
    (∀ s, int? s = ((wordMagnitude? s).bind signedWord?).map BitVec.toInt) ∧
    ∀ b : BitVec 64, int? (toString b.toInt) = some b.toInt ∧ int? (hexText b.toInt) = some b.toInt := by
  refine ⟨fun s m => magnitude?_eq_some_iff, fun s v => ?_, magnitude?_eq_words, int?_eq_words, fun b => ?_⟩
  · rw [int?_eq_some_iff]
    refine and_congr_right fun _ => ?_
    omega
  · have hrange : -0x8000000000000000 ≤ b.toInt ∧ b.toInt < 0x8000000000000000 := ⟨b.le_toInt, b.toInt_lt⟩
    exact ⟨int?_eq_some_iff.mpr ⟨denotes_toString _, hrange⟩,
      int?_eq_some_iff.mpr ⟨denotes_hexText _, hrange⟩⟩

end Lowering.Literal
