-- SUMMARY: The leading part of a hexadecimal literal: sixteen digits in a word, the exact rest, and scaling.
import Mathlib.Algebra.Order.Field.Power
import Mathlib.Data.Nat.Digits.Lemmas
import Mathlib.Data.List.TakeWhile
import Mathlib.Data.Rat.Cast.Order
import Mathlib.Tactic.FieldSimp
import Mathlib.Tactic.Linarith
import Mathlib.Tactic.Positivity
import Mathlib.Tactic.Ring
import Lowering.Proofs.HexadecimalLiterals

/-!
# Leading digits of hexadecimal literals

Zeros at the front of a literal leave the significand as it is, wherever the point stands. From the first
other digit on, sixteen digits fit in the 64 bits of the significand and the further ones are dropped. What
is kept is thus the exact value of the literal, rounded down to a multiple of the place of the last digit
kept, as long as the exponent itself stays within 32 bits.
-/

namespace Lowering.Literal

open Binary

/-! ## Numbers from digits -/

/-- The number that hexadecimal digits denote, the highest digit first. -/
def hexNumber (ds : List Nat) : Nat := Nat.ofDigits 16 ds.reverse

theorem hexNumber_append (ds ds' : List Nat) :
    hexNumber (ds ++ ds') = hexNumber ds * 16 ^ ds'.length + hexNumber ds' := by
  rw [hexNumber, List.reverse_append, Nat.ofDigits_append, List.length_reverse, Nat.add_comm, Nat.mul_comm]
  rfl

theorem hexNumber_concat (ds : List Nat) (d : Nat) : hexNumber (ds ++ [d]) = hexNumber ds * 16 + d := by
  rw [hexNumber_append]
  simp [hexNumber]

theorem hexNumber_lt {ds : List Nat} (h : ∀ d ∈ ds, d < 16) : hexNumber ds < 16 ^ ds.length := by
  have hlt := Nat.ofDigits_lt_base_pow_length (b := 16) (l := ds.reverse) (by decide) (by simpa using h)
  rwa [List.length_reverse] at hlt

theorem le_hexNumber_cons {d : Nat} (hd : d ≠ 0) (ds : List Nat) : 16 ^ ds.length ≤ hexNumber (d :: ds) := by
  have hparts := hexNumber_append [d] ds
  have hfirst : hexNumber [d] = d := by simp [hexNumber]
  rw [List.singleton_append, hfirst] at hparts
  rw [hparts]
  exact Nat.le_add_right_of_le (Nat.le_mul_of_pos_left _ (Nat.pos_of_ne_zero hd))

/-! ## Significant digits -/

/-- The digits from the first one on that is not zero. -/
def significant (ds : List Nat) : List Nat := ds.dropWhile (· = 0)

theorem hexNumber_significant (ds : List Nat) : hexNumber (significant ds) = hexNumber ds := by
  induction ds with
  | nil => rfl
  | cons d ds ih =>
    by_cases hd : d = 0
    · subst hd
      rw [significant, List.dropWhile_cons_of_pos (by simp), hexNumber, hexNumber,
        Nat.ofDigits_reverse_zero_cons]
      exact ih
    · rw [significant, List.dropWhile_cons_of_neg (by simpa using hd)]

/-- The first significant digit is not zero. -/
theorem significant_cases (ds : List Nat) :
    significant ds = [] ∨ ∃ d rest, significant ds = d :: rest ∧ d ≠ 0 := by
  induction ds with
  | nil => exact .inl rfl
  | cons d ds ih =>
    by_cases hd : d = 0
    · rwa [significant, List.dropWhile_cons_of_pos (by simpa using hd)]
    · exact .inr ⟨d, ds, List.dropWhile_cons_of_neg (by simpa using hd), hd⟩

theorem mem_of_mem_significant {ds : List Nat} {d : Nat} (h : d ∈ significant ds) : d ∈ ds :=
  (List.dropWhile_sublist _).mem h

theorem hexNumber_eq_zero_iff {ds : List Nat} : hexNumber ds = 0 ↔ ∀ d ∈ ds, d = 0 := by
  have hnone : significant ds = [] ↔ ∀ d ∈ ds, d = 0 := by simp [significant]
  rw [← hnone, ← hexNumber_significant]
  rcases significant_cases ds with h | ⟨d, rest, h, hd⟩
  · simp [h, hexNumber]
  · have hle := le_hexNumber_cons hd rest
    have hpos := Nat.pow_pos (n := rest.length) (show 0 < 16 by decide)
    rw [h]
    simp only [reduceCtorEq, iff_false]
    omega

theorem significant_append {ds : List Nat} (h : significant ds ≠ []) (ds' : List Nat) :
    significant (ds ++ ds') = significant ds ++ ds' := by
  rw [significant, List.dropWhile_append, if_neg (by simpa [significant] using h)]
  rfl

theorem length_significant_concat (ds : List Nat) (d : Nat) :
    (significant (ds ++ [d])).length ≤ (significant ds).length + 1 := by
  by_cases h : significant ds = []
  · rw [significant, List.dropWhile_append, if_pos (by simpa [significant] using h)]
    exact ((List.dropWhile_sublist _).length_le).trans (Nat.le_add_left _ _)
  · rw [significant_append h, List.length_append]
    exact Nat.le_refl _

/-- Sixteen significant digits fill the significand, fewer of them do not. -/
theorem hexNumber_take_lt_iff {ds : List Nat} (h : ∀ d ∈ ds, d < 16) :
    hexNumber ((significant ds).take 16) < 0x1000000000000000 ↔ (significant ds).length < 16 := by
  constructor
  · intro hlt
    by_contra hlong
    rcases significant_cases ds with hnone | ⟨d, rest, hsome, hd⟩
    · simp [hnone] at hlong
    · rw [hsome, List.length_cons] at hlong
      rw [hsome, List.take_succ_cons] at hlt
      -- Fifteen more digits put the first one, which is not zero, into the highest four bits.
      have hle := le_hexNumber_cons hd (rest.take 15)
      rw [List.length_take, Nat.min_eq_left (by omega)] at hle
      omega
  · intro hshort
    rw [List.take_of_length_le (Nat.le_of_lt hshort)]
    calc hexNumber (significant ds) < 16 ^ (significant ds).length :=
          hexNumber_lt fun d hd => h d (mem_of_mem_significant hd)
      _ ≤ 16 ^ 15 := Nat.pow_le_pow_right (by decide) (Nat.le_of_lt_succ hshort)

/-- A digit after fewer than sixteen significant ones is kept. -/
theorem take_significant_room {ds : List Nat} (h : (significant ds).length < 16) (d : Nat) :
    hexNumber ((significant (ds ++ [d])).take 16) = hexNumber ((significant ds).take 16) * 16 + d ∧
      (significant (ds ++ [d])).length ≤ 16 := by
  have hlength := length_significant_concat ds d
  rw [List.take_of_length_le (by omega), List.take_of_length_le (Nat.le_of_lt h), hexNumber_significant,
    hexNumber_significant, hexNumber_concat]
  exact ⟨rfl, by omega⟩

/-- A digit after sixteen significant ones is dropped. -/
theorem take_significant_full {ds : List Nat} (h : 16 ≤ (significant ds).length) (d : Nat) :
    (significant (ds ++ [d])).take 16 = (significant ds).take 16 ∧
      (significant (ds ++ [d])).length = (significant ds).length + 1 := by
  have hsome : significant ds ≠ [] := List.ne_nil_of_length_pos (by omega)
  rw [significant_append hsome, List.take_append_of_le_length h]
  exact ⟨rfl, by simp⟩

/-! ## The loops over the digits -/

namespace Leading

/-- A digit before the point does not saturate the exponent. -/
def FitsWhole (a : Leading) : Prop := a.hasRoom = false → saturate (a.exponent + 4) = a.exponent + 4

/-- A digit after the point does not saturate the exponent. -/
def FitsFraction (a : Leading) : Prop := a.hasRoom = true → saturate (a.exponent - 4) = a.exponent - 4

instance : DecidablePred FitsWhole := fun _ => inferInstanceAs (Decidable (_ → _))

instance : DecidablePred FitsFraction := fun _ => inferInstanceAs (Decidable (_ → _))

/-- The condition holds before each digit that is pushed. -/
def Along (push : Leading → Nat → Leading) (ok : Leading → Prop) : Leading → List Nat → Prop
  | _, [] => True
  | a, d :: ds => ok a ∧ Along push ok (push a d) ds

instance Along.decidable (push : Leading → Nat → Leading) (ok : Leading → Prop) [DecidablePred ok] :
    ∀ (a : Leading) (ds : List Nat), Decidable (Along push ok a ds)
  | _, [] => inferInstanceAs (Decidable True)
  | a, d :: ds => @instDecidableAnd _ _ _ (Along.decidable push ok (push a d) ds)

/-- The digits have been pushed, the last of them at the place `2 ^ unit`: the first sixteen significant
ones are kept, and the exponent is raised by the places of the others. -/
structure Holds (a : Leading) (unit : Int) (ds : List Nat) : Prop where
  digits : ∀ d ∈ ds, d < 16
  mantissa : a.mantissa = hexNumber ((significant ds).take 16)
  exponent : a.exponent = unit + 4 * ((significant ds).length - 16 : Nat)

variable {a : Leading} {unit : Int} {ds : List Nat} {d : Nat}

theorem holds_nil (x : Int) : Holds ⟨0, x⟩ x [] := ⟨List.forall_mem_nil _, rfl, by simp [significant]⟩

theorem Holds.hasRoom_iff (h : a.Holds unit ds) : a.hasRoom = true ↔ (significant ds).length < 16 := by
  rw [hasRoom, decide_eq_true_eq, h.mantissa, hexNumber_take_lt_iff h.digits]

theorem Holds.digits_concat (h : a.Holds unit ds) (hd : d < 16) : ∀ b ∈ ds ++ [d], b < 16 := by
  simpa [or_imp, forall_and, hd] using h.digits

theorem Holds.exponent_of_room (h : a.Holds unit ds) (hroom : a.hasRoom = true) : a.exponent = unit := by
  have hshort := h.hasRoom_iff.mp hroom
  have hexponent := h.exponent
  omega

/-- Where there is room, a digit is kept at its own place. -/
theorem Holds.keep (h : a.Holds unit ds) (hd : d < 16) (hroom : a.hasRoom = true) (x : Int) :
    Holds ⟨a.mantissa * 16 + d, x⟩ x (ds ++ [d]) := by
  obtain ⟨hkept, hlength⟩ := take_significant_room (h.hasRoom_iff.mp hroom) d
  refine ⟨h.digits_concat hd, ?_, ?_⟩
  · rw [hkept, ← h.mantissa]
  · rw [Nat.sub_eq_zero_of_le hlength]
    simp

/-- Where there is none, a digit is dropped and the last digit kept stands one place higher above it. -/
theorem Holds.leave (h : a.Holds unit ds) (hd : d < 16) (hfull : ¬a.hasRoom = true) (change : Int) :
    Holds ⟨a.mantissa, a.exponent + change⟩ (unit + change - 4) (ds ++ [d]) := by
  have hlong := Nat.le_of_not_lt (mt h.hasRoom_iff.mpr hfull)
  obtain ⟨hkept, hlength⟩ := take_significant_full hlong d
  refine ⟨h.digits_concat hd, ?_, ?_⟩
  · rw [hkept, ← h.mantissa]
  · show a.exponent + change = _
    rw [hlength, h.exponent]
    omega

theorem Holds.pushWhole (h : a.Holds unit ds) (hd : d < 16) (hfits : a.FitsWhole) :
    (a.pushWhole d).Holds unit (ds ++ [d]) := by
  by_cases hroom : a.hasRoom = true
  · rw [Leading.pushWhole, if_pos hroom, h.exponent_of_room hroom]
    exact h.keep hd hroom unit
  · rw [Leading.pushWhole, if_neg hroom, hfits (Bool.eq_false_iff.mpr hroom)]
    simpa using h.leave hd hroom 4

theorem Holds.pushFraction (h : a.Holds unit ds) (hd : d < 16) (hfits : a.FitsFraction) :
    (a.pushFraction d).Holds (unit - 4) (ds ++ [d]) := by
  by_cases hroom : a.hasRoom = true
  · rw [Leading.pushFraction, if_pos hroom, hfits hroom, h.exponent_of_room hroom]
    exact h.keep hd hroom (unit - 4)
  · rw [Leading.pushFraction, if_neg hroom]
    simpa using h.leave hd hroom 0

/-- What one digit preserves, a loop over digits preserves. The place of the last digit changes by the same
amount for each. -/
theorem Holds.foldl {push : Leading → Nat → Leading} {ok : Leading → Prop} (h : a.Holds unit ds) (change : Int)
    (hpush : ∀ {a unit ds d}, Holds a unit ds → d < 16 → ok a → (push a d).Holds (unit + change) (ds ++ [d]))
    {more : List Nat} (hmore : ∀ d ∈ more, d < 16) (halong : Along push ok a more) :
    (more.foldl push a).Holds (unit + change * more.length) (ds ++ more) := by
  induction more generalizing a unit ds with
  | nil => simpa using h
  | cons d more ih =>
    rw [List.forall_mem_cons] at hmore
    have hnext := ih (hpush h hmore.1 halong.1) hmore.2 halong.2
    rw [List.append_assoc, List.singleton_append] at hnext
    rw [List.foldl_cons, List.length_cons]
    have hunit : unit + change * ((more.length + 1 : Nat) : Int) = unit + change + change * more.length := by
      push_cast
      ring
    rwa [hunit]

end Leading

/-! ## Exact magnitudes -/

theorem sixteen_pow (n : Nat) : (16 : ℚ) ^ n = 2 ^ (4 * n : Int) := by
  rw [zpow_mul, zpow_natCast]
  norm_num

namespace HexParts

/-- No sum that the loops form for the exponent leaves 32 bits. -/
def Unsaturated (p : HexParts) : Prop :=
  Leading.Along Leading.pushWhole Leading.FitsWhole ⟨0, p.exponent⟩ p.whole ∧
    Leading.Along Leading.pushFraction Leading.FitsFraction
      (p.whole.foldl Leading.pushWhole ⟨0, p.exponent⟩) p.fraction

instance : DecidablePred Unsaturated := fun _ => inferInstanceAs (Decidable (_ ∧ _))

/-- The significant digits of a literal, wherever its point stands. -/
def significant (p : HexParts) : List Nat := Literal.significant (p.whole ++ p.fraction)

/-- The exact magnitude of a literal. -/
def value (p : HexParts) : ℚ :=
  (hexNumber p.whole + hexNumber p.fraction / 16 ^ p.fraction.length) * 2 ^ p.exponent

variable {p : HexParts}

theorem leading_holds (hwhole : ∀ d ∈ p.whole, d < 16) (hfraction : ∀ d ∈ p.fraction, d < 16)
    (h : p.Unsaturated) :
    p.leading.Holds (p.exponent - 4 * p.fraction.length) (p.whole ++ p.fraction) := by
  have hfront := (Leading.holds_nil p.exponent).foldl 0
    (fun h hd hfits => by simpa using h.pushWhole hd hfits) hwhole h.1
  have hall := hfront.foldl (-4) (fun h hd hfits => h.pushFraction hd hfits) hfraction h.2
  rw [List.nil_append, zero_mul, add_zero, neg_mul, ← sub_eq_add_neg] at hall
  exact hall

/-- As a number of places of the last digit, the magnitude is the number that all digits denote. -/
theorem value_eq (p : HexParts) :
    p.value = hexNumber (p.whole ++ p.fraction) * 2 ^ (p.exponent - 4 * p.fraction.length) := by
  have hplace : (2 : ℚ) ^ p.exponent = 16 ^ p.fraction.length * 2 ^ (p.exponent - 4 * p.fraction.length) := by
    rw [sixteen_pow, ← zpow_add₀ two_ne_zero, add_sub_cancel]
  rw [value, hplace, hexNumber_append]
  push_cast
  field_simp

/-- The magnitude is what is kept and what the dropped digits denote. -/
theorem value_eq_leading (h : p.leading.Holds (p.exponent - 4 * p.fraction.length) (p.whole ++ p.fraction)) :
    p.value = p.leading.mantissa * 2 ^ p.leading.exponent +
      hexNumber (p.significant.drop 16) * 2 ^ (p.exponent - 4 * p.fraction.length) := by
  have hnumber : hexNumber (p.whole ++ p.fraction) =
      p.leading.mantissa * 16 ^ (p.significant.length - 16) + hexNumber (p.significant.drop 16) := by
    rw [h.mantissa, ← hexNumber_significant, ← List.length_drop, ← significant, ← hexNumber_append,
      List.take_append_drop]
  rw [value_eq, hnumber, h.exponent, zpow_add₀ two_ne_zero, ← sixteen_pow, ← significant]
  push_cast
  ring

/-- What is kept is the magnitude rounded down. Nothing is lost just if the dropped digits are zeros. -/
theorem leading_bounds (h : p.leading.Holds (p.exponent - 4 * p.fraction.length) (p.whole ++ p.fraction)) :
    p.leading.mantissa * 2 ^ p.leading.exponent ≤ p.value ∧
      p.value < (p.leading.mantissa + 1) * 2 ^ p.leading.exponent ∧
      (p.leading.mantissa * 2 ^ p.leading.exponent = p.value ↔ ∀ d ∈ p.significant.drop 16, d = 0) := by
  have hunit : (0 : ℚ) < 2 ^ (p.exponent - 4 * p.fraction.length : Int) := by positivity
  have hplace : (2 : ℚ) ^ p.leading.exponent =
      16 ^ (p.significant.drop 16).length * 2 ^ (p.exponent - 4 * p.fraction.length) := by
    rw [h.exponent, zpow_add₀ two_ne_zero, ← sixteen_pow, List.length_drop, significant, mul_comm]
  have hrest : (hexNumber (p.significant.drop 16) : ℚ) < 16 ^ (p.significant.drop 16).length := by
    exact_mod_cast hexNumber_lt fun d hd => h.digits d (mem_of_mem_significant (List.mem_of_mem_drop hd))
  refine ⟨?_, ?_, ?_⟩
  · rw [value_eq_leading h]
    exact le_add_of_nonneg_right (by positivity)
  · rw [value_eq_leading h, add_mul, one_mul, hplace]
    exact add_lt_add_right (mul_lt_mul_of_pos_right hrest hunit) _
  · rw [value_eq_leading h, left_eq_add, mul_eq_zero, or_iff_left hunit.ne', Nat.cast_eq_zero,
      hexNumber_eq_zero_iff]

end HexParts

/-! ## The loops in words -/

/-- The leading part of the digits, in a word of 64 bits from which a shift can lose bits. -/
structure LeadingWord where
  mantissa : BitVec 64
  exponent : Int

namespace LeadingWord

/-- Whether the highest four bits are free. -/
def hasRoom (a : LeadingWord) : Bool := a.mantissa >>> 60 == 0

/-- Shifts a digit in. -/
def shiftIn (w : BitVec 64) (digit : Nat) : BitVec 64 := w <<< 4 ||| BitVec.ofNat 64 digit

/-- One more digit before the point. -/
def pushWhole (a : LeadingWord) (digit : Nat) : LeadingWord :=
  if a.hasRoom then { a with mantissa := shiftIn a.mantissa digit }
  else { a with exponent := saturate (a.exponent + 4) }

/-- One more digit after the point. -/
def pushFraction (a : LeadingWord) (digit : Nat) : LeadingWord :=
  if a.hasRoom then ⟨shiftIn a.mantissa digit, saturate (a.exponent - 4)⟩ else a

/-- The leading part of a literal with these digits before and after the point. -/
def ofDigits (exponent : Int) (whole fraction : List Nat) : LeadingWord :=
  fraction.foldl pushFraction (whole.foldl pushWhole ⟨0, exponent⟩)

/-- The same leading part with an unbounded significand. -/
def toLeading (a : LeadingWord) : Leading := ⟨a.mantissa.toNat, a.exponent⟩

theorem hasRoom_toLeading (a : LeadingWord) : a.toLeading.hasRoom = a.hasRoom := by
  have hshift : (a.mantissa >>> 60).toNat = a.mantissa.toNat / 0x1000000000000000 := by
    rw [BitVec.toNat_ushiftRight, Nat.shiftRight_eq_div_pow]
  have hzero : (0 : BitVec 64).toNat = 0 := rfl
  rw [Bool.eq_iff_iff, Leading.hasRoom, decide_eq_true_eq, hasRoom, beq_iff_eq, ← BitVec.toNat_inj, hshift,
    hzero, Nat.div_eq_zero_iff_lt (by decide)]
  rfl

/-- Where there is room, no bit is shifted out. -/
theorem toNat_shiftIn {a : LeadingWord} (h : a.hasRoom = true) {d : Nat} (hd : d < 16) :
    (shiftIn a.mantissa d).toNat = a.mantissa.toNat * 16 + d := by
  have hroom : a.mantissa.toNat < 0x1000000000000000 := by
    rwa [← hasRoom_toLeading, Leading.hasRoom, decide_eq_true_eq] at h
  have hshift : (a.mantissa <<< 4).toNat = a.mantissa.toNat <<< 4 := by
    rw [BitVec.toNat_shiftLeft, Nat.shiftLeft_eq, Nat.mod_eq_of_lt (by omega)]
  rw [shiftIn, BitVec.toNat_or, hshift, BitVec.toNat_ofNat, Nat.mod_eq_of_lt (by omega),
    ← Nat.shiftLeft_add_eq_or_of_lt hd, Nat.shiftLeft_eq]

theorem toLeading_pushWhole (a : LeadingWord) {d : Nat} (hd : d < 16) :
    (a.pushWhole d).toLeading = a.toLeading.pushWhole d := by
  by_cases hroom : a.hasRoom = true
  · rw [pushWhole, if_pos hroom, Leading.pushWhole, if_pos (a.hasRoom_toLeading.trans hroom), toLeading,
      toNat_shiftIn hroom hd]
    rfl
  · rw [pushWhole, if_neg hroom, Leading.pushWhole, if_neg (by rwa [hasRoom_toLeading])]
    rfl

theorem toLeading_pushFraction (a : LeadingWord) {d : Nat} (hd : d < 16) :
    (a.pushFraction d).toLeading = a.toLeading.pushFraction d := by
  by_cases hroom : a.hasRoom = true
  · rw [pushFraction, if_pos hroom, Leading.pushFraction, if_pos (a.hasRoom_toLeading.trans hroom), toLeading,
      toNat_shiftIn hroom hd]
    rfl
  · rw [pushFraction, if_neg hroom, Leading.pushFraction, if_neg (by rwa [hasRoom_toLeading])]

theorem toLeading_foldl {push : LeadingWord → Nat → LeadingWord} {push' : Leading → Nat → Leading}
    (hpush : ∀ a {d}, d < 16 → (push a d).toLeading = push' a.toLeading d) (a : LeadingWord) {ds : List Nat}
    (hds : ∀ d ∈ ds, d < 16) : (ds.foldl push a).toLeading = ds.foldl push' a.toLeading := by
  induction ds generalizing a with
  | nil => rfl
  | cons d ds ih =>
    rw [List.forall_mem_cons] at hds
    rw [List.foldl_cons, List.foldl_cons, ih _ hds.2, hpush a hds.1]

/-- The loops in a word lose no bit: they gather the same significand as unbounded loops. -/
theorem toLeading_ofDigits (x : Int) {whole fraction : List Nat} (hwhole : ∀ d ∈ whole, d < 16)
    (hfraction : ∀ d ∈ fraction, d < 16) :
    (ofDigits x whole fraction).toLeading = Leading.ofDigits x whole fraction := by
  rw [ofDigits, Leading.ofDigits, toLeading_foldl toLeading_pushFraction _ hfraction,
    toLeading_foldl toLeading_pushWhole _ hwhole]
  rfl

end LeadingWord

/-! ## Scaling -/

/-- A value that no scaling changes: zero, an infinity or not a number. -/
def Settled (v : Value) : Prop := ∀ negative m e, v = .finite negative m e → m = 0

/-- The scaling loop ends after `n` rounds with the value `r`. -/
inductive ScalesIn (fmt : Format) : Nat → Value → Int → Value → Prop
  | stop {v : Value} {x : Int} (h : x = 0 ∨ Settled v) : ScalesIn fmt 0 v x v
  | round {n m : Nat} {negative : Bool} {e x : Int} {r : Value} (hx : x ≠ 0) (hm : m ≠ 0)
      (h : ScalesIn fmt n (fmt.ofScaled negative m (e + scaleStep x)) (x - scaleStep x) r) :
      ScalesIn fmt (n + 1) (.finite negative m e) x r

/-- Every round but the last takes 1000 off the exponent, so the loop ends. -/
theorem scale_ends (fmt : Format) (v : Value) (x : Int) :
    ∃ n ≤ (x.natAbs + 999) / 1000, ScalesIn fmt n v x (scale fmt v x) := by
  fun_induction scale fmt v x with
  | case1 v => exact ⟨0, Nat.zero_le _, .stop (.inl rfl)⟩
  | case2 x hx negative m e ih =>
    obtain ⟨n, hn, hscales⟩ := ih
    refine ⟨n + 1, ?_, .round hx (Nat.succ_ne_zero m) hscales⟩
    -- A round takes off 1000 or all that is left.
    simp only [scaleStep] at hn
    omega
  | case3 x v hx hsettled =>
    refine ⟨0, Nat.zero_le _, .stop (.inr ?_)⟩
    rintro negative (_ | m) e rfl
    · rfl
    · exact absurd rfl (hsettled negative m e)

/-! ## Literals -/

theorem lt_of_digits {cs : List Char} {ds : List Nat} (h : List.Forall₂ (IsDigit 16) cs ds) :
    ∀ d ∈ ds, d < 16 := by
  induction h with
  | nil => exact List.forall_mem_nil _
  | cons hd _ ih => exact List.forall_mem_cons.mpr ⟨hd.1, ih⟩

theorem HexLiteral.digits {cs : List Char} {negative : Bool} {p : HexParts} (h : HexLiteral cs negative p) :
    (∀ d ∈ p.whole, d < 16) ∧ ∀ d ∈ p.fraction, d < 16 := by
  obtain ⟨-, -, hmantissa, -⟩ := h
  -- The digits become variables, so that the form of the mantissa can be split.
  revert hmantissa
  generalize p.whole = whole, p.fraction = fraction
  rintro (⟨hwhole, -⟩ | ⟨hwhole, hfraction, -⟩)
  · exact ⟨lt_of_digits hwhole, List.forall_mem_nil _⟩
  · exact ⟨lt_of_digits hwhole, lt_of_digits hfraction⟩

/-- The texts that are read are the literals. From a literal the loops gather a significand `m` and an
exponent `x` in a word, out of which no bit is shifted, and the value read is `m` rounded and scaled by `x`.
Unless the exponent saturates, `m · 2 ^ x` is the exact magnitude rounded down to a multiple of `2 ^ x`. It is
the magnitude itself if there are at most sixteen significant digits, and else just if the further digits are
zeros. The scaling ends for every exponent. -/
theorem hexFloat?_keeps_leading_digits (s : String) :
    ((hexFloat? s).isSome ↔ ∃ negative p, HexLiteral s.toList negative p) ∧
      (∀ negative p, HexLiteral s.toList negative p →
        hexFloat? s = some
          (scale binary64 (binary64.ofQuotient negative p.leading.mantissa 1) p.leading.exponent) ∧
        (LeadingWord.ofDigits p.exponent p.whole p.fraction).toLeading = p.leading ∧
        p.leading.mantissa < 0x10000000000000000 ∧
        (p.Unsaturated →
          p.leading.mantissa * 2 ^ p.leading.exponent ≤ p.value ∧
          p.value < (p.leading.mantissa + 1) * 2 ^ p.leading.exponent ∧
          (p.significant.length ≤ 16 → p.leading.mantissa * 2 ^ p.leading.exponent = p.value) ∧
          (p.leading.mantissa * 2 ^ p.leading.exponent = p.value ↔ ∀ d ∈ p.significant.drop 16, d = 0))) ∧
      ∀ v x, ∃ n ≤ (x.natAbs + 999) / 1000, ScalesIn binary64 n v x (scale binary64 v x) := by
  refine ⟨?_, fun negative p h => ⟨hexFloat?_eq_some_iff.mpr ⟨negative, p, h, rfl⟩, ?_⟩,
    scale_ends binary64⟩
  · rw [Option.isSome_iff_exists]
    constructor
    · rintro ⟨v, hv⟩
      obtain ⟨negative, p, h, -⟩ := hexFloat?_eq_some_iff.mp hv
      exact ⟨negative, p, h⟩
    · rintro ⟨negative, p, h⟩
      exact ⟨_, hexFloat?_eq_some_iff.mpr ⟨negative, p, h, rfl⟩⟩
  · obtain ⟨hwhole, hfraction⟩ := h.digits
    have hword : (LeadingWord.ofDigits p.exponent p.whole p.fraction).toLeading = p.leading :=
      LeadingWord.toLeading_ofDigits p.exponent hwhole hfraction
    refine ⟨hword, ?_, fun hfits => ?_⟩
    · rw [← hword]
      exact (LeadingWord.ofDigits p.exponent p.whole p.fraction).mantissa.isLt
    · obtain ⟨hle, hlt, hexact⟩ := HexParts.leading_bounds (HexParts.leading_holds hwhole hfraction hfits)
      refine ⟨hle, hlt, fun hshort => hexact.mpr ?_, hexact⟩
      rw [List.drop_of_length_le hshort]
      exact List.forall_mem_nil _

/-- Of twenty significant digits, of which one stands after the point, sixteen are kept and three raise the
exponent. Sixteen digits after two zeros are kept exactly. -/
theorem twentyDigits_hexFloat?_keeps_leading_digits :
    (∃ p, HexLiteral "0x00123456789ABCDEF0123.8p-4".toList false p ∧ p.Unsaturated ∧
      p.leading = ⟨0x123456789ABCDEF0, 8⟩ ∧ (0x123456789ABCDEF0 : Nat) * 2 ^ (8 : Int) ≤ p.value ∧
      p.value < ((0x123456789ABCDEF0 : Nat) + 1) * 2 ^ (8 : Int) ∧
      (0x123456789ABCDEF0 : Nat) * 2 ^ (8 : Int) ≠ p.value) ∧
    ∃ p, HexLiteral "-0X0.0FEDCBA9876543210P+2".toList true p ∧ p.Unsaturated ∧
      p.leading = ⟨0xFEDCBA9876543210, -66⟩ ∧ (0xFEDCBA9876543210 : Nat) * 2 ^ (-66 : Int) = p.value := by
  constructor
  · let p : HexParts := ⟨[0, 0, 1, 2, 3, 4, 5, 6, 7, 8, 9, 10, 11, 12, 13, 14, 15, 0, 1, 2, 3], [8], -4⟩
    have hliteral : HexLiteral "0x00123456789ABCDEF0123.8p-4".toList false p :=
      hexLiteral_iff.mpr ⟨_, _, rfl, rfl, by decide +kernel⟩
    have hfits : p.Unsaturated := by decide +kernel
    have hleading : p.leading = ⟨0x123456789ABCDEF0, 8⟩ := by decide +kernel
    obtain ⟨-, hliterals, -⟩ := hexFloat?_keeps_leading_digits "0x00123456789ABCDEF0123.8p-4"
    obtain ⟨-, -, -, hbounds⟩ := hliterals false p hliteral
    obtain ⟨hle, hlt, -, hexact⟩ := hbounds hfits
    rw [hleading] at hle hlt hexact
    exact ⟨p, hliteral, hfits, hleading, hle, hlt, mt hexact.mp (by decide +kernel)⟩
  · let p : HexParts := ⟨[0], [0, 15, 14, 13, 12, 11, 10, 9, 8, 7, 6, 5, 4, 3, 2, 1, 0], 2⟩
    have hliteral : HexLiteral "-0X0.0FEDCBA9876543210P+2".toList true p :=
      hexLiteral_iff.mpr ⟨_, _, rfl, rfl, by decide +kernel⟩
    have hfits : p.Unsaturated := by decide +kernel
    have hleading : p.leading = ⟨0xFEDCBA9876543210, -66⟩ := by decide +kernel
    obtain ⟨-, hliterals, -⟩ := hexFloat?_keeps_leading_digits "-0X0.0FEDCBA9876543210P+2"
    obtain ⟨-, -, -, hbounds⟩ := hliterals true p hliteral
    obtain ⟨-, -, hexact, -⟩ := hbounds hfits
    rw [hleading] at hexact
    exact ⟨p, hliteral, hfits, hleading, hexact (by decide +kernel)⟩

end Lowering.Literal
