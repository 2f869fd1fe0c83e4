-- SUMMARY: The grammar of hexadecimal floating-point literals, and that their reader accepts just these.
import Mathlib.Data.List.Forall2
import Lowering.Literal.Hexadecimal
import Lowering.Proofs.Descriptors
import Lowering.Proofs.IntegerLiterals

/-!
# Hexadecimal floating-point literals

A literal is described apart from its reader: an optional sign, `0x` or `0X`, digits with at most one point,
and an optional exponent. The reader cuts the text at the first `p` and at the first point. Neither is a
digit, so the parts that it cuts off are those of the description.
-/

namespace Lowering.Literal

open Binary

/-! ## Grammar -/

/-- An optional sign, and whether it is a minus. -/
inductive Sign : List Char → Bool → Prop
  | absent : Sign [] false
  | plus : Sign ['+'] false
  | minus : Sign ['-'] true

/-- A decimal integer with an optional sign. -/
inductive SignedDecimal : List Char → Int → Prop
  | intro {sign digits : List Char} {negative : Bool} {n : Nat} (hsign : Sign sign negative)
      (hdigits : Digits 10 digits n) : SignedDecimal (sign ++ digits) (Magnitude.toInt ⟨negative, n⟩)

/-- The exponent of a literal. It is a 32-bit integer, and zero if it is left out. -/
inductive Exponent : List Char → Int → Prop
  | absent : Exponent [] 0
  | written {cs : List Char} {p : Char} {x : Int} (hp : p = 'p' ∨ p = 'P') (h : SignedDecimal cs x)
      (hrange : -0x80000000 ≤ x ∧ x < 0x80000000) : Exponent (p :: cs) x

/-- The digits of a literal before and after the point. Without a point all of them stand before it. -/
inductive Mantissa : List Char → List Nat → List Nat → Prop
  | integral {cs : List Char} {whole : List Nat} (h : List.Forall₂ (IsDigit 16) cs whole)
      (hsome : cs ≠ []) : Mantissa cs whole []
  | pointed {cs cs' : List Char} {whole fraction : List Nat} (h : List.Forall₂ (IsDigit 16) cs whole)
      (h' : List.Forall₂ (IsDigit 16) cs' fraction) (hsome : cs ≠ [] ∨ cs' ≠ []) :
      Mantissa (cs ++ '.' :: cs') whole fraction

/-- A literal with its sign and its parts. -/
inductive HexLiteral : List Char → Bool → HexParts → Prop
  | intro {sign mantissa exponent : List Char} {x : Char} {negative : Bool} {p : HexParts}
      (hsign : Sign sign negative) (hx : x = 'x' ∨ x = 'X')
      (hmantissa : Mantissa mantissa p.whole p.fraction) (hexponent : Exponent exponent p.exponent) :
      HexLiteral (sign ++ '0' :: x :: (mantissa ++ exponent)) negative p

/-! ## Signs -/

theorem exists_sign (cs : List Char) : ∃ sign, Sign sign (splitSign cs).1 ∧ cs = sign ++ (splitSign cs).2 := by
  rcases splitSign_cases cs with ⟨rest, rfl, heq⟩ | ⟨rest, rfl, heq⟩ | heq
  · exact ⟨['-'], heq ▸ .minus, by simp [heq]⟩
  · exact ⟨['+'], heq ▸ .plus, by simp [heq]⟩
  · exact ⟨[], heq ▸ .absent, by simp [heq]⟩

/-- A sign is taken off if what follows it does not start with a second one. -/
theorem Sign.splitSign_append {sign rest : List Char} {negative : Bool} (h : Sign sign negative)
    (hrest : splitSign rest = (false, rest)) : splitSign (sign ++ rest) = (negative, rest) := by
  cases h with
  | absent => exact hrest
  | plus | minus => rfl

/-! ## Exponents -/

theorem int32?_eq_some_iff {cs : List Char} {x : Int} :
    int32? cs = some x ↔ SignedDecimal cs x ∧ -0x80000000 ≤ x ∧ x < 0x80000000 := by
  constructor
  · intro h
    obtain ⟨sign, hsign, hcs⟩ := exists_sign cs
    unfold int32? at h
    cases hdigits : digits? 10 (splitSign cs).2 with
    | none => simp [hdigits] at h
    | some n =>
      simp only [hdigits, Option.ite_none_right_eq_some, Option.some.injEq] at h
      obtain ⟨hrange, rfl⟩ := h
      rw [digits?_eq_some_iff (by decide)] at hdigits
      have hdecimal := SignedDecimal.intro hsign hdigits
      rw [← hcs] at hdecimal
      exact ⟨hdecimal, hrange⟩
  · rintro ⟨⟨hsign, hdigits⟩, hrange⟩
    have hsplit := hsign.splitSign_append (Unsigned.decimal hdigits).splitSign_eq
    rw [← digits?_eq_some_iff (by decide)] at hdigits
    simp only [int32?, hsplit, hdigits, if_pos hrange]

/-- The exponent starts at the first `p` or `P`. -/
theorem splitExponent?_eq_some_iff {cs digits : List Char} {x : Int} :
    splitExponent? cs = some (digits, x) ↔
      ('p' ∉ digits ∧ 'P' ∉ digits) ∧ ∃ exponent, cs = digits ++ exponent ∧ Exponent exponent x := by
  have hmark (cs : List Char) :
      (∀ c ∈ cs, (decide (c = 'p') || decide (c = 'P')) = false) ↔ 'p' ∉ cs ∧ 'P' ∉ cs := by
    simp only [Bool.or_eq_false_iff, decide_eq_false_iff_not]
    exact ⟨fun h => ⟨fun hp => (h _ hp).1 rfl, fun hp => (h _ hp).2 rfl⟩,
      fun h c hc => ⟨fun heq => h.1 (heq ▸ hc), fun heq => h.2 (heq ▸ hc)⟩⟩
  unfold splitExponent?
  constructor
  · intro h
    split at h
    · rename_i digits' exponent hcut
      obtain ⟨x', hx, heq⟩ := Option.map_eq_some_iff.mp h
      cases heq
      obtain ⟨p, hp, rfl, hdigits⟩ := Text.cutAt?_eq_some hcut
      obtain ⟨hdecimal, hrange⟩ := int32?_eq_some_iff.mp hx
      refine ⟨(hmark _).mp hdigits, p :: exponent, rfl, .written ?_ hdecimal hrange⟩
      simpa using hp
    · rename_i hcut
      cases h
      exact ⟨(hmark _).mp (Text.cutAt?_eq_none_iff.mp hcut), [], by simp, .absent⟩
  · rintro ⟨hdigits, exponent, rfl, hexponent⟩
    rw [← hmark] at hdigits
    cases hexponent with
    | absent =>
      rw [List.append_nil, Text.cutAt?_eq_none_iff.mpr hdigits]
    | @written cs p x hp hdecimal hrange =>
      have hmarked : (decide (p = 'p') || decide (p = 'P')) = true := by simpa using hp
      rw [Text.cutAt?_of_first hmarked hdigits]
      simp [int32?_eq_some_iff.mpr ⟨hdecimal, hrange⟩]

/-! ## Digits -/

theorem mapM_hexDigit?_eq_some_iff {cs : List Char} {ds : List Nat} :
    cs.mapM hexDigit? = some ds ↔ List.Forall₂ (IsDigit 16) cs ds := by
  induction cs generalizing ds with
  | nil => simp [eq_comm]
  | cons c cs ih =>
    simp only [List.mapM_cons, Option.bind_eq_bind, Option.bind_eq_some_iff, Option.pure_def,
      Option.some.injEq, hexDigit?_eq_some_iff, ih, List.forall₂_cons_left_iff]
    constructor
    · rintro ⟨d, hd, ds, hds, rfl⟩
      exact ⟨d, ds, hd, hds, rfl⟩
    · rintro ⟨d, ds, hd, hds, rfl⟩
      exact ⟨d, hd, ds, hds, rfl⟩

/-- A character that is no digit is not among digits. -/
theorem notMem_of_digits {cs : List Char} {ds : List Nat} (h : List.Forall₂ (IsDigit 16) cs ds) {c : Char}
    (hc : c ∉ digitChars) : c ∉ cs := by
  intro hmem
  induction h with
  | nil => cases hmem
  | cons hd _ ih =>
    rcases List.mem_cons.mp hmem with rfl | hmem
    · exact hc hd.mem
    · exact ih hmem

theorem Mantissa.notMem {cs : List Char} {whole fraction : List Nat} (h : Mantissa cs whole fraction)
    {c : Char} (hc : c ∉ '.' :: digitChars) : c ∉ cs := by
  rw [List.mem_cons, not_or] at hc
  cases h with
  | integral hwhole => exact notMem_of_digits hwhole hc.2
  | pointed hwhole hfraction =>
    simp only [List.mem_append, List.mem_cons, not_or]
    exact ⟨notMem_of_digits hwhole hc.2, hc.1, notMem_of_digits hfraction hc.2⟩

/-- The characters before and after the first point, all of them before it if there is none. -/
def splitPoint (cs : List Char) : List Char × List Char := (Text.cutAt? (· = '.') cs).getD (cs, [])

/-- Cut at the first point, the characters are digits on both sides. -/
theorem mantissa_iff {cs : List Char} {whole fraction : List Nat} :
    Mantissa cs whole fraction ↔ ¬((splitPoint cs).1 = [] ∧ (splitPoint cs).2 = []) ∧
      List.Forall₂ (IsDigit 16) (splitPoint cs).1 whole ∧
      List.Forall₂ (IsDigit 16) (splitPoint cs).2 fraction := by
  constructor
  · intro h
    cases h with
    | integral hwhole hsome =>
      have hcut := Text.cutAt?_char_eq_none_iff.mpr (notMem_of_digits hwhole (c := '.') (by decide))
      rw [splitPoint, hcut, Option.getD_none]
      exact ⟨fun h => hsome h.1, hwhole, .nil⟩
    | @pointed before after _ _ hwhole hfraction hsome =>
      have hcut := Text.cutAt?_char_eq_some_iff.mpr
        ⟨@rfl _ (before ++ '.' :: after), notMem_of_digits hwhole (by decide)⟩
      rw [splitPoint, hcut, Option.getD_some]
      exact ⟨fun h => hsome.elim (· h.1) (· h.2), hwhole, hfraction⟩
  · rintro ⟨hsome, hwhole, hfraction⟩
    cases hcut : Text.cutAt? (· = '.') cs with
    | none =>
      rw [splitPoint, hcut, Option.getD_none] at hsome hwhole hfraction
      cases hfraction
      exact .integral hwhole fun h => hsome ⟨h, rfl⟩
    | some cut =>
      rw [splitPoint, hcut, Option.getD_some] at hsome hwhole hfraction
      obtain ⟨rfl, -⟩ := Text.cutAt?_char_eq_some_iff.mp hcut
      exact .pointed hwhole hfraction (not_and_or.mp hsome)

/-! ## Literals -/

/-- What stands before the exponent is read just if it is a mantissa. -/
theorem hexParts?_of_splitExponent? {cs mantissa : List Char} {x : Int} {p : HexParts}
    (h : splitExponent? cs = some (mantissa, x)) :
    hexParts? cs = some p ↔ Mantissa mantissa p.whole p.fraction ∧ p.exponent = x := by
  obtain ⟨whole, fraction, x'⟩ := p
  rw [mantissa_iff, ← mapM_hexDigit?_eq_some_iff, ← mapM_hexDigit?_eq_some_iff]
  simp only [hexParts?, h, ← splitPoint.eq_def, List.isEmpty_iff]
  by_cases hsome : (splitPoint mantissa).1 = [] ∧ (splitPoint mantissa).2 = []
  · simp [hsome]
  · rw [if_neg hsome]
    cases (splitPoint mantissa).1.mapM hexDigit? with
    | none => simp
    | some ds =>
      cases (splitPoint mantissa).2.mapM hexDigit? with
      | none => simp
      | some ds' =>
        simp only [Option.some.injEq, HexParts.mk.injEq, hsome, not_false_eq_true, true_and, and_assoc]
        rw [@eq_comm _ x x']

/-- What follows `0x` is read just if it is a mantissa with an exponent. -/
theorem hexParts?_eq_some_iff {cs : List Char} {p : HexParts} :
    hexParts? cs = some p ↔ ∃ mantissa exponent, cs = mantissa ++ exponent ∧
      Mantissa mantissa p.whole p.fraction ∧ Exponent exponent p.exponent := by
  constructor
  · intro h
    cases hsplit : splitExponent? cs with
    | none => simp [hexParts?, hsplit] at h
    | some parts =>
      obtain ⟨mantissa, x⟩ := parts
      obtain ⟨hmantissa, rfl⟩ := (hexParts?_of_splitExponent? hsplit).mp h
      obtain ⟨-, exponent, rfl, hexponent⟩ := splitExponent?_eq_some_iff.mp hsplit
      exact ⟨mantissa, exponent, rfl, hmantissa, hexponent⟩
  · rintro ⟨mantissa, exponent, rfl, hmantissa, hexponent⟩
    have hsplit := splitExponent?_eq_some_iff.mpr
      ⟨⟨hmantissa.notMem (by decide), hmantissa.notMem (by decide)⟩, exponent, rfl, hexponent⟩
    exact (hexParts?_of_splitExponent? hsplit).mpr ⟨hmantissa, rfl⟩

/-- A text is a literal just if its parts are read after its sign and `0x`. -/
theorem hexLiteral_iff {cs : List Char} {negative : Bool} {p : HexParts} :
    HexLiteral cs negative p ↔ ∃ unsigned digits, splitSign cs = (negative, unsigned) ∧
      splitRadix unsigned = (16, digits) ∧ hexParts? digits = some p := by
  constructor
  · rintro ⟨hsign, hx, hmantissa, hexponent⟩
    refine ⟨_, _, hsign.splitSign_append rfl, ?_, hexParts?_eq_some_iff.mpr ⟨_, _, rfl, hmantissa, hexponent⟩⟩
    rcases hx with rfl | rfl <;> rfl
  · rintro ⟨unsigned, digits, hsplit, hradix, hparts⟩
    obtain ⟨sign, hsign, hcs⟩ := exists_sign cs
    rw [hsplit] at hsign hcs
    obtain ⟨mantissa, exponent, rfl, hmantissa, hexponent⟩ := hexParts?_eq_some_iff.mp hparts
    rcases splitRadix_cases unsigned with ⟨x, rest, hx, rfl, heq⟩ | heq
    · cases hradix.symm.trans heq
      exact hcs ▸ .intro hsign hx hmantissa hexponent
    · cases hradix.symm.trans heq

/-- The leading part of the digits of a literal. -/
def HexParts.leading (p : HexParts) : Leading := Leading.ofDigits p.exponent p.whole p.fraction

/-- A text is read just if it is a literal. The leading part of its digits is rounded and then scaled. -/
theorem hexFloat?_eq_some_iff {s : String} {v : Value} :
    hexFloat? s = some v ↔ ∃ negative p, HexLiteral s.toList negative p ∧
      scale binary64 (binary64.ofQuotient negative p.leading.mantissa 1) p.leading.exponent = v := by
  obtain ⟨negative, unsigned, hsign⟩ : ∃ negative unsigned, splitSign s.toList = (negative, unsigned) :=
    ⟨_, _, rfl⟩
  simp only [hexFloat?, hsign]
  constructor
  · intro h
    split at h
    · rename_i digits hradix
      obtain ⟨p, hparts, rfl⟩ := Option.map_eq_some_iff.mp h
      exact ⟨negative, p, hexLiteral_iff.mpr ⟨unsigned, digits, hsign, hradix, hparts⟩, rfl⟩
    · cases h
  · rintro ⟨negative', p, hliteral, rfl⟩
    obtain ⟨unsigned', digits, hsign', hradix, hparts⟩ := hexLiteral_iff.mp hliteral
    cases hsign.symm.trans hsign'
    simp only [hradix, hparts]
    rfl

end Lowering.Literal
