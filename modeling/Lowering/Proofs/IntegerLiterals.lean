-- SUMMARY: The grammar of integer literals, and that they are read with the value it gives them.
import Mathlib.Data.List.Induction
import Mathlib.Tactic.IntervalCases
import Lowering.Literal.Integer

/-!
# Integer literals

A literal is described apart from its reader: what a digit is, the positional value of digits from the left
on, and the sign. The reader accepts the literals with a magnitude below 2^64, and the value that it gives
is the one described. Integers are printed as literals of themselves.
-/

namespace Lowering.Literal

/-! ## Grammar -/

/-- The character is the digit for `d` in the radix, in either case. -/
def IsDigit (radix : Nat) (c : Char) (d : Nat) : Prop :=
  d < radix ∧ ("0123456789abcdef".toList[d]? = some c ∨ "0123456789ABCDEF".toList[d]? = some c)

instance (radix : Nat) (c : Char) (d : Nat) : Decidable (IsDigit radix c d) :=
  inferInstanceAs (Decidable (_ ∧ _))

/-- The characters are one or more digits of the radix, with the positional value `n`. -/
inductive Digits (radix : Nat) : List Char → Nat → Prop
  | one {c : Char} {d : Nat} (h : IsDigit radix c d) : Digits radix [c] d
  | more {cs : List Char} {n : Nat} {c : Char} {d : Nat} (hcs : Digits radix cs n)
      (h : IsDigit radix c d) : Digits radix (cs ++ [c]) (n * radix + d)

/-- An unsigned literal with its value. -/
inductive Unsigned : List Char → Nat → Prop
  | decimal {cs : List Char} {n : Nat} (h : Digits 10 cs n) : Unsigned cs n
  | hexadecimal {cs : List Char} {n : Nat} {x : Char} (hx : x = 'x' ∨ x = 'X') (h : Digits 16 cs n) :
      Unsigned ('0' :: x :: cs) n

/-- A literal with its sign and its magnitude. -/
inductive Signed : List Char → Magnitude → Prop
  | plain {cs : List Char} {n : Nat} (h : Unsigned cs n) : Signed cs ⟨false, n⟩
  | plus {cs : List Char} {n : Nat} (h : Unsigned cs n) : Signed ('+' :: cs) ⟨false, n⟩
  | minus {cs : List Char} {n : Nat} (h : Unsigned cs n) : Signed ('-' :: cs) ⟨true, n⟩

/-- The text is a literal of the integer. -/
def Denotes (s : String) (v : Int) : Prop := ∃ m : Magnitude, Signed s.toList m ∧ m.toInt = v

/-! ## Digits -/

/-- Characters in a row are digits in a row. -/
theorem isDigit_of_range {low high first : Nat} {c : Char} (hlow : low ≤ c.toNat) (hhigh : c.toNat ≤ high)
    (h : (List.range (high + 1 - low)).all
      (fun i => decide (IsDigit 16 (Char.ofNat (low + i)) (i + first))) = true) :
    IsDigit 16 c (c.toNat - low + first) := by
  have hdigit := List.all_eq_true.mp h (c.toNat - low) (List.mem_range.mpr (by omega))
  rwa [decide_eq_true_eq, Nat.add_sub_cancel' hlow, Char.ofNat_toNat] at hdigit

theorem hexDigit?_eq_some_iff {c : Char} {d : Nat} : hexDigit? c = some d ↔ IsDigit 16 c d := by
  constructor
  · intro h
    unfold hexDigit? at h
    split at h
    · rename_i hc
      cases h
      exact @isDigit_of_range 48 57 0 c hc.1 hc.2 (by decide)
    · split at h
      · rename_i hc
        cases h
        exact @isDigit_of_range 97 102 10 c hc.1 hc.2 (by decide)
      · split at h
        · rename_i hc
          cases h
          exact @isDigit_of_range 65 70 10 c hc.1 hc.2 (by decide)
        · cases h
  · rintro ⟨hd, h⟩
    interval_cases d <;> rcases h with h | h <;> cases h <;> decide

theorem digit?_eq_some_iff {radix : Nat} (hradix : radix ≤ 16) {c : Char} {d : Nat} :
    digit? radix c = some d ↔ IsDigit radix c d := by
  rw [digit?, Option.filter_eq_some_iff, hexDigit?_eq_some_iff, decide_eq_true_eq]
  constructor
  · rintro ⟨⟨-, hc⟩, hd⟩
    exact ⟨hd, hc⟩
  · rintro ⟨hd, hc⟩
    exact ⟨⟨Nat.lt_of_lt_of_le hd hradix, hc⟩, hd⟩

theorem digitsFrom?_concat (radix value : Nat) (cs : List Char) (c : Char) :
    digitsFrom? radix value (cs ++ [c]) =
      (digitsFrom? radix value cs).bind fun n => (digit? radix c).map (n * radix + ·) := by
  induction cs generalizing value with
  | nil =>
    simp only [List.nil_append, digitsFrom?, Option.bind_some]
    cases digit? radix c <;> rfl
  | cons b cs ih =>
    simp only [List.cons_append, digitsFrom?]
    cases digit? radix b with
    | none => rfl
    | some d => exact ih _

theorem digits?_eq {radix : Nat} {cs : List Char} (hcs : cs ≠ []) :
    digits? radix cs = digitsFrom? radix 0 cs := by
  cases cs with
  | nil => exact absurd rfl hcs
  | cons c cs => rfl

theorem Digits.ne_nil {radix n : Nat} {cs : List Char} (h : Digits radix cs n) : cs ≠ [] := by
  cases h <;> simp

/-- Digits are read with their positional value. -/
theorem digits?_eq_some_iff {radix : Nat} (hradix : radix ≤ 16) {cs : List Char} {n : Nat} :
    digits? radix cs = some n ↔ Digits radix cs n := by
  constructor
  · intro h
    induction cs using List.reverseRecOn generalizing n with
    | nil => cases h
    | append_singleton cs c ih =>
      rw [digits?_eq (by simp), digitsFrom?_concat] at h
      obtain ⟨m, hm, h⟩ := Option.bind_eq_some_iff.mp h
      obtain ⟨d, hd, rfl⟩ := Option.map_eq_some_iff.mp h
      rw [digit?_eq_some_iff hradix] at hd
      cases cs with
      | nil =>
        cases hm
        simpa using Digits.one hd
      | cons b cs => exact .more (ih hm) hd
  · intro h
    induction h with
    | @one c d hd =>
      rw [← digit?_eq_some_iff hradix] at hd
      simp [digits?, digitsFrom?, hd]
    | @more cs n c d hcs hd ih =>
      rw [← digit?_eq_some_iff hradix] at hd
      rw [digits?_eq hcs.ne_nil] at ih
      rw [digits?_eq (by simp), digitsFrom?_concat, ih, hd]
      rfl

/-! ## Literals -/

/-- The characters of digits. -/
def digitChars : List Char := "0123456789abcdef".toList ++ "0123456789ABCDEF".toList

theorem IsDigit.mem {radix d : Nat} {c : Char} (h : IsDigit radix c d) : c ∈ digitChars :=
  List.mem_append.mpr (h.2.imp List.mem_of_getElem? List.mem_of_getElem?)

theorem Digits.mem {radix n : Nat} {cs : List Char} (h : Digits radix cs n) {c : Char} (hc : c ∈ cs) :
    c ∈ digitChars := by
  induction h with
  | one hd =>
    obtain rfl := List.mem_singleton.mp hc
    exact hd.mem
  | more hcs hd ih =>
    rcases List.mem_append.mp hc with hc | hc
    · exact ih hc
    · obtain rfl := List.mem_singleton.mp hc
      exact hd.mem

theorem splitRadix_cases (cs : List Char) :
    (∃ x rest, (x = 'x' ∨ x = 'X') ∧ cs = '0' :: x :: rest ∧ splitRadix cs = (16, rest)) ∨
      splitRadix cs = (10, cs) := by
  fun_cases splitRadix cs with
  | case1 rest => exact .inl ⟨'x', rest, .inl rfl, rfl, rfl⟩
  | case2 rest => exact .inl ⟨'X', rest, .inr rfl, rfl, rfl⟩
  | case3 => exact .inr rfl

theorem splitSign_cases (cs : List Char) :
    (∃ rest, cs = '-' :: rest ∧ splitSign cs = (true, rest)) ∨
      (∃ rest, cs = '+' :: rest ∧ splitSign cs = (false, rest)) ∨ splitSign cs = (false, cs) := by
  fun_cases splitSign cs with
  | case1 rest => exact .inl ⟨rest, rfl, rfl⟩
  | case2 rest => exact .inr (.inl ⟨rest, rfl, rfl⟩)
  | case3 => exact .inr (.inr rfl)

theorem digits?_eq_some_iff_unsigned {cs digits : List Char} {radix n : Nat}
    (h : splitRadix cs = (radix, digits)) : digits? radix digits = some n ↔ Unsigned cs n := by
  rcases splitRadix_cases cs with ⟨x, rest, hx, rfl, heq⟩ | heq
  · obtain ⟨rfl, rfl⟩ := Prod.mk.inj (h.symm.trans heq)
    rw [digits?_eq_some_iff (by decide)]
    refine ⟨.hexadecimal hx, fun hcs => ?_⟩
    cases hcs with
    | decimal hcs =>
      have hmem := hcs.mem (List.mem_cons_of_mem _ List.mem_cons_self)
      rcases hx with rfl | rfl
      · exact absurd hmem (by decide)
      · exact absurd hmem (by decide)
    | hexadecimal _ hcs => exact hcs
  · obtain ⟨rfl, rfl⟩ := Prod.mk.inj (h.symm.trans heq)
    rw [digits?_eq_some_iff (by decide)]
    refine ⟨.decimal, fun hcs => ?_⟩
    cases hcs with
    | decimal hcs => exact hcs
    | hexadecimal hx hcs => rcases hx with rfl | rfl <;> cases heq

theorem Unsigned.mem {cs : List Char} {n : Nat} (h : Unsigned cs n) {c : Char} (hc : c ∈ cs) :
    c ∈ 'x' :: 'X' :: digitChars := by
  cases h with
  | decimal h => exact List.mem_cons_of_mem _ (List.mem_cons_of_mem _ (h.mem hc))
  | hexadecimal hx h =>
    simp only [List.mem_cons] at hc ⊢
    rcases hc with rfl | rfl | hc
    · exact .inr (.inr (by decide))
    · exact hx.imp_right .inl
    · exact .inr (.inr (h.mem hc))

theorem Unsigned.splitSign_eq {cs : List Char} {n : Nat} (h : Unsigned cs n) :
    splitSign cs = (false, cs) := by
  rcases splitSign_cases cs with ⟨rest, rfl, -⟩ | ⟨rest, rfl, -⟩ | heq
  · exact absurd (h.mem List.mem_cons_self) (by decide)
  · exact absurd (h.mem List.mem_cons_self) (by decide)
  · exact heq

theorem signed_iff {cs rest : List Char} {negative : Bool} {m : Magnitude}
    (h : splitSign cs = (negative, rest)) : Signed cs m ↔ m.negative = negative ∧ Unsigned rest m.value := by
  constructor
  · intro hsigned
    cases hsigned with
    | plain hcs =>
      cases h.symm.trans hcs.splitSign_eq
      exact ⟨rfl, hcs⟩
    | plus hcs | minus hcs =>
      cases h
      exact ⟨rfl, hcs⟩
  · obtain ⟨negative', n⟩ := m
    rintro ⟨rfl, hrest⟩
    rcases splitSign_cases cs with ⟨rest', rfl, heq⟩ | ⟨rest', rfl, heq⟩ | heq
    · cases h.symm.trans heq
      exact .minus hrest
    · cases h.symm.trans heq
      exact .plus hrest
    · cases h.symm.trans heq
      exact .plain hrest

/-- A literal is read with its sign and its magnitude, if that is below 2^64. -/
theorem magnitude?_eq_some_iff {s : String} {m : Magnitude} :
    magnitude? s = some m ↔ Signed s.toList m ∧ m.value < 0x10000000000000000 := by
  obtain ⟨negative, unsigned, hsign⟩ : ∃ negative unsigned, splitSign s.toList = (negative, unsigned) :=
    ⟨_, _, rfl⟩
  obtain ⟨radix, digits, hradix⟩ : ∃ radix digits, splitRadix unsigned = (radix, digits) := ⟨_, _, rfl⟩
  rw [signed_iff hsign, ← digits?_eq_some_iff_unsigned hradix]
  simp only [magnitude?, hsign, hradix]
  obtain ⟨negative', n⟩ := m
  cases digits? radix digits with
  | none => simp
  | some value =>
    simp only [Option.ite_none_right_eq_some, Option.some.injEq, Magnitude.mk.injEq]
    constructor
    · rintro ⟨hvalue, rfl, rfl⟩
      exact ⟨⟨rfl, rfl⟩, hvalue⟩
    · rintro ⟨⟨rfl, rfl⟩, hvalue⟩
      exact ⟨hvalue, rfl, rfl⟩

/-! ## Integers -/

theorem magnitude?_of_denotes {s : String} {v : Int} (h : Denotes s v)
    (hrange : -0x10000000000000000 < v ∧ v < 0x10000000000000000) :
    ∃ m, magnitude? s = some m ∧ m.toInt = v := by
  obtain ⟨m, hsigned, rfl⟩ := h
  refine ⟨m, magnitude?_eq_some_iff.mpr ⟨hsigned, ?_⟩, rfl⟩
  unfold Magnitude.toInt at hrange
  split at hrange <;> omega

theorem denotes_of_magnitude? {s : String} {m : Magnitude} (h : magnitude? s = some m) : Denotes s m.toInt :=
  ⟨m, (magnitude?_eq_some_iff.mp h).1, rfl⟩

/-- A literal denotes one integer. -/
theorem Denotes.unique {s : String} {v v' : Int} (h : Denotes s v) (h' : Denotes s v') : v = v' := by
  obtain ⟨⟨negative, n⟩, hm, rfl⟩ := h
  obtain ⟨⟨negative', n'⟩, hm', rfl⟩ := h'
  obtain ⟨rfl, hn⟩ := (signed_iff rfl).mp hm
  obtain ⟨rfl, hn'⟩ := (signed_iff rfl).mp hm'
  rw [← digits?_eq_some_iff_unsigned rfl] at hn hn'
  obtain rfl := Option.some.inj (hn.symm.trans hn')
  rfl

theorem int?_eq_some_iff {s : String} {v : Int} :
    int? s = some v ↔ Denotes s v ∧ -0x8000000000000000 ≤ v ∧ v < 0x8000000000000000 := by
  unfold int?
  constructor
  · intro h
    split at h
    · rename_i m hm
      rw [Option.ite_none_right_eq_some] at h
      obtain ⟨hrange, h⟩ := h
      obtain rfl := Option.some.inj h
      exact ⟨denotes_of_magnitude? hm, hrange⟩
    · cases h
  · rintro ⟨hdenotes, hrange⟩
    obtain ⟨m, hm, rfl⟩ := magnitude?_of_denotes hdenotes (by omega)
    simp only [hm, if_pos hrange]

/-! ## Printing -/

theorem isDigit_digitChar {radix d : Nat} (hradix : radix ≤ 16) (hd : d < radix) :
    IsDigit radix d.digitChar d := by
  have hall : (List.range 16).all
      (fun d => decide ("0123456789abcdef".toList[d]? = some d.digitChar)) = true := by decide
  have hchar := List.all_eq_true.mp hall d (List.mem_range.mpr (Nat.lt_of_lt_of_le hd hradix))
  exact ⟨hd, .inl (of_decide_eq_true hchar)⟩

/-- A number is printed with digits of which it is the positional value. -/
theorem digits_toDigits {radix : Nat} (hbase : 1 < radix) (hradix : radix ≤ 16) (n : Nat) :
    Digits radix (Nat.toDigits radix n) n := by
  induction n using Nat.strong_induction_on with
  | _ n ih =>
    rw [Nat.toDigits_eq_if hbase]
    split
    · rename_i hsmall
      exact .one (isDigit_digitChar hradix hsmall)
    · rename_i hlarge
      have hfront := ih (n / radix) (Nat.div_lt_self (by omega) hbase)
      have hdigit := isDigit_digitChar hradix (Nat.mod_lt n (Nat.lt_of_succ_lt hbase))
      have hmore := hfront.more hdigit
      rwa [Nat.mul_comm, Nat.div_add_mod] at hmore

theorem denotes_toString (v : Int) : Denotes (toString v) v := by
  cases v with
  | ofNat n =>
    refine ⟨⟨false, n⟩, .plain (.decimal ?_), rfl⟩
    have htext : (toString (Int.ofNat n)).toList = Nat.toDigits 10 n := by
      show n.repr.toList = _
      simp
    rw [htext]
    exact digits_toDigits (by decide) (by decide) n
  | negSucc n =>
    refine ⟨⟨true, n + 1⟩, ?_, rfl⟩
    have htext : (toString (Int.negSucc n)).toList = '-' :: Nat.toDigits 10 (n + 1) := by
      show ("-" ++ (n + 1).repr).toList = _
      simp
    rw [htext]
    exact .minus (.decimal (digits_toDigits (by decide) (by decide) (n + 1)))

end Lowering.Literal
