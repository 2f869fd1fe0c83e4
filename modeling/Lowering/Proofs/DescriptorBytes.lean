-- SUMMARY: Descriptors read by byte offsets: no cut falls inside a character, and the grammar is met exactly.
import Lowering.Proofs.Descriptors

/-!
# Descriptors by bytes

A descriptor can be read on the bytes of its text: brackets and letters are looked at byte by byte, and
types are cut off at byte offsets. A cut inside a character would be no text. There is none, since a byte
that equals a letter of the grammar is that letter, whatever the text. So reading by bytes gives what
reading by characters gives, which is exactly what the grammar admits.
-/

namespace Lowering

namespace Utf8

/-! ## Bytes -/

/-- The bytes of a text. -/
def bytes (cs : List Char) : List UInt8 := (String.ofList cs).toByteArray.data.toList

/-- The byte of a character that has only one. -/
def byte (c : Char) : UInt8 := c.val.toUInt8

theorem bytes_cons (c : Char) (cs : List Char) :
    bytes (c :: cs) = String.utf8EncodeChar c ++ bytes cs := by
  rw [bytes, bytes, String.toByteArray_ofList, String.toByteArray_ofList, List.utf8Encode_cons,
    List.utf8Encode_singleton, ByteArray.data_append, Array.toList_append, List.toList_data_toByteArray]

theorem bytes_append (a b : List Char) : bytes (a ++ b) = bytes a ++ bytes b := by
  induction a with
  | nil => rfl
  | cons c a ih => rw [List.cons_append, bytes_cons, bytes_cons, ih, List.append_assoc]

theorem bytes_ascii {c : Char} (hc : c.val ≤ 127) (cs : List Char) :
    bytes (c :: cs) = byte c :: bytes cs := by
  rw [bytes_cons, String.utf8EncodeChar_eq_singleton (Char.utf8Size_eq_one_iff.mpr hc)]
  rfl

theorem length_bytes_cons (c : Char) (cs : List Char) :
    (bytes (c :: cs)).length = c.utf8Size + (bytes cs).length := by
  rw [bytes_cons, List.length_append, String.length_utf8EncodeChar]

/-- A character has one byte, or its first byte is none that a character of one byte has. -/
theorem encode_first (c : Char) :
    c.val ≤ 127 ∨ ∃ b rest, String.utf8EncodeChar c = b :: rest ∧ 128 ≤ b.toNat := by
  have hor : ∀ x y : UInt8, y.toNat ≤ (x ||| y).toNat := by
    intro x y
    rw [UInt8.toNat_or]
    exact Nat.right_le_or
  rcases Char.utf8Size_eq c with h | h | h | h
  · exact .inl (Char.utf8Size_eq_one_iff.mp h)
  · exact .inr ⟨_, _, String.utf8EncodeChar_eq_cons_cons h, Nat.le_trans (by decide) (hor _ 192)⟩
  · exact .inr ⟨_, _, String.utf8EncodeChar_eq_cons_cons_cons h, Nat.le_trans (by decide) (hor _ 224)⟩
  · exact .inr ⟨_, _, String.utf8EncodeChar_eq_cons_cons_cons_cons h,
      Nat.le_trans (by decide) (hor _ 240)⟩

/-- A text that starts with the byte of a character starts with the character. -/
theorem eq_of_first_byte {a c : Char} (ha : a.val ≤ 127) {cs : List Char}
    (h : (bytes (c :: cs)).head? = some (byte a)) : c = a := by
  have hbyte : ∀ {d : Char}, d.val ≤ 127 → (byte d).toNat = d.val.toNat := by
    intro d hd
    have hsmall : d.val.toNat ≤ 127 := UInt32.le_iff_toNat_le.mp hd
    rw [byte, UInt32.toNat_toUInt8]
    omega
  rcases encode_first c with hc | ⟨b, rest, hencode, hb⟩
  · rw [bytes_ascii hc, List.head?_cons, Option.some.injEq] at h
    have hval : c.val.toNat = a.val.toNat := by rw [← hbyte hc, ← hbyte ha, h]
    exact Char.ext (UInt32.toNat_inj.mp hval)
  · have hsmall : a.val.toNat ≤ 127 := UInt32.le_iff_toNat_le.mp ha
    rw [bytes_cons, hencode, List.cons_append, List.head?_cons, Option.some.injEq] at h
    rw [h, hbyte ha] at hb
    omega

/-! ## Cuts -/

/-- Why reading by bytes stops without a result. -/
inductive Stop where
  | refused
  /-- A cut falls inside a character or behind the end. -/
  | torn
  deriving DecidableEq, Repr

/-- What stands before and behind a byte offset. -/
def cut : Nat → List Char → Except Stop (List Char × List Char)
  | 0, cs => .ok ([], cs)
  | _ + 1, [] => .error .torn
  | n + 1, c :: cs =>
    if c.utf8Size ≤ n + 1 then (cut (n + 1 - c.utf8Size) cs).map fun parts => (c :: parts.1, parts.2)
    else .error .torn

/-- The byte offset at which a character first stands. -/
def offset? (c : Char) (cs : List Char) : Option Nat :=
  (Text.cutAt? (· = c) cs).map fun parts => (bytes parts.1).length

theorem cut_cons {n : Nat} {c : Char} (h : c.utf8Size ≤ n) (cs : List Char) :
    cut n (c :: cs) = (cut (n - c.utf8Size) cs).map fun parts => (c :: parts.1, parts.2) := by
  have hpos := c.utf8Size_pos
  cases n with
  | zero => omega
  | succ n => rw [cut, if_pos h]

/-- A text can be cut behind each of its characters. -/
theorem cut_append (before rest : List Char) :
    cut (bytes before).length (before ++ rest) = .ok (before, rest) := by
  induction before with
  | nil =>
    show cut 0 rest = _
    rw [cut]
  | cons c before ih =>
    rw [length_bytes_cons, List.cons_append, cut_cons (Nat.le_add_right _ _), Nat.add_sub_cancel_left, ih]
    rfl

/-! ## Reading -/

/-- The number of bytes of an object type, from its letter to its semicolon. -/
def objectLength (cs : List Char) : Except Stop Nat :=
  match offset? ';' cs with
  | some stop => if stop < 2 then .error .refused else .ok (stop + 1)
  | none => .error .refused

/-- The number of bytes of the field type at the front. -/
def fieldTypeLength (cs : List Char) : Except Stop Nat :=
  let depth := ((bytes cs).takeWhile (· = byte '[')).length
  match (bytes cs)[depth]? with
  | none => .error .refused
  | some b =>
    if b ∈ baseTypes.map byte then .ok (depth + 1)
    else if b = byte 'L' then do
      let (_, object) ← cut depth cs
      let length ← objectLength object
      return depth + length
    else .error .refused

/-- Cuts off field types, at most as many as the first argument. -/
def fieldTypesWithin : Nat → List Char → Except Stop (List String)
  | _, [] => .ok []
  | 0, _ :: _ => .error .refused
  | bound + 1, cs => do
    let length ← fieldTypeLength cs
    let (t, rest) ← cut length cs
    let ts ← fieldTypesWithin bound rest
    return String.ofList t :: ts

/-- Splits a concatenation of field types. -/
def fieldTypes (cs : List Char) : Except Stop (List String) := fieldTypesWithin cs.length cs

/-- Reads a result type: `V` or a field type that takes up all bytes. -/
def result (cs : List Char) : Except Stop String :=
  if cs = ['V'] then .ok "V"
  else do
    let length ← fieldTypeLength cs
    if length = (bytes cs).length then return String.ofList cs else .error .refused

/-- Reads a method descriptor. The parameters end at the first closing parenthesis. -/
def signature (s : String) : Except Stop Signature :=
  match s.toList with
  | '(' :: cs =>
    match offset? ')' cs with
    | some close => do
      let (params, _) ← cut close cs
      let params ← fieldTypes params
      let (_, rest) ← cut (close + 1) cs
      let result ← result rest
      return ⟨params, result⟩
    | none => .error .refused
  | _ => .error .refused

/-- What was read by characters, as a reading by bytes. It is not torn. -/
def whole {α : Type} : Option α → Except Stop α
  | some a => .ok a
  | none => .error .refused

theorem whole_map {α β : Type} (a : Option α) (f : α → β) :
    (whole a).bind (fun a => .ok (f a)) = whole (a.map f) := by
  cases a <;> rfl

theorem whole_ne_torn {α : Type} (a : Option α) : whole a ≠ .error .torn := by
  cases a <;> simp [whole]

theorem ascii_of_mem_baseTypes {c : Char} (hc : c ∈ baseTypes) : c.val ≤ 127 := by
  have hall : (baseTypes.all fun a => decide (a.val ≤ 127)) = true := by decide
  exact of_decide_eq_true (List.all_eq_true.mp hall c hc)

/-! ## Lengths of field types -/

theorem fieldTypeLength_bracket (cs : List Char) :
    fieldTypeLength ('[' :: cs) = (fieldTypeLength cs).map (· + 1) := by
  have hbytes : bytes ('[' :: cs) = byte '[' :: bytes cs := bytes_ascii (by decide) cs
  have hcut : ∀ depth, cut (depth + 1) ('[' :: cs) =
      (cut depth cs).map fun parts => ('[' :: parts.1, parts.2) := by
    intro depth
    rw [cut_cons (Nat.le_add_left 1 depth)]
    rfl
  simp only [fieldTypeLength, hbytes, List.takeWhile_cons, decide_true, if_true, List.length_cons,
    List.getElem?_cons_succ, hcut]
  generalize ((bytes cs).takeWhile (· = byte '[')).length = depth
  cases (bytes cs)[depth]? with
  | none => rfl
  | some b =>
    dsimp only
    split
    · rfl
    · split
      · cases cut depth cs with
        | error stop => rfl
        | ok parts =>
          obtain ⟨before, object⟩ := parts
          show (objectLength object).bind (fun length => .ok (depth + 1 + length)) =
            ((objectLength object).bind fun length => .ok (depth + length)).map (· + 1)
          cases objectLength object with
          | error stop => rfl
          | ok length => exact congrArg Except.ok (Nat.add_right_comm depth 1 length)
      · rfl

/-- A type that does not start with a bracket is told by its first byte. -/
theorem fieldTypeLength_cons {c : Char} (hc : c ≠ '[') (cs : List Char) :
    fieldTypeLength (c :: cs) =
      if c ∈ baseTypes then .ok 1
      else if c = 'L' then objectLength (c :: cs)
      else .error .refused := by
  obtain ⟨b, rest, hencode⟩ := List.exists_cons_of_ne_nil (String.utf8EncodeChar_ne_nil (c := c))
  have hbytes : bytes (c :: cs) = b :: (rest ++ bytes cs) := by rw [bytes_cons, hencode, List.cons_append]
  have hfirst : ∀ {a : Char}, a.val ≤ 127 → (b = byte a ↔ c = a) := by
    intro a ha
    constructor
    · rintro rfl
      exact eq_of_first_byte ha (congrArg List.head? hbytes)
    · rintro rfl
      rw [bytes_ascii ha] at hbytes
      exact (List.cons.inj hbytes).1.symm
  have hbase : b ∈ baseTypes.map byte ↔ c ∈ baseTypes := by
    rw [List.mem_map]
    constructor
    · rintro ⟨a, ha, heq⟩
      exact (hfirst (ascii_of_mem_baseTypes ha)).mp heq.symm ▸ ha
    · intro hmem
      exact ⟨c, hmem, ((hfirst (ascii_of_mem_baseTypes hmem)).mpr rfl).symm⟩
  have hbracket : b ≠ byte '[' := fun heq => hc ((hfirst (by decide)).mp heq)
  have hobject : b = byte 'L' ↔ c = 'L' := hfirst (by decide)
  simp only [fieldTypeLength, hbytes, List.takeWhile_cons, hbracket, decide_false, Bool.false_eq_true,
    if_false, List.length_nil, List.getElem?_cons_zero, hbase, hobject, Nat.zero_add]
  split
  · rfl
  · split
    · rw [cut]
      show (objectLength (c :: cs)).bind (fun length => .ok length) = _
      cases objectLength (c :: cs) <;> rfl
    · rfl

/-- An object type has a name, which ends at the first semicolon. -/
theorem objectLength_cons (cs : List Char) :
    objectLength ('L' :: cs) = whole (((Text.cutAt? (· = ';') cs).filter fun parts => !parts.1.isEmpty).map
      fun parts => (bytes ('L' :: parts.1 ++ [';'])).length) := by
  cases hcut : Text.cutAt? (· = ';') cs with
  | none => simp [objectLength, offset?, Text.cutAt?, hcut, whole]
  | some parts =>
    obtain ⟨name, rest⟩ := parts
    have hoffset : offset? ';' ('L' :: cs) = some (1 + (bytes name).length) := by
      rw [offset?, Text.cutAt?, if_neg (by decide), hcut]
      exact congrArg some (length_bytes_cons 'L' name)
    have hlength : (bytes ('L' :: name ++ [';'])).length = 1 + (bytes name).length + 1 := by
      rw [List.cons_append, length_bytes_cons, bytes_append, List.length_append, ← Nat.add_assoc]
      rfl
    rw [objectLength, hoffset]
    cases name with
    | nil => rfl
    | cons c name =>
      have hpos := c.utf8Size_pos
      have hlong : ¬ 1 + (bytes (c :: name)).length < 2 := by
        rw [length_bytes_cons]
        omega
      simp only [if_neg hlong, ← hlength]
      rfl

/-- The length that is read by bytes is that of the type which is read by characters. -/
theorem fieldTypeLength_eq (cs : List Char) :
    fieldTypeLength cs = whole ((fieldType? cs).map fun parts => (bytes parts.1).length) := by
  induction cs using fieldType?.induct with
  | case1 => rfl
  | case2 cs ih =>
    rw [fieldTypeLength_bracket, ih, fieldType?]
    cases fieldType? cs with
    | none => rfl
    | some parts =>
      have hlength : (bytes ('[' :: parts.1)).length = (bytes parts.1).length + 1 :=
        (length_bytes_cons _ _).trans (Nat.add_comm _ _)
      exact congrArg Except.ok hlength.symm
  | case3 cs c name rest hcut =>
    rw [fieldTypeLength_cons (by decide), if_neg (by decide), if_pos rfl, objectLength_cons, fieldType?,
      hcut]
    rfl
  | case4 cs hcut =>
    have hnone : fieldType? ('L' :: cs) = none := by
      rw [fieldType?]
      split
      · rename_i c name rest heq
        exact absurd heq (hcut c name rest)
      · rfl
    rw [fieldTypeLength_cons (by decide), if_neg (by decide), if_pos rfl, objectLength_cons, hnone]
    cases heq : Text.cutAt? (· = ';') cs with
    | none => rfl
    | some parts =>
      obtain ⟨name, rest⟩ := parts
      cases name with
      | nil => rfl
      | cons c name => exact absurd heq (hcut c name rest)
  | case5 c cs harray hobject hc =>
    have hlength : (bytes [c]).length = 1 := by
      rw [bytes_ascii (ascii_of_mem_baseTypes hc)]
      rfl
    rw [fieldTypeLength_cons harray, if_pos hc, fieldType?, if_pos hc]
    · exact congrArg Except.ok hlength.symm
    · exact harray
    · exact hobject
  | case6 c cs harray hobject hc =>
    rw [fieldTypeLength_cons harray, if_neg hc, if_neg hobject, fieldType?, if_neg hc]
    · rfl
    · exact harray
    · exact hobject

/-! ## Readings -/

theorem fieldTypesWithin_eq (bound : Nat) (cs : List Char) :
    fieldTypesWithin bound cs = whole (Lowering.fieldTypesWithin bound cs) := by
  induction bound generalizing cs with
  | zero => cases cs <;> rfl
  | succ bound ih =>
    cases cs with
    | nil => rfl
    | cons c cs =>
      rw [fieldTypesWithin, fieldTypeLength_eq, Lowering.fieldTypesWithin]
      · cases hfront : fieldType? (c :: cs) with
        | none => rfl
        | some parts =>
          obtain ⟨t, rest⟩ := parts
          obtain ⟨-, hparts⟩ := fieldType?_eq_some hfront
          have hcut := cut_append t rest
          show (cut (bytes t).length (c :: cs)).bind (fun parts =>
            (fieldTypesWithin bound parts.2).bind fun ts => .ok (String.ofList parts.1 :: ts)) =
              whole ((Lowering.fieldTypesWithin bound rest).map (String.ofList t :: ·))
          rw [hparts, hcut, ← whole_map, ← ih]
          rfl
      · simp
      · simp

theorem fieldTypes_eq (cs : List Char) : fieldTypes cs = whole (fieldTypes? cs) :=
  fieldTypesWithin_eq cs.length cs

theorem length_bytes_eq_zero_iff {cs : List Char} : (bytes cs).length = 0 ↔ cs = [] := by
  cases cs with
  | nil => exact ⟨fun _ => rfl, fun _ => rfl⟩
  | cons c cs =>
    have hpos := c.utf8Size_pos
    rw [length_bytes_cons]
    constructor
    · intro h
      omega
    · intro h
      cases h

theorem result_eq (cs : List Char) : result cs = whole (Signature.result? cs) := by
  by_cases hvoid : cs = ['V']
  · rw [result, if_pos hvoid, Signature.result?, if_pos hvoid]
    rfl
  · -- Any other result is a field type behind which nothing is left.
    have hvalue : ∀ r, Signature.result? cs = some r → fieldType? cs = some (cs, []) := by
      intro r hr
      obtain ⟨rfl, rfl | htype⟩ := Signature.result?_eq_some_iff.mp hr
      · exact absurd rfl hvoid
      · simpa using fieldType?_append htype []
    rw [result, if_neg hvoid, fieldTypeLength_eq]
    cases hresult : Signature.result? cs with
    | some r =>
      have hr := (Signature.result?_eq_some_iff.mp hresult).1
      rw [hvalue r hresult]
      show (if (bytes cs).length = (bytes cs).length then _ else _) = _
      rw [if_pos rfl, hr, String.ofList_toList]
      rfl
    | none =>
      cases hfront : fieldType? cs with
      | none => rfl
      | some parts =>
        obtain ⟨t, rest⟩ := parts
        obtain ⟨htype, hparts⟩ := fieldType?_eq_some hfront
        have hmore : (bytes t).length ≠ (bytes cs).length := by
          intro hlength
          rw [hparts, bytes_append, List.length_append] at hlength
          obtain rfl := length_bytes_eq_zero_iff.mp (by omega : (bytes rest).length = 0)
          rw [List.append_nil] at hparts
          have hread : Signature.result? cs = some (String.ofList cs) := by
            rw [Signature.result?_eq_some_iff, String.toList_ofList, hparts]
            exact ⟨rfl, .inr htype⟩
          cases hresult.symm.trans hread
        show (if (bytes t).length = (bytes cs).length then _ else _) = _
        rw [if_neg hmore]
        rfl

theorem signature_eq (s : String) : signature s = whole (Signature.parse? s) := by
  by_cases hopen : ∃ cs, s.toList = '(' :: cs
  · obtain ⟨cs, hs⟩ := hopen
    simp only [signature, Signature.parse?, hs]
    cases hclose : Text.cutAt? (· = ')') cs with
    | none =>
      rw [offset?, hclose]
      rfl
    | some parts =>
      obtain ⟨before, after⟩ := parts
      obtain ⟨rfl, -⟩ := Text.cutAt?_char_eq_some_iff.mp hclose
      have hparams := cut_append before (')' :: after)
      have hresult : cut ((bytes before).length + 1) (before ++ ')' :: after) =
          .ok (before ++ [')'], after) := by
        have hcut := cut_append (before ++ [')']) after
        rw [bytes_append, List.length_append, List.append_assoc] at hcut
        exact hcut
      rw [offset?, hclose]
      dsimp only [Option.map_some]
      rw [hparams, hresult]
      show (do
        let params ← fieldTypes before
        let result ← result after
        pure (⟨params, result⟩ : Signature)) = _
      rw [fieldTypes_eq, result_eq]
      cases fieldTypes? before with
      | none => rfl
      | some params => cases Signature.result? after <;> rfl
  · have hbytes : signature s = .error .refused := by
      unfold signature
      split
      · rename_i cs hs
        exact absurd ⟨cs, hs⟩ hopen
      · rfl
    have hchars : Signature.parse? s = none := by
      unfold Signature.parse?
      split
      · rename_i cs hs
        exact absurd ⟨cs, hs⟩ hopen
      · rfl
    rw [hbytes, hchars]
    rfl

end Utf8

/-! ## Exactness -/

/-- The texts are field types, and following one another they make up the whole text. -/
def TypeList (ts : List String) (s : String) : Prop :=
  (∀ t ∈ ts, FieldType t.toList) ∧ String.join ts = s

theorem fieldTypes?_eq_some_iff_typeList {s : String} {ts : List String} :
    fieldTypes? s.toList = some ts ↔ TypeList ts s := by
  have hjoin : s.toList = ts.flatMap String.toList ↔ String.join ts = s := by
    rw [← String.toList_join, String.toList_inj, eq_comm]
  rw [fieldTypes?_eq_some_iff, hjoin, TypeList]

/-- Every text is read as a list of field types exactly if it consists of them, which it does in at most one
way, and as a method descriptor exactly if it consists of parameters, none of which contains a closing
parenthesis, and a result. Read on its bytes, a text gives the same: no cut falls inside a character. -/
theorem descriptors_read_exactly (s : String) :
    (∀ ts, fieldTypes? s.toList = some ts ↔ TypeList ts s) ∧
    (∀ ts ts', TypeList ts s → TypeList ts' s → ts = ts') ∧
    (fieldTypes? s.toList = none ↔ ¬ ∃ ts, TypeList ts s) ∧
    (∀ params result, Signature.parse? s = some ⟨params, result⟩ ↔
      s = "(" ++ String.join params ++ ")" ++ result ∧
      (∀ t ∈ params, FieldType t.toList ∧ ')' ∉ t.toList) ∧
      (result = "V" ∨ FieldType result.toList)) ∧
    (Utf8.fieldTypes s.toList = Utf8.whole (fieldTypes? s.toList) ∧
      Utf8.fieldTypes s.toList ≠ .error .torn) ∧
    (Utf8.signature s = Utf8.whole (Signature.parse? s) ∧ Utf8.signature s ≠ .error .torn) := by
  have htypes := Utf8.fieldTypes_eq s.toList
  have hsignature := Utf8.signature_eq s
  refine ⟨fun ts => fieldTypes?_eq_some_iff_typeList, ?_, ?_, ?_,
    ⟨htypes, htypes ▸ Utf8.whole_ne_torn _⟩, ⟨hsignature, hsignature ▸ Utf8.whole_ne_torn _⟩⟩
  · intro ts ts' h h'
    rw [← fieldTypes?_eq_some_iff_typeList] at h h'
    exact Option.some.inj (h.symm.trans h')
  · simp only [← fieldTypes?_eq_some_iff_typeList, Option.eq_none_iff_forall_ne_some, not_exists, ne_eq]
  · intro params result
    rw [Signature.parse?_eq_some_iff]
    constructor
    · rintro ⟨hs, hwell⟩
      exact ⟨hs, hwell.params, hwell.result⟩
    · rintro ⟨hs, hparams, hresult⟩
      exact ⟨hs, hparams, hresult⟩

end Lowering
