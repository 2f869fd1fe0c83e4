-- SUMMARY: The grammar of field types and method descriptors, and that reading them follows it.
import Lowering.Descriptor.Signature

/-!
# The grammar of descriptors

Field types are given by a grammar of their own. Reading takes a field type off the front of a text just if
the text starts with one, and splits a text into field types just if it is their concatenation. Types that
follow one another are therefore read one after the other, and a text is read as a method descriptor just if
it is put together from the types that are read.
-/

namespace Lowering

/-- A text is cut at the first character that satisfies the predicate. -/
theorem Text.cutAt?_of_first {p : Char → Bool} {c : Char} {before : List Char} (hc : p c = true)
    (hbefore : ∀ d ∈ before, p d = false) (rest : List Char) :
    cutAt? p (before ++ c :: rest) = some (before, rest) := by
  induction before with
  | nil => simp [cutAt?, hc]
  | cons d before ih =>
    have hrest := ih fun d hd => hbefore d (List.mem_cons_of_mem _ hd)
    simp [cutAt?, hbefore d List.mem_cons_self, hrest]

theorem Text.cutAt?_eq_none_iff {p : Char → Bool} {cs : List Char} :
    cutAt? p cs = none ↔ ∀ c ∈ cs, p c = false := by
  constructor
  · intro h
    induction cs with
    | nil => simp
    | cons c cs ih =>
      by_cases hc : p c = true
      · simp [cutAt?, hc] at h
      · simp only [cutAt?, hc, Bool.false_eq_true, if_false, Option.map_eq_none_iff] at h
        simpa [hc] using ih h
  · intro h
    cases hcut : cutAt? p cs with
    | none => rfl
    | some cut =>
      obtain ⟨c, hc, rfl, -⟩ := cutAt?_eq_some hcut
      simp [h c (by simp)] at hc

/-- A text is cut at a character just if it is there, and before that not. -/
theorem Text.cutAt?_char_eq_some_iff {c : Char} {cs before rest : List Char} :
    cutAt? (· = c) cs = some (before, rest) ↔ cs = before ++ c :: rest ∧ c ∉ before := by
  constructor
  · intro h
    obtain ⟨d, hd, rfl, hbefore⟩ := cutAt?_eq_some h
    obtain rfl := of_decide_eq_true hd
    refine ⟨rfl, fun hmem => ?_⟩
    simpa using hbefore _ hmem
  · rintro ⟨rfl, hbefore⟩
    refine cutAt?_of_first (decide_eq_true rfl) (fun d hd => decide_eq_false ?_) rest
    rintro rfl
    exact hbefore hd

theorem Text.cutAt?_char_eq_none_iff {c : Char} {cs : List Char} : cutAt? (· = c) cs = none ↔ c ∉ cs := by
  rw [cutAt?_eq_none_iff]
  constructor
  · intro h hmem
    simpa using h c hmem
  · rintro h d hd
    refine decide_eq_false ?_
    rintro rfl
    exact h hd

/-! ## Field types -/

/-- The characters are a field type. -/
inductive FieldType : List Char → Prop
  | base {c : Char} (hc : c ∈ ['B', 'C', 'D', 'F', 'I', 'J', 'S', 'Z']) : FieldType [c]
  | object {name : List Char} (hname : name ≠ []) (hend : ';' ∉ name) :
      FieldType ('L' :: name ++ [';'])
  | array {t : List Char} (ht : FieldType t) : FieldType ('[' :: t)

theorem FieldType.ne_nil {t : List Char} (h : FieldType t) : t ≠ [] := by
  cases h <;> simp

/-- A field type is taken off the front of whatever it starts. -/
theorem fieldType?_append {t : List Char} (h : FieldType t) (rest : List Char) :
    fieldType? (t ++ rest) = some (t, rest) := by
  induction h with
  | base hc =>
    simp only [List.mem_cons, List.not_mem_nil, or_false] at hc
    rcases hc with rfl | rfl | rfl | rfl | rfl | rfl | rfl | rfl <;> rfl
  | @object name hname hend =>
    have hcut := Text.cutAt?_char_eq_some_iff.mpr ⟨@rfl _ (name ++ ';' :: rest), hend⟩
    obtain ⟨c, name, rfl⟩ := List.exists_cons_of_ne_nil hname
    have hparts : 'L' :: (c :: name) ++ [';'] ++ rest = 'L' :: (c :: name ++ ';' :: rest) := by simp
    rw [hparts, fieldType?, hcut]
  | array _ ih => simp [fieldType?, ih]

/-- What is taken off the front is a field type. -/
theorem fieldType?_eq_some {cs t rest : List Char} (h : fieldType? cs = some (t, rest)) :
    FieldType t ∧ cs = t ++ rest := by
  induction cs using fieldType?.induct generalizing t with
  | case1 => cases h
  | case2 cs ih =>
    rw [fieldType?] at h
    obtain ⟨⟨inner, rest'⟩, hinner, heq⟩ := Option.map_eq_some_iff.mp h
    cases heq
    obtain ⟨htype, rfl⟩ := ih hinner
    exact ⟨.array htype, rfl⟩
  | case3 cs c name rest' hcut =>
    simp only [fieldType?, hcut, Option.some.injEq, Prod.mk.injEq] at h
    obtain ⟨rfl, rfl⟩ := h
    obtain ⟨rfl, hend⟩ := Text.cutAt?_char_eq_some_iff.mp hcut
    exact ⟨.object (List.cons_ne_nil c name) hend, by simp⟩
  | case4 cs hcut =>
    rw [fieldType?] at h
    split at h
    · rename_i c name rest' heq
      exact absurd heq (hcut c name rest')
    · cases h
  | case5 c cs harray hobject hc =>
    rw [fieldType?, if_pos hc] at h
    · cases h
      exact ⟨.base hc, rfl⟩
    · exact harray
    · exact hobject
  | case6 c cs harray hobject hc =>
    rw [fieldType?, if_neg hc] at h
    · cases h
    · exact harray
    · exact hobject

/-! ## Lists of field types -/

theorem fieldTypesWithin_flatMap {ts : List String} (h : ∀ t ∈ ts, FieldType t.toList) {bound : Nat}
    (hbound : (ts.flatMap String.toList).length ≤ bound) :
    fieldTypesWithin bound (ts.flatMap String.toList) = some ts := by
  induction ts generalizing bound with
  | nil => cases bound <;> rfl
  | cons t ts ih =>
    have ht : FieldType t.toList := h t List.mem_cons_self
    have hlength : 0 < t.toList.length := List.length_pos_iff.mpr ht.ne_nil
    rw [List.flatMap_cons, List.length_append] at hbound
    obtain ⟨bound, rfl⟩ := Nat.exists_eq_succ_of_ne_zero (n := bound) (by omega)
    have hrest : fieldTypesWithin bound (ts.flatMap String.toList) = some ts :=
      ih (fun t' ht' => h t' (List.mem_cons_of_mem _ ht')) (by omega)
    have hsome : t.toList ++ ts.flatMap String.toList ≠ [] := by simp [ht.ne_nil]
    rw [List.flatMap_cons, fieldTypesWithin, fieldType?_append ht]
    · simp [hrest]
    · exact hsome

theorem fieldTypesWithin_eq_some {bound : Nat} {cs : List Char} {ts : List String}
    (h : fieldTypesWithin bound cs = some ts) :
    (∀ t ∈ ts, FieldType t.toList) ∧ cs = ts.flatMap String.toList := by
  induction bound, cs using fieldTypesWithin.induct generalizing ts with
  | case1 bound =>
    cases bound <;> (cases h; exact ⟨nofun, rfl⟩)
  | case2 c cs => cases h
  | case3 bound cs hne t rest hfront ih =>
    rw [fieldTypesWithin, hfront] at h
    · obtain ⟨others, hothers, rfl⟩ := Option.map_eq_some_iff.mp h
      obtain ⟨htypes, rfl⟩ := ih hothers
      obtain ⟨htype, rfl⟩ := fieldType?_eq_some hfront
      have hfirst : FieldType (String.ofList t).toList := by rwa [String.toList_ofList]
      refine ⟨List.forall_mem_cons.mpr ⟨hfirst, htypes⟩, ?_⟩
      rw [List.flatMap_cons, String.toList_ofList]
    · exact hne
  | case4 bound cs hne hfront =>
    rw [fieldTypesWithin, hfront] at h
    · cases h
    · exact hne

/-- A text is read as field types just if it is their concatenation. -/
theorem fieldTypes?_eq_some_iff {cs : List Char} {ts : List String} :
    fieldTypes? cs = some ts ↔ (∀ t ∈ ts, FieldType t.toList) ∧ cs = ts.flatMap String.toList := by
  constructor
  · exact fieldTypesWithin_eq_some
  · rintro ⟨htypes, rfl⟩
    exact fieldTypesWithin_flatMap htypes (Nat.le_refl _)

/-- Field types that follow one another are read one after the other. -/
theorem fieldTypes?_append {cs cs' : List Char} {ts ts' : List String} (h : fieldTypes? cs = some ts)
    (h' : fieldTypes? cs' = some ts') : fieldTypes? (cs ++ cs') = some (ts ++ ts') := by
  obtain ⟨htypes, rfl⟩ := fieldTypes?_eq_some_iff.mp h
  obtain ⟨htypes', rfl⟩ := fieldTypes?_eq_some_iff.mp h'
  rw [fieldTypes?_eq_some_iff, List.flatMap_append]
  exact ⟨fun t ht => (List.mem_append.mp ht).elim (htypes t) (htypes' t), rfl⟩

theorem fieldTypes?_single {t : String} (h : FieldType t.toList) : fieldTypes? t.toList = some [t] :=
  fieldTypes?_eq_some_iff.mpr ⟨by simpa using h, by simp⟩

/-! ## Method descriptors -/

namespace Signature

/-- A descriptor whose parameters do not contain a closing parenthesis is read part by part. -/
theorem parse?_of_parts {s : String} {params result : List Char} {ts : List String}
    {r : String} (hs : s.toList = '(' :: (params ++ ')' :: result))
    (hparams : fieldTypes? params = some ts) (hclosed : ')' ∉ params)
    (hresult : result? result = some r) : parse? s = some ⟨ts, r⟩ := by
  have hcut := Text.cutAt?_char_eq_some_iff.mpr ⟨@rfl _ (params ++ ')' :: result), hclosed⟩
  simp only [parse?, hs, hcut, hparams, hresult]

/-- The descriptor that the types make up. -/
def text (g : Signature) : String := "(" ++ String.join g.params ++ ")" ++ g.result

/-- The types are such that a descriptor can be made up of them: none of the parameters contains the
parenthesis that closes them. -/
structure WellFormed (g : Signature) : Prop where
  params : ∀ t ∈ g.params, FieldType t.toList ∧ ')' ∉ t.toList
  result : g.result = "V" ∨ FieldType g.result.toList

theorem result?_eq_some_iff {cs : List Char} {r : String} :
    result? cs = some r ↔ cs = r.toList ∧ (r = "V" ∨ FieldType r.toList) := by
  unfold result?
  constructor
  · intro h
    split at h
    · rename_i hvoid
      cases h
      exact ⟨hvoid, .inl rfl⟩
    · split at h
      · rename_i t htypes
        cases h
        obtain ⟨htype, rfl⟩ := fieldTypes?_eq_some_iff.mp htypes
        exact ⟨by simp, .inr (htype _ List.mem_cons_self)⟩
      · cases h
  · rintro ⟨rfl, rfl | htype⟩
    · rfl
    · have hvalue : r.toList ≠ ['V'] := by
        intro heq
        rw [heq] at htype
        cases htype with
        | base hc => exact absurd hc (by decide)
      rw [if_neg hvalue, fieldTypes?_single htype]

/-- What is read as a descriptor is the descriptor of the types that are read. -/
theorem parse?_eq_some {s : String} {g : Signature} (h : parse? s = some g) :
    s = g.text ∧ g.WellFormed := by
  unfold parse? at h
  split at h
  · rename_i cs hs
    split at h
    · rename_i before after hcut
      split at h
      · rename_i params result hparams hresult
        cases h
        obtain ⟨rfl, hclosed⟩ := Text.cutAt?_char_eq_some_iff.mp hcut
        obtain ⟨htypes, rfl⟩ := fieldTypes?_eq_some_iff.mp hparams
        obtain ⟨rfl, htype⟩ := result?_eq_some_iff.mp hresult
        refine ⟨?_, ⟨fun t ht => ⟨htypes t ht, fun hclosing => ?_⟩, htype⟩⟩
        · rw [← String.toList_inj, hs]
          simp [text]
        · exact hclosed (List.mem_flatMap.mpr ⟨t, ht, hclosing⟩)
      · cases h
    · cases h
  · cases h

/-- A text is read as a descriptor just if it is the descriptor of field types. -/
theorem parse?_eq_some_iff {s : String} {g : Signature} :
    parse? s = some g ↔ s = g.text ∧ g.WellFormed := by
  refine ⟨parse?_eq_some, ?_⟩
  rintro ⟨rfl, hwell⟩
  have hparts : g.text.toList = '(' :: (g.params.flatMap String.toList ++ ')' :: g.result.toList) := by
    simp [text]
  refine parse?_of_parts hparts ?_ ?_ ?_
  · exact fieldTypes?_eq_some_iff.mpr ⟨fun t ht => (hwell.params t ht).1, rfl⟩
  · intro hclosing
    obtain ⟨t, ht, hclosing⟩ := List.mem_flatMap.mp hclosing
    exact (hwell.params t ht).2 hclosing
  · exact result?_eq_some_iff.mpr ⟨rfl, hwell.result⟩

end Signature

end Lowering
