-- SUMMARY: What indirect calls expand to, and which of them take the method handle that they load.
import Lowering.Proofs.Bootstraps
import Lowering.Proofs.Comparison.Expansion
import Lowering.Proofs.Replacement

/-!
# Indirect calls

An indirect call exchanges the index on the stack for the method handle at that index of a table, and then
calls the handle. The descriptor of that call is made from the signature in the operands, by replacing an
index that stands before a closing parenthesis. Whether the call takes the handle thus depends on the text of
the signature, and nothing checks that it does.
-/

namespace Lowering

theorem Operands.mapFirstText_mapFirstText (f g : String → String) (ops : Operands) :
    (ops.mapFirstText g).mapFirstText f = ops.mapFirstText fun s => f (g s) := by
  rcases ops with _ | ⟨⟨s⟩ | ⟨l⟩, rest⟩ <;> rfl

namespace Catalog

/-! ## Expansion -/

/-- The instructions that exchange an index on the stack for the handle at that index of the table. -/
def handleLoad (t : String) : List Primitive :=
  [.insn "getstatic" ["__Table__" ++ t, tableType], .insn "swap" [],
   .insn "invokevirtual" ["wasmrun/Table/getMH(I)Ljava/lang/invoke/MethodHandle;"]]

/-- The call of the handle. -/
def handleCall : CallSpec where
  name := "invokeExact"
  descriptor := none
  bootstrap := { owner := tableClass, method := "callIndirectBootstrapMH" }

/-- The descriptor that the call of the handle reads, before it is translated once more. -/
def withHandle (s : String) : String :=
  Text.replaceAll (wasmStyle.toTarget s) "I)" (methodHandleType ++ ")")

theorem jvm_getstatic : jvm.find? "getstatic" = some ⟨"getstatic", .two⟩ := by decide +kernel

section

variable {scope : Scope} (hisa : scope.table.isa = jvm) (hstyle : scope.table.style = some wasmStyle)
include hstyle

theorem callDescriptor_handleCall_eq_ok_iff {inv inv' : Invocation} {d : String} :
    scope.callDescriptor handleCall inv = .ok (d, inv') ↔
      ∃ f rest, inv.operands = f :: rest ∧ CallSpec.resolve? (some wasmStyle) f.shown = some d ∧
        inv' = { inv with operands := rest } := by
  simp only [Scope.callDescriptor, handleCall, hstyle]
  cases hoperands : inv.operands with
  | nil => simp [Invocation.take, hoperands, Operands.takeText, bind, Except.bind]
  | cons f rest =>
    have htake : inv.take (Operands.takeText "call site descriptor") =
        .ok (f.shown, { inv with operands := rest }) := by
      simp only [Invocation.take, hoperands, Operands.takeText]
    rw [bind_of_ok htake]
    dsimp only
    constructor
    · intro h
      split at h
      · cases h
        exact ⟨f, rest, rfl, ‹_›, rfl⟩
      · cases h
    · rintro ⟨f', rest', heq, hresolve, rfl⟩
      cases heq
      rw [hresolve]
      rfl

/-- The call of the handle takes its descriptor from the operands, and adds a call site without static
arguments. -/
theorem emitCall_handleCall_eq_ok_iff {inv inv' : Invocation} :
    scope.emitCall handleCall inv = .ok inv' ↔
      ∃ f rest d, inv.operands = f :: rest ∧ CallSpec.resolve? (some wasmStyle) f.shown = some d ∧
        inv' = { inv with operands := rest, nextSite := inv.nextSite + 1 }.emit
          (.dynCall (handleCall.site inv.nextSite d [])) := by
  constructor
  · intro h
    obtain ⟨⟨d, inv₁⟩, hdescriptor, h⟩ := ok_of_bind_ok h
    obtain ⟨f, rest, hoperands, hresolve, rfl⟩ :=
      (callDescriptor_handleCall_eq_ok_iff hstyle).mp hdescriptor
    cases h
    exact ⟨f, rest, d, hoperands, hresolve, rfl⟩
  · rintro ⟨f, rest, d, hoperands, hresolve, rfl⟩
    have hdescriptor :=
      (callDescriptor_handleCall_eq_ok_iff hstyle).mpr ⟨f, rest, hoperands, hresolve, rfl⟩
    exact bind_of_ok hdescriptor _

include hisa

/-- With a first operand, the handle is loaded, and its call reads the second operand. -/
theorem runAll_callIndirect (onCall : CallHandler) {inv inv' : Invocation} {t : String}
    {rest : Operands} (hoperands : inv.operands = .text t :: rest)
    (hloaded : { inv.emitAll (handleLoad t) with operands := rest.mapFirstText withHandle } = inv') :
    Op.runAll scope onCall none inv callIndirect = inv'.orHalt (scope.emitCall handleCall inv') := by
  have hget : scope.table.isa.find? "getstatic" = some ⟨"getstatic", .two⟩ := hisa ▸ jvm_getstatic
  have hswap : scope.table.isa.find? "swap" = some ⟨"swap", .none⟩ := by
    rw [hisa]
    decide +kernel
  have hinvoke : scope.table.isa.find? "invokevirtual" = some ⟨"invokevirtual", .one⟩ := by
    rw [hisa]
    decide +kernel
  have hmethod : toString tableClass ++ toString "/" ++ toString "getMH" ++
      toString "(I)Ljava/lang/invoke/MethodHandle;" =
        "wasmrun/Table/getMH(I)Ljava/lang/invoke/MethodHandle;" := by
    decide +kernel
  have hhandle : "Ljava/lang/invoke/MethodHandle;)" = methodHandleType ++ ")" := by decide +kernel
  obtain ⟨operands, nesting, nextSite, annotated, localLabel, primitives, notices⟩ := inv
  subst hoperands
  -- The name of the table and its type
  refine Op.runAll_act rfl ?_
  refine Op.runAll_act rfl ?_
  refine Op.runAll_act rfl ?_
  refine Op.runAll_act (Scope.emitNamed_two hget rfl) ?_
  refine Op.runAll_act (Scope.emitNamed_none hswap _) ?_
  -- The method of the table
  refine Op.runAll_act rfl ?_
  refine Op.runAll_act (Scope.emitNamed_one hinvoke rfl) ?_
  -- The signature
  refine Op.runAll_act rfl ?_
  refine Op.runAll_act rfl ?_
  refine (Op.runAll_singleton ..).trans
    (congrArg (fun inv => inv.orHalt (scope.emitCall handleCall inv)) (Eq.trans ?_ hloaded))
  simp only [Operands.mapFirstText_mapFirstText, Invocation.emit, Invocation.emitAll, Table.naming, hstyle,
    targetDescriptor, handleLoad, hmethod, hhandle, String.append_empty, Field.shown, List.append_assoc,
    List.cons_append, List.nil_append]
  rfl

omit hstyle in
theorem runAll_callIndirect_nil (onCall : CallHandler) {inv : Invocation} (hoperands : inv.operands = []) :
    Op.runAll scope onCall none inv callIndirect =
      .error ⟨.missing "getstatic operand", inv.unit⟩ := by
  have hget : scope.table.isa.find? "getstatic" = some ⟨"getstatic", .two⟩ := hisa ▸ jvm_getstatic
  obtain ⟨operands, nesting, nextSite, annotated, localLabel, primitives, notices⟩ := inv
  subst hoperands
  refine Op.runAll_act rfl (Op.runAll_act rfl (Op.runAll_act rfl ?_))
  refine (Op.runAll_cons ..).trans ?_
  simp only [Op.emit, Op.run, Scope.perform, Scope.emitNamed, hget]
  rfl

/-- The operands are used up if there are two of them and the second one becomes a method descriptor. -/
theorem runAll_callIndirect_eq_ok_iff (onCall : CallHandler) {state : UnitState} {operands : List String}
    {inv : Invocation} :
    Op.runAll scope onCall none (state.start operands) callIndirect = .ok inv ∧ inv.operands = [] ↔
      ∃ t s d, operands = [t, s] ∧ CallSpec.resolve? (some wasmStyle) (withHandle s) = some d ∧
        inv = (UnitState.start ⟨state.nesting, state.nextSite + 1⟩ []).emitAll
          (handleLoad t ++ [.dynCall (handleCall.site state.nextSite d [])]) := by
  cases operands with
  | nil =>
    rw [runAll_callIndirect_nil hisa onCall rfl]
    simp
  | cons t rest =>
    rw [runAll_callIndirect hisa hstyle onCall rfl rfl, Invocation.orHalt_eq_ok_iff,
      emitCall_handleCall_eq_ok_iff hstyle]
    constructor
    · rintro ⟨⟨f, rest', d, hrest, hresolve, rfl⟩, hoperands⟩
      cases hoperands
      rcases rest with _ | ⟨s, _ | ⟨_, _⟩⟩
      · cases hrest
      · cases hrest
        exact ⟨t, s, d, rfl, hresolve, rfl⟩
      · cases hrest
    · rintro ⟨t', s, d, heq, hresolve, rfl⟩
      cases heq
      exact ⟨⟨.text (withHandle s), [], d, rfl, hresolve, rfl⟩, rfl⟩

end

/-- An indirect call is accepted if it has two operands and the second one becomes a method descriptor. It
loads the handle and calls it, and leaves the nesting as it is. -/
theorem expands_callIndirect_iff {className : String} {state state' : UnitState} {operands : List String}
    {ps : List Primitive} :
    state.Expands wasm32Library className ("CALL_INDIRECT", operands) ps state' ↔
      ∃ t s d, operands = [t, s] ∧ CallSpec.resolve? (some wasmStyle) (withHandle s) = some d ∧
        ps = handleLoad t ++ [.dynCall (handleCall.site state.nextSite d [])] ∧
        state' = ⟨state.nesting, state.nextSite + 1⟩ := by
  have he : external "CALL_INDIRECT" callIndirect ∈ wasm32Library.table.entries :=
    controlEntries_subset (by simp [controlEntries])
  refine (Library.expands_iff he rfl).trans ?_
  constructor
  · rintro ⟨inv, hrun, hoperands, rfl, rfl⟩
    obtain ⟨t, s, d, rfl, hresolve, rfl⟩ :=
      (runAll_callIndirect_eq_ok_iff rfl rfl _).mp ⟨hrun, hoperands⟩
    exact ⟨t, s, d, rfl, hresolve, rfl, rfl⟩
  · rintro ⟨t, s, d, rfl, hresolve, rfl, rfl⟩
    obtain ⟨hrun, hoperands⟩ :=
      (@runAll_callIndirect_eq_ok_iff ⟨wasm32, className, "CALL_INDIRECT"⟩ rfl rfl
        (Scope.call _ wasm32.entries.length) state [t, s] _).mpr ⟨t, s, d, rfl, hresolve, rfl⟩
    exact ⟨_, hrun, hoperands, rfl, rfl⟩

theorem expand_of_resolve? {s d : String}
    (h : CallSpec.resolve? (some wasmStyle) (withHandle s) = some d) (t className : String)
    (state : UnitState) :
    ∃ x, state.expand wasm32Library className "CALL_INDIRECT" [t, s] =
        (.ok x, ⟨state.nesting, state.nextSite + 1⟩) ∧
      x.primitives = handleLoad t ++ [.dynCall (handleCall.site state.nextSite d [])] :=
  expands_callIndirect_iff.mpr ⟨t, s, d, rfl, h, rfl, rfl⟩

end Catalog

/-! ## Closing parentheses of descriptors -/

/-- A semicolon ends a field type. -/
theorem FieldType.semicolon_last {t : List Char} (h : FieldType t) {front back : List Char}
    (ht : t = front ++ ';' :: back) : back = [] := by
  induction h generalizing front with
  | base hc =>
    rcases front with _ | ⟨c, front⟩
    · exact (List.cons.inj ht).2.symm
    · simpa using (List.cons.inj ht).2
  | @object name hname hend =>
    have hlast : ';' ∉ 'L' :: name := by simpa using hend
    exact ((List.append_cons_inj_of_notMem hlast List.not_mem_nil).mp ht).2.2.symm
  | array ht' ih =>
    rcases front with _ | ⟨c, front⟩
    · cases (List.cons.inj ht).1
    · exact ih (List.cons.inj ht).2

namespace Signature

theorem toList_text (g : Signature) :
    g.text.toList = '(' :: g.params.flatMap String.toList ++ ')' :: g.result.toList := by
  simp [text]

theorem WellFormed.unclosed {g : Signature} (h : g.WellFormed) :
    ')' ∉ '(' :: g.params.flatMap String.toList := by
  intro hmem
  rcases List.mem_cons.mp hmem with heq | hmem
  · cases heq
  · obtain ⟨t, ht, hmem⟩ := List.mem_flatMap.mp hmem
    exact (h.params t ht).2 hmem

theorem WellFormed.semicolon_last {g : Signature} (h : g.WellFormed) {front back : List Char}
    (hresult : g.result.toList = front ++ ';' :: back) : back = [] := by
  rcases h.result with hvoid | htype
  · rw [hvoid] at hresult
    rcases front with _ | ⟨c, front⟩
    · cases (List.cons.inj hresult).1
    · simpa using (List.cons.inj hresult).2
  · exact htype.semicolon_last hresult

/-- The first closing parenthesis of a descriptor closes its parameters. -/
theorem WellFormed.parts {g : Signature} (h : g.WellFormed) {front back : List Char}
    (hparts : g.text.toList = front ++ ')' :: back) (hfront : ')' ∉ front) :
    front = '(' :: g.params.flatMap String.toList ∧ back = g.result.toList := by
  have hcut := Text.cutAt?_char_eq_some_iff.mpr ⟨hparts, hfront⟩
  have hcut' := Text.cutAt?_char_eq_some_iff.mpr ⟨g.toList_text, h.unclosed⟩
  exact Prod.mk.inj (Option.some.inj (hcut.symm.trans hcut'))

/-- A parenthesis that follows a semicolon closes the parameters too, since no result has it. -/
theorem WellFormed.parts_semicolon {g : Signature} (h : g.WellFormed) {front back : List Char}
    (hparts : g.text.toList = front ++ ';' :: ')' :: back) : ')' ∉ front ∧ back = g.result.toList := by
  have hfront : ')' ∉ front := by
    intro hmem
    obtain ⟨before, behind, rfl, hbefore⟩ := List.eq_append_cons_of_mem hmem
    rw [List.append_assoc] at hparts
    cases h.semicolon_last (h.parts hparts hbefore).2.symm
  have hclosed : ')' ∉ front ++ [';'] := by simpa using hfront
  rw [List.append_cons] at hparts
  exact ⟨hfront, (h.parts hparts hclosed).2⟩

/-- The last parameter of a descriptor may be exchanged for another type. -/
theorem parse?_exchange_last {front back t t' r : String} {ts : List String} (hfront : ')' ∉ front.toList)
    (ht : ')' ∉ t.toList) (ht' : FieldType t'.toList ∧ ')' ∉ t'.toList)
    (h : parse? (front ++ (t ++ ")") ++ back) = some ⟨ts ++ [t], r⟩) :
    parse? (front ++ (t' ++ ")") ++ back) = some ⟨ts ++ [t'], r⟩ := by
  obtain ⟨htext, hwell⟩ := parse?_eq_some h
  have hclosed : ')' ∉ front.toList ++ t.toList := by simpa using ⟨hfront, ht⟩
  obtain ⟨hparams, hback⟩ : front.toList ++ t.toList = _ ∧ back.toList = r.toList := by
    refine hwell.parts ?_ hclosed
    rw [← htext]
    simp
  have hopen : front.toList = '(' :: ts.flatMap String.toList := by
    apply (List.append_left_inj t.toList).mp
    simpa using hparams
  refine parse?_eq_some_iff.mpr ⟨?_, ?_, hwell.result⟩
  · rw [← String.toList_inj, toList_text]
    simp [hopen, hback]
  · intro u hu
    rcases List.mem_append.mp hu with hu | hu
    · exact hwell.params u (List.mem_append_left _ hu)
    · obtain rfl := List.mem_singleton.mp hu
      exact ht'

end Signature

/-! ## Translation of the signature -/

namespace SignatureStyle

/-- The replacements of a style, in their order. -/
def rules (style : SignatureStyle) : List (String × String) :=
  style.voidMarkers.map (fun marker => (marker, "V")) ++ [(style.arrow, ""), (style.separator, "")] ++
    style.types

/-- All replacements of a style, or none. -/
def rewrite (style : SignatureStyle) (source : Bool) (s : String) : String :=
  if source then Text.replaceEach s style.rules else s

theorem toTarget_eq_rewrite (style : SignatureStyle) (s : String) :
    style.toTarget s = style.rewrite (Text.contains s style.arrow) s := by
  cases h : Text.contains s style.arrow with
  | false =>
    rw [toTarget, if_neg (Bool.eq_false_iff.mp h)]
    rfl
  | true =>
    rw [toTarget_eq h]
    simp [rewrite, rules, Text.replaceEach, List.foldl_append]

theorem rewrite_around {style : SignatureStyle} {middle : String}
    (h : style.rules.all (fun rule => Text.apart rule.1.toList middle.toList) = true) (source : Bool)
    (before behind : String) :
    style.rewrite source (before ++ middle ++ behind) =
      style.rewrite source before ++ middle ++ style.rewrite source behind := by
  cases source with
  | false => rfl
  | true => exact Text.replaceEach_around h before behind

end SignatureStyle

namespace Catalog

theorem rules_apart_index :
    wasmStyle.rules.all (fun rule => Text.apart rule.1.toList "I)".toList) = true := by
  decide +kernel

theorem rules_apart_handle :
    wasmStyle.rules.all (fun rule => Text.apart rule.1.toList (methodHandleType ++ ")").toList) = true := by
  decide +kernel

/-- The handle takes the place of an index that stands before a closing parenthesis. The second translation
goes on separately on the two sides of the index, and of the handle. -/
theorem toTarget_withHandle (s : String) :
    let target := wasmStyle.toTarget s
    Text.contains target "I)" = false ∧ wasmStyle.toTarget (withHandle s) = wasmStyle.toTarget target ∨
      Text.contains target "I)" = true ∧ ∃ front back back',
        wasmStyle.toTarget target = front ++ "I)" ++ back ∧
        wasmStyle.toTarget (withHandle s) = front ++ (methodHandleType ++ ")") ++ back' ∧
        (back' = back ∨
          Text.contains back "I)" = true ∧ Text.contains back' (methodHandleType ++ ")") = true) := by
  intro target
  have hne : "I)".toList ≠ [] := by decide
  cases hindex : Text.contains target "I)" with
  | false =>
    refine .inl ⟨rfl, ?_⟩
    rw [withHandle, Text.replaceAll_absent hne hindex]
  | true =>
    refine .inr ⟨rfl, ?_⟩
    obtain ⟨before, behind, htarget, hreplaced⟩ :=
      Text.replaceAll_first hne hindex (methodHandleType ++ ")")
    have harrow : Text.contains (withHandle s) wasmStyle.arrow = Text.contains target wasmStyle.arrow :=
      Text.contains_replaceAll (by decide +kernel) (by decide +kernel) hne target
    rw [SignatureStyle.toTarget_eq_rewrite, SignatureStyle.toTarget_eq_rewrite, harrow, withHandle, hreplaced]
    generalize Text.contains target wasmStyle.arrow = source
    rw [htarget, SignatureStyle.rewrite_around rules_apart_index,
      SignatureStyle.rewrite_around rules_apart_handle]
    refine ⟨_, _, _, rfl, rfl, ?_⟩
    cases hmore : Text.contains behind "I)" with
    | false => exact .inl (by rw [Text.replaceAll_absent hne hmore])
    | true =>
      obtain ⟨before', behind', rfl, hreplaced'⟩ :=
        Text.replaceAll_first hne hmore (methodHandleType ++ ")")
      rw [hreplaced', SignatureStyle.rewrite_around rules_apart_index,
        SignatureStyle.rewrite_around rules_apart_handle]
      exact .inr ⟨Text.contains_append .., Text.contains_append ..⟩

theorem methodHandleType_fieldType :
    FieldType methodHandleType.toList ∧ ')' ∉ methodHandleType.toList :=
  ⟨@FieldType.object "java/lang/invoke/MethodHandle".toList (by decide) (by decide), by decide⟩

/-! ## Signatures with a trailing index -/

theorem contains_of_trailing {d : String} {ts : List String} {r : String}
    (h : Signature.parse? d = some ⟨ts ++ ["I"], r⟩) : Text.contains d "I)" = true := by
  rw [Text.contains_eq_true_iff, (Signature.parse?_eq_some h).1, Signature.toList_text]
  exact ⟨'(' :: ts.flatMap String.toList, r.toList, by simp⟩

/-- The handle takes the place of a trailing index, where no arrow is left to be translated. -/
theorem parse?_withHandle {s : String} {ts : List String} {r : String}
    (hparse : Signature.parse? (wasmStyle.toTarget s) = some ⟨ts ++ ["I"], r⟩)
    (harrow : Text.contains (wasmStyle.toTarget s) wasmStyle.arrow = false) (hresult : ')' ∉ r.toList) :
    Signature.parse? (wasmStyle.toTarget (withHandle s)) = some ⟨ts ++ [methodHandleType], r⟩ := by
  obtain ⟨htext, hwell⟩ := Signature.parse?_eq_some hparse
  have hparts := Signature.toList_text ⟨ts ++ ["I"], r⟩
  rw [← htext] at hparts
  have hcases := toTarget_withHandle s
  have hstable : wasmStyle.toTarget (wasmStyle.toTarget s) = wasmStyle.toTarget s :=
    if_neg (Bool.eq_false_iff.mp harrow)
  simp only [hstable] at hcases
  obtain ⟨habsent, -⟩ | ⟨-, front, back, back', htarget, hcall, hback⟩ := hcases
  · cases habsent.symm.trans (contains_of_trailing hparse)
  · have hchars : (wasmStyle.toTarget s).toList = (front.toList ++ ['I']) ++ ')' :: back.toList := by
      rw [htarget]
      simp
    obtain ⟨hfront, -, hrest⟩ :=
      (List.append_cons_inj_of_notMem hwell.unclosed hresult).mp (hparts.symm.trans hchars)
    have hopen : ')' ∉ front.toList := fun hmem => hwell.unclosed (hfront ▸ List.mem_append_left _ hmem)
    obtain rfl : back' = back := by
      rcases hback with heq | ⟨hmore, -⟩
      · exact heq
      · have hmem := (Text.contains_eq_true_iff.mp hmore).subset (show ')' ∈ "I)".toList by decide)
        exact absurd (hrest ▸ hmem) hresult
    rw [hcall]
    refine Signature.parse?_exchange_last (t := "I") hopen (by decide) methodHandleType_fieldType ?_
    rw [← hparse, htarget]
    rfl

section

variable (s : SourceSignature)

theorem target_parse? : Signature.parse? (wasmStyle.toTarget s.text) = some s.target :=
  Signature.parse?_eq_some_iff.mpr ⟨wasmStyle_toTarget s, target_wellFormed s⟩

theorem target_no_arrow : Text.contains (wasmStyle.toTarget s.text) wasmStyle.arrow = false := by
  rw [wasmStyle_toTarget]
  apply Text.contains_eq_false (show '-' ∈ wasmStyle.arrow.toList by decide)
  exact fun hmem => (target_plain s hmem).1 rfl

theorem target_result_unclosed : ')' ∉ s.target.result.toList := by
  show ')' ∉ s.result.code.toList
  cases s.result with
  | value word => exact word.type.code_fieldType.2
  | empty | void => decide

end

theorem resolve?_of_parse? {s : String} {g : Signature}
    (h : Signature.parse? (wasmStyle.toTarget s) = some g) :
    ∃ d, CallSpec.resolve? (some wasmStyle) s = some d ∧ Signature.parse? d = some g := by
  refine ⟨wasmStyle.toTarget s, ?_, h⟩
  rw [CallSpec.resolve?]
  exact if_pos (by rw [targetDescriptor, h, Option.isSome_some])

/-- An indirect call whose signature has a trailing index, whatever the other parameters and the result,
loads the handle at that index and calls it with a descriptor that takes the handle after the others. -/
theorem callIndirect_trailing_index (t : String) (params : List TypeWord) (result : ResultWord)
    (className : String) (state : UnitState) :
    let signature : SourceSignature := ⟨params ++ [.name .i32], result⟩
    ∃ x site,
      state.expand wasm32Library className "CALL_INDIRECT" [t, signature.text] =
        (.ok x, ⟨state.nesting, state.nextSite + 1⟩) ∧
      x.primitives =
        [.insn "getstatic" ["__Table__" ++ t, "Lwasmrun/Table;"], .insn "swap" [],
         .insn "invokevirtual" ["wasmrun/Table/getMH(I)Ljava/lang/invoke/MethodHandle;"],
         .dynCall site] ∧
      site.name = "invokeExact" ∧ site.args = [] ∧ site.id = state.nextSite ∧
      Signature.parse? site.descriptor =
        some ⟨params.map (fun word => word.type.code) ++ ["Ljava/lang/invoke/MethodHandle;"],
          result.code⟩ := by
  intro signature
  have htarget : signature.target = ⟨params.map (fun word => word.type.code) ++ ["I"], result.code⟩ := by
    simp [signature, SourceSignature.target, TypeWord.type, ValueType.code]
  obtain ⟨d, hresolve, hparse⟩ := resolve?_of_parse? (parse?_withHandle
    (htarget ▸ target_parse? signature) (target_no_arrow signature) (target_result_unclosed signature))
  obtain ⟨x, hexpand, hprimitives⟩ := expand_of_resolve? hresolve t className state
  exact ⟨x, _, hexpand, hprimitives, rfl, rfl, rfl, hparse⟩

/-! ## All signatures -/

/-- A call site takes the handle last if the translated signature does so already, or has an index in that
place, provided that the index stands there before the second translation. -/
theorem handle_last_iff {s : String} {sig : Signature}
    (hparse : Signature.parse? (wasmStyle.toTarget (withHandle s)) = some sig) :
    sig.params.getLast? = some methodHandleType ↔
      ∃ g, Signature.parse? (wasmStyle.toTarget (wasmStyle.toTarget s)) = some g ∧
        (g.params.getLast? = some methodHandleType ∨
          g.params.getLast? = some "I" ∧ Text.contains (wasmStyle.toTarget s) "I)" = true) := by
  obtain ⟨habsent, hsame⟩ | ⟨hindex, front, back, back', htarget, hcall, hback⟩ := toTarget_withHandle s
  · rw [← hsame, hparse, habsent]
    simp
  · let name := "Ljava/lang/invoke/MethodHandle".toList
    have hend : methodHandleType.toList = name ++ [';'] := by decide
    obtain ⟨htext, hwell⟩ := Signature.parse?_eq_some hparse
    obtain ⟨hfront, hresult⟩ : ')' ∉ front.toList ++ name ∧ back'.toList = sig.result.toList := by
      apply hwell.parts_semicolon
      rw [← htext, hcall]
      simp [hend]
    have hopen : ')' ∉ front.toList := fun hmem => hfront (List.mem_append_left _ hmem)
    obtain rfl : back' = back := by
      rcases hback with heq | ⟨-, hmore⟩
      · exact heq
      · -- A second handle would be in the result.
        obtain ⟨before, behind, hchars⟩ := Text.contains_eq_true_iff.mp hmore
        have hgoes : sig.result.toList = (before ++ name) ++ ';' :: ')' :: behind := by
          rw [← hresult, ← hchars]
          simp [hend]
        cases hwell.semicolon_last hgoes
    obtain ⟨params, r⟩ := sig
    rw [hcall] at hparse
    rw [htarget]
    constructor
    · intro hlast
      obtain ⟨ts, rfl⟩ := List.getLast?_eq_some_iff.mp hlast
      have hexchanged := @Signature.parse?_exchange_last _ _ _ "I" _ _ hopen methodHandleType_fieldType.2
        ⟨.base (by decide), by decide⟩ hparse
      exact ⟨_, hexchanged, .inr ⟨by simp, hindex⟩⟩
    · rintro ⟨⟨params', r'⟩, hg, hlast | ⟨hlast, -⟩⟩
      · -- The parameters would end both in an index and in a handle.
        obtain ⟨ts, rfl⟩ : ∃ ts, params' = ts ++ [methodHandleType] := List.getLast?_eq_some_iff.mp hlast
        obtain ⟨htext', hwell'⟩ := Signature.parse?_eq_some hg
        have hindexed : (⟨ts ++ [methodHandleType], r'⟩ : Signature).text.toList =
            (front.toList ++ ['I']) ++ ')' :: back'.toList := by
          rw [← htext']
          simp
        have hparams := (hwell'.parts hindexed (by simpa using hopen)).1
        have hchars := congrArg List.getLast? hparams
        rw [List.flatMap_append, List.flatMap_singleton, hend, ← List.append_assoc, ← List.cons_append,
          List.getLast?_concat, List.getLast?_concat] at hchars
        cases hchars
      · obtain ⟨ts, rfl⟩ : ∃ ts, params' = ts ++ ["I"] := List.getLast?_eq_some_iff.mp hlast
        have hexchanged := Signature.parse?_exchange_last (t := "I") hopen (by decide)
          methodHandleType_fieldType hg
        obtain ⟨rfl, -⟩ := Signature.mk.inj (Option.some.inj (hexchanged.symm.trans hparse))
        simp

/-- In the descriptor of a source signature, only a trailing index stands before a parenthesis. -/
theorem trailing_of_contains {s : SourceSignature}
    (h : Text.contains (wasmStyle.toTarget s.text) "I)" = true) :
    ∃ front, s.target.params = front ++ ["I"] := by
  obtain ⟨before, behind, hchars⟩ := Text.contains_eq_true_iff.mp h
  rw [wasmStyle_toTarget] at hchars
  have hparts : '(' :: s.target.params.flatMap String.toList ++ ')' :: s.target.result.toList =
      (before ++ ['I']) ++ ')' :: behind := by
    rw [← Signature.toList_text, ← hchars]
    simp
  have hfront := ((List.append_cons_inj_of_notMem (target_wellFormed s).unclosed
    (target_result_unclosed s)).mp hparts).1
  have hlast := congrArg List.getLast? hfront
  rw [List.getLast?_concat] at hlast
  obtain ⟨params, result⟩ := s
  rcases List.eq_nil_or_concat params with rfl | ⟨front, word, rfl⟩
  · cases hlast
  · have hparams : (⟨front.concat word, result⟩ : SourceSignature).target.params =
        front.map (fun word => word.type.code) ++ [word.type.code] := by
      simp [SourceSignature.target]
    rw [hparams, List.flatMap_append, List.flatMap_singleton, ← List.cons_append,
      List.getLast?_append] at hlast
    cases htype : word.type with
    | i32 => exact ⟨_, htype ▸ hparams⟩
    | i64 | f32 | f64 =>
      rw [htype] at hlast
      cases hlast

/-- Every source signature is accepted in an indirect call, but the call takes the handle only if the last
parameter of the signature is an index. -/
theorem callIndirect_source_iff (t : String) (s : SourceSignature) (className : String)
    (state : UnitState) :
    ∃ x site signature,
      state.expand wasm32Library className "CALL_INDIRECT" [t, s.text] =
        (.ok x, ⟨state.nesting, state.nextSite + 1⟩) ∧
      x.primitives = handleLoad t ++ [.dynCall site] ∧
      Signature.parse? site.descriptor = some signature ∧
      (signature.params.getLast? = some methodHandleType ↔
        ∃ word, s.params.getLast? = some word ∧ word.type = .i32) := by
  have hstable : wasmStyle.toTarget (wasmStyle.toTarget s.text) = wasmStyle.toTarget s.text :=
    if_neg (Bool.eq_false_iff.mp (target_no_arrow s))
  obtain ⟨signature, hsignature⟩ :
      ∃ signature, Signature.parse? (wasmStyle.toTarget (withHandle s.text)) = some signature := by
    obtain ⟨-, hsame⟩ | ⟨hindex, -⟩ := toTarget_withHandle s.text
    · exact ⟨_, by rw [hsame, hstable, target_parse?]⟩
    · obtain ⟨front, hfront⟩ := trailing_of_contains hindex
      have hparse : Signature.parse? (wasmStyle.toTarget s.text) =
          some ⟨front ++ ["I"], s.target.result⟩ := by
        rw [target_parse?, ← hfront]
      exact ⟨_, parse?_withHandle hparse (target_no_arrow s) (target_result_unclosed s)⟩
  obtain ⟨d, hresolve, hparse⟩ := resolve?_of_parse? hsignature
  obtain ⟨x, hexpand, hprimitives⟩ := expand_of_resolve? hresolve t className state
  refine ⟨x, _, signature, hexpand, hprimitives, hparse, ?_⟩
  have hlast : s.target.params.getLast? = s.params.getLast?.map fun word => word.type.code :=
    List.getLast?_map
  rw [handle_last_iff hsignature, hstable, target_parse?]
  constructor
  · rintro ⟨g, hg, hend⟩
    obtain rfl := Option.some.inj hg
    rw [hlast, Option.map_eq_some_iff, Option.map_eq_some_iff] at hend
    obtain ⟨word, hword, hcode⟩ | ⟨⟨word, hword, hcode⟩, -⟩ := hend
    all_goals exact ⟨word, hword, by revert hcode; cases word.type <;> decide⟩
  · rintro ⟨word, hword, htype⟩
    have hindex : s.target.params.getLast? = some "I" := by
      rw [hlast, hword, Option.map_some, htype]
      rfl
    obtain ⟨front, hfront⟩ := List.getLast?_eq_some_iff.mp hindex
    exact ⟨_, rfl, .inr ⟨hindex, contains_of_trailing (by rw [target_parse?, ← hfront])⟩⟩

/-- An accepted indirect call loads a handle, but its call takes the handle last only if the translated
signature has an index or a handle as its last parameter. -/
theorem callIndirect_takes_handle_iff {className : String} {state state' : UnitState}
    {operands : List String} {x : Expansion}
    (h : state.expand wasm32Library className "CALL_INDIRECT" operands = (.ok x, state')) :
    ∃ t s site signature, operands = [t, s] ∧
      x.primitives =
        [.insn "getstatic" ["__Table__" ++ t, "Lwasmrun/Table;"], .insn "swap" [],
         .insn "invokevirtual" ["wasmrun/Table/getMH(I)Ljava/lang/invoke/MethodHandle;"],
         .dynCall site] ∧
      site.name = "invokeExact" ∧ Signature.parse? site.descriptor = some signature ∧
      (signature.params.getLast? = some "Ljava/lang/invoke/MethodHandle;" ↔
        ∃ g, Signature.parse? (wasmStyle.toTarget (wasmStyle.toTarget s)) = some g ∧
          (g.params.getLast? = some "Ljava/lang/invoke/MethodHandle;" ∨
            g.params.getLast? = some "I" ∧ Text.contains (wasmStyle.toTarget s) "I)" = true)) := by
  obtain ⟨t, s, d, rfl, hresolve, hprimitives, rfl⟩ := expands_callIndirect_iff.mp ⟨x, h, rfl⟩
  obtain ⟨signature, hparse⟩ := Option.isSome_iff_exists.mp (CallSpec.parse?_of_resolve? hresolve)
  have htarget : wasmStyle.toTarget (withHandle s) = d := by
    simp only [CallSpec.resolve?, Option.ite_none_right_eq_some, Option.some.injEq] at hresolve
    exact hresolve.2
  exact ⟨t, s, _, signature, rfl, hprimitives, rfl, hparse, handle_last_iff (htarget ▸ hparse)⟩

/-- The index after a double is exchanged for the handle, which the call takes. -/
theorem callIndirect_takes_handle_double :
    ∃ x state' site signature,
      ({} : UnitState).expand wasm32Library "Module" "CALL_INDIRECT" ["0", "(F64,I32)->I32"] =
        (.ok x, state') ∧
      .dynCall site ∈ x.primitives ∧ Signature.parse? site.descriptor = some signature ∧
      signature.params.getLast? = some "Ljava/lang/invoke/MethodHandle;" := by
  have hresolve : CallSpec.resolve? (some wasmStyle) (withHandle "(F64,I32)->I32") =
      some "(DLjava/lang/invoke/MethodHandle;)I" := by
    decide +kernel
  obtain ⟨x, hexpand, -⟩ := expand_of_resolve? hresolve "0" "Module" {}
  obtain ⟨t, s, site, signature, hoperands, hprimitives, -, hparse, hlast⟩ :=
    callIndirect_takes_handle_iff hexpand
  cases hoperands
  have hsource : Signature.parse? (wasmStyle.toTarget (wasmStyle.toTarget "(F64,I32)->I32")) =
      some ⟨["D", "I"], "I"⟩ := by
    decide +kernel
  refine ⟨x, _, site, signature, hexpand, ?_, hparse, hlast.mpr ⟨_, hsource, .inr ⟨rfl, by decide +kernel⟩⟩⟩
  rw [hprimitives]
  simp

/-- A signature without an index at its end is accepted as well, and then the handle stays on the stack. -/
theorem callIndirect_leaves_handle :
    ∃ x state' site,
      ({} : UnitState).expand wasm32Library "Module" "CALL_INDIRECT" ["0", "(F64)->I32"] = (.ok x, state') ∧
      x.primitives = handleLoad "0" ++ [.dynCall site] ∧ site.name = "invokeExact" ∧
      Signature.parse? site.descriptor = some ⟨["D"], "I"⟩ := by
  have hresolve : CallSpec.resolve? (some wasmStyle) (withHandle "(F64)->I32") = some "(D)I" := by
    decide +kernel
  obtain ⟨x, hexpand, hprimitives⟩ := expand_of_resolve? hresolve "0" "Module" {}
  exact ⟨x, _, _, hexpand, hprimitives, rfl, by decide +kernel⟩

end Catalog

end Lowering
