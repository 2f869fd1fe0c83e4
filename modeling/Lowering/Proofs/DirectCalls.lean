-- SUMMARY: Direct calls translate the owner, the name and the signature of a method each on its own.
import Mathlib.Data.List.TakeWhile
import Lowering.Proofs.Control.Expansion
import Lowering.Proofs.Shipped
import Lowering.Proofs.SourceSignatures

/-!
# Direct calls

A direct call refers to its method by one text, which is taken apart into the owner, the name and the
signature. Each part is translated without regard to the others, and the parts are put together again. The
text that comes out can be taken apart at the same places, so nothing of one part ends up in another, and a
spelling that the translation of signatures replaces is left alone in an owner or a name.
-/

namespace Lowering

/-! ## Method references -/

theorem Text.after?_eq_some_iff {front s rest : String} : after? front s = some rest ↔ s = front ++ rest := by
  constructor
  · intro h
    obtain ⟨cs, hcs, rfl⟩ := Option.map_eq_some_iff.mp h
    rw [← String.toList_inj, dropFront?_eq_some_iff.mp hcs]
    simp
  · rintro rfl
    refine Option.map_eq_some_iff.mpr ⟨rest.toList, ?_, String.ofList_toList⟩
    rw [dropFront?_eq_some_iff, String.toList_append]

/-- A text is divided at a character just if it is there, and before that not. -/
theorem span_ne_eq_iff {c : Char} {cs front rest : List Char} (hrest : rest ≠ []) :
    cs.span (· ≠ c) = (front, rest) ↔ cs = front ++ rest ∧ c ∉ front ∧ rest.head? = some c := by
  rw [List.span_eq_takeWhile_dropWhile, Prod.mk.injEq]
  constructor
  · rintro ⟨rfl, rfl⟩
    refine ⟨List.takeWhile_append_dropWhile.symm, ?_, ?_⟩
    · intro hmem
      simpa using List.mem_takeWhile_imp hmem
    · obtain ⟨d, rest, hd⟩ := List.exists_cons_of_ne_nil hrest
      have hfails := List.head?_dropWhile_not (· ≠ c) cs
      rw [hd] at hfails ⊢
      simpa using hfails
  · rintro ⟨rfl, hfront, hhead⟩
    obtain ⟨rest, rfl⟩ := List.head?_eq_some_iff.mp hhead
    have hkept : ∀ d ∈ front, decide (d ≠ c) = true :=
      fun d hd => decide_eq_true fun heq => hfront (heq ▸ hd)
    rw [List.takeWhile_append_of_pos hkept, List.dropWhile_append_of_pos hkept]
    simp

namespace MethodRef

/-- What stands before the descriptor. -/
def head (owner : Option String) (name : String) : String := owner.elim "" (· ++ "/") ++ name

/-- The reference as it is written. -/
def text (m : MethodRef) : String := head m.owner m.name ++ m.descriptor

/-- The parts can be told apart in the text: the descriptor starts at the first parenthesis, and the name
follows the last slash before it. -/
structure WellFormed (m : MethodRef) : Prop where
  owner : ∀ owner ∈ m.owner, '(' ∉ owner.toList
  name : '(' ∉ m.name.toList
  last : '/' ∉ m.name.toList
  named : m.name ≠ ""
  descriptor : m.descriptor.toList.head? = some '('

theorem splitOwner_eq_iff {cs : List Char} {owner : Option String} {name : String} :
    splitOwner cs = (owner, name) ↔ cs = (head owner name).toList ∧ '/' ∉ name.toList := by
  unfold splitOwner
  constructor
  · intro h
    split at h
    · rename_i nameChars ownerChars hcut
      obtain ⟨hchars, hname⟩ := Text.cutAt?_char_eq_some_iff.mp hcut
      cases h
      rw [List.reverse_eq_iff] at hchars
      exact ⟨by simp [head, hchars], by simpa using hname⟩
    · rename_i hcut
      cases h
      rw [Text.cutAt?_char_eq_none_iff] at hcut
      exact ⟨by simp [head], by simpa using hcut⟩
  · rintro ⟨rfl, hname⟩
    have hreverse : '/' ∉ name.toList.reverse := by simpa using hname
    cases owner with
    | none =>
      have hcut : Text.cutAt? (· = '/') (head none name).toList.reverse = none :=
        Text.cutAt?_char_eq_none_iff.mpr (by simpa [head] using hreverse)
      rw [hcut]
      simp [head]
    | some owner =>
      have hcut : Text.cutAt? (· = '/') (head (some owner) name).toList.reverse =
          some (name.toList.reverse, owner.toList.reverse) :=
        Text.cutAt?_char_eq_some_iff.mpr ⟨by simp [head], hreverse⟩
      rw [hcut]
      simp

theorem notMem_head_iff {owner : Option String} {name : String} :
    '(' ∉ (head owner name).toList ↔ (∀ o ∈ owner, '(' ∉ o.toList) ∧ '(' ∉ name.toList := by
  cases owner <;> simp [head]

/-- What is read as a reference is the text of one whose parts can be told apart. -/
theorem parse?_eq_some_iff {s : String} {m : MethodRef} :
    parse? s = some m ↔ s = m.text ∧ m.WellFormed := by
  unfold parse?
  constructor
  · intro h
    split at h
    · cases h
    · rename_i front descriptor hempty hspan
      obtain ⟨hs, hfront, hdescriptor⟩ := (span_ne_eq_iff hempty).mp hspan
      obtain ⟨owner, name, hsplit⟩ : ∃ owner name, splitOwner front = (owner, name) := ⟨_, _, rfl⟩
      obtain ⟨rfl, hlast⟩ := splitOwner_eq_iff.mp hsplit
      obtain ⟨howner, hname⟩ := notMem_head_iff.mp hfront
      simp only [hsplit, Option.ite_none_left_eq_some, Option.some.injEq] at h
      obtain ⟨hnamed, rfl⟩ := h
      refine ⟨?_, howner, hname, hlast, hnamed, by simpa using hdescriptor⟩
      rw [← String.toList_inj, hs]
      simp [text]
  · rintro ⟨rfl, hwell⟩
    have hfront := notMem_head_iff.mpr ⟨hwell.owner, hwell.name⟩
    obtain ⟨rest, hrest⟩ := List.head?_eq_some_iff.mp hwell.descriptor
    have hspan : m.text.toList.span (· ≠ '(') = ((head m.owner m.name).toList, '(' :: rest) :=
      (span_ne_eq_iff (List.cons_ne_nil _ _)).mpr ⟨by simp [text, hrest], hfront, rfl⟩
    have hsplit := splitOwner_eq_iff.mpr ⟨@rfl _ (head m.owner m.name).toList, hwell.last⟩
    rw [hspan]
    simp only [hsplit, if_neg hwell.named, ← hrest, String.ofList_toList]

end MethodRef

/-! ## Owners -/

theorem OwnerRule.rename?_package_eq_some_iff {front home owner renamed : String} :
    rename? owner (.package front home) = some renamed ↔
      owner ≠ "" ∧ owner.toList.count '/' ≤ 1 ∧ (∃ rest, owner = front ++ rest) ∧
        renamed = home ++ Text.capitalized owner := by
  rw [rename?]
  by_cases hskip : owner = "" ∨ 1 < owner.toList.count '/'
  · rw [if_pos hskip]
    refine ⟨nofun, fun ⟨hne, hshort, _⟩ => ?_⟩
    rcases hskip with heq | hlong
    · exact absurd heq hne
    · omega
  · rw [if_neg hskip]
    rw [not_or, Nat.not_lt] at hskip
    cases hafter : Text.after? front owner with
    | none =>
      refine ⟨nofun, fun ⟨_, _, ⟨rest, hrest⟩, _⟩ => ?_⟩
      cases hafter.symm.trans (Text.after?_eq_some_iff.mpr hrest)
    | some rest =>
      constructor
      · intro h
        cases h
        exact ⟨hskip.1, hskip.2, ⟨rest, Text.after?_eq_some_iff.mp hafter⟩, rfl⟩
      · rintro ⟨-, -, -, rfl⟩
        rfl

namespace Catalog

/-- The owner in the target, for one that is written or missing: the class of the unit, a class of the
trampolines, or the owner as it is. -/
inductive CallOwner (className : String) : Option String → String → Prop
  | absent : CallOwner className none className
  | empty : CallOwner className (some "") className
  | dot : CallOwner className (some ".") className
  | wasi (rest : String) (hshort : ("wasi" ++ rest).toList.count '/' ≤ 1) :
      CallOwner className (some ("wasi" ++ rest)) ("wasi/trampoline/Wasi" ++ rest)
  | other {owner : String} (hempty : owner ≠ "") (hdot : owner ≠ ".")
      (hlong : ∀ rest, owner = "wasi" ++ rest → 1 < owner.toList.count '/') :
      CallOwner className (some owner) owner

theorem resolveOwner_wasm (className : String) (owner : Option String) :
    CallOwner className owner (resolveOwner wasmOwners className owner) := by
  cases owner with
  | none => exact .absent
  | some owner =>
    by_cases hempty : owner = ""
    · subst hempty
      exact .empty
    by_cases hdot : owner = "."
    · subst hdot
      exact .dot
    have hresolve : resolveOwner wasmOwners className (some owner) =
        (OwnerRule.rename? owner (.package "wasi" "wasi/trampoline/")).getD owner := by
      rw [resolveOwner, if_neg (by simp [hempty, hdot]), wasmOwners, List.findSome?_cons, List.findSome?_nil]
      cases OwnerRule.rename? owner (.package "wasi" "wasi/trampoline/") <;> rfl
    rw [hresolve]
    cases hrename : OwnerRule.rename? owner (.package "wasi" "wasi/trampoline/") with
    | none =>
      refine .other hempty hdot fun rest hrest => Nat.lt_of_not_le fun hshort => ?_
      cases hrename.symm.trans
        (OwnerRule.rename?_package_eq_some_iff.mpr ⟨hempty, hshort, ⟨rest, hrest⟩, rfl⟩)
    | some renamed =>
      obtain ⟨-, hshort, ⟨rest, rfl⟩, rfl⟩ := OwnerRule.rename?_package_eq_some_iff.mp hrename
      have hcapital : "wasi/trampoline/" ++ Text.capitalized ("wasi" ++ rest) =
          "wasi/trampoline/Wasi" ++ rest := by
        rw [← String.toList_inj]
        simp [Text.capitalized]
      rw [Option.getD_some, hcapital]
      exact .wasi rest hshort

theorem CallOwner.unopened {className resolved : String} {owner : Option String}
    (h : CallOwner className owner resolved) (hclass : '(' ∉ className.toList)
    (howner : ∀ o ∈ owner, '(' ∉ o.toList) : '(' ∉ resolved.toList := by
  cases h with
  | absent | empty | dot => exact hclass
  | wasi rest hshort =>
    have hrest := howner _ rfl
    rw [String.toList_append, List.mem_append, not_or] at hrest ⊢
    exact ⟨by decide, hrest.2⟩
  | other hempty hdot hlong => exact howner _ rfl

/-! ## Expansion -/

/-- The method that a direct call refers to, in the target. -/
def calledMethod (className : String) (m : MethodRef) : MethodRef :=
  ⟨some (resolveOwner wasmOwners className m.owner), m.name, wasmStyle.toTarget m.descriptor⟩

theorem expands_call (className : String) (state : UnitState) {m : MethodRef} (hm : m.WellFormed) :
    state.Expands wasm32Library className ("CALL", [m.text])
      [.insn "invokestatic" [(calledMethod className m).text]] state := by
  let called := (calledMethod className m).text
  have he : external "CALL" [.transform .toMethod, .emit "invokestatic"] ∈ wasm32Library.table.entries :=
    controlEntries_subset (by simp [controlEntries])
  have hinvoke : jvm.find? "invokestatic" = some ⟨"invokestatic", .one⟩ := by decide +kernel
  have hparse : MethodRef.parse? m.text = some m := MethodRef.parse?_eq_some_iff.mpr ⟨rfl, hm⟩
  have hmethod : (wasm32.naming className).method m = called := rfl
  have htransform : Scope.perform ⟨wasm32, className, "CALL"⟩ none (state.start [m.text])
      (.transform .toMethod) = .ok (state.start [called]) := by
    simp only [Scope.perform, Scope.applyTransform, Transform.apply, UnitState.start, Operands.ofTexts,
      List.map_cons, List.map_nil, hparse, hmethod]
    rfl
  have hemit : Scope.emitNamed ⟨wasm32, className, "CALL"⟩ "invokestatic" (state.start [called]) =
      .ok ((state.start []).emit (.insn "invokestatic" [called])) :=
    Scope.emitNamed_one hinvoke (show _ = [.text called] from rfl)
  exact (Library.expands_iff he rfl).mpr
    ⟨(state.start []).emit (.insn "invokestatic" [called]),
      Op.runAll_act htransform (Op.runAll_last hemit), rfl, rfl, rfl⟩

/-- A direct call expands to one call of a static method. The name of the method is the one written, its
descriptor is that of the signature, and its owner depends on the owner written and on the class of the unit
alone. -/
theorem call_translates_parts (className : String) (owner : Option String) (name : String)
    (signature : SourceSignature) (state : UnitState) (hclass : '(' ∉ className.toList)
    (howner : ∀ o ∈ owner, '(' ∉ o.toList) (hnamed : name ≠ "") (hname : '(' ∉ name.toList)
    (hlast : '/' ∉ name.toList) :
    ∃ x operand resolved,
      state.expand wasm32Library className "CALL"
        [owner.elim "" (· ++ "/") ++ name ++ signature.text] = (.ok x, state) ∧
      x.primitives = [.insn "invokestatic" [operand]] ∧
      MethodRef.parse? operand = some ⟨some resolved, name, signature.target.text⟩ ∧
      CallOwner className owner resolved := by
  let m : MethodRef := ⟨owner, name, signature.text⟩
  have hm : m.WellFormed := ⟨howner, hname, hlast, hnamed, by simp [m, SourceSignature.text]⟩
  have hresolved := resolveOwner_wasm className owner
  have hcalled : (calledMethod className m).WellFormed := by
    refine ⟨?_, hname, hlast, hnamed, ?_⟩
    · rintro _ ⟨⟩
      exact hresolved.unopened hclass howner
    · rw [calledMethod, wasmStyle_toTarget]
      simp [Signature.text]
  obtain ⟨x, hexpand, hprimitives⟩ := expands_call className state hm
  refine ⟨x, _, _, hexpand, hprimitives, ?_, hresolved⟩
  rw [MethodRef.parse?_eq_some_iff.mpr ⟨rfl, hcalled⟩, calledMethod, wasmStyle_toTarget]

/-- The owner moves into the package of the trampolines, and the spelling of a type in the owner and in the
name stays. -/
theorem call_translates_parts_wasi :
    ∃ x operand resolved,
      ({} : UnitState).expand wasm32Library "Module" "CALL" ["wasiI32/F64/toI32(I32,F64)->()"] = (.ok x, {}) ∧
      x.primitives = [.insn "invokestatic" [operand]] ∧
      MethodRef.parse? operand = some ⟨some resolved, "toI32", "(ID)V"⟩ ∧
      CallOwner "Module" (some "wasiI32/F64") resolved :=
  call_translates_parts "Module" (some "wasiI32/F64") "toI32" ⟨[.name .i32, .name .f64], .empty⟩ {}
    (by decide) (by simp) (by decide) (by decide) (by decide)

end Catalog

end Lowering
