-- SUMMARY: The call sites of a unit are numbered in order, without gaps, whatever is rejected.
import Lowering.Proofs.Effects
import Lowering.Proofs.LineResults

/-!
# Numbers of call sites

Only a dynamic call adds a call site, and it takes the next number. A rejected line gives back the
numbers that it took, so the sites that a report shows are numbered one after the other.
-/

namespace Lowering

/-! ## Call sites of an invocation -/

/-- The call sites have the numbers from `first` on. -/
def NumberedFrom (first : Nat) (sites : List CallSite) : Prop :=
  sites.map CallSite.id = List.range' first sites.length

theorem NumberedFrom.nil (first : Nat) : NumberedFrom first [] := rfl

theorem NumberedFrom.append {first : Nat} {sites sites' : List CallSite} (h : NumberedFrom first sites)
    (h' : NumberedFrom (first + sites.length) sites') : NumberedFrom first (sites ++ sites') := by
  unfold NumberedFrom at h h' ⊢
  rw [List.map_append, h, h', List.length_append, ← List.range'_append_1]

/-- The call site that a description gives, with its number, its descriptor and its static arguments. -/
def CallSpec.site (spec : CallSpec) (id : Nat) (descriptor : String) (args : List StaticArg) : CallSite :=
  { id, name := spec.name, descriptor, bootOwner := spec.bootstrap.owner,
    bootMethod := spec.bootstrap.method, bootDescriptor := spec.bootstrap.descriptor, args }

/-- The call sites among primitives. -/
def callSitesOf (ps : List Primitive) : List CallSite := ps.filterMap Primitive.callSite?

theorem callSitesOf_append (ps qs : List Primitive) :
    callSitesOf (ps ++ qs) = callSitesOf ps ++ callSitesOf qs :=
  List.filterMap_append

namespace Invocation

/-- The second invocation has the call sites of the first, and gives out the same number next. -/
structure SameSites (inv inv' : Invocation) : Prop where
  sites : callSitesOf inv'.primitives = callSitesOf inv.primitives
  next : inv'.nextSite = inv.nextSite

namespace SameSites

variable {inv inv' inv'' : Invocation}

theorem refl (inv : Invocation) : SameSites inv inv := ⟨rfl, rfl⟩

theorem trans (h : SameSites inv inv') (h' : SameSites inv' inv'') : SameSites inv inv'' :=
  ⟨h'.sites.trans h.sites, h'.next.trans h.next⟩

theorem of_reads (h : inv.Reads inv') : SameSites inv inv' :=
  ⟨congrArg callSitesOf h.primitives, h.nextSite⟩

theorem moved (inv : Invocation) (operands : Operands) (nesting : Nesting) :
    SameSites inv { inv with operands, nesting } :=
  ⟨rfl, rfl⟩

theorem emitAll (h : SameSites inv inv') {ps : List Primitive} (hps : callSitesOf ps = []) :
    SameSites inv (inv'.emitAll ps) := by
  refine h.trans ⟨?_, rfl⟩
  rw [Invocation.emitAll, callSitesOf_append, hps, List.append_nil]

theorem emit (h : SameSites inv inv') {p : Primitive} (hp : p.callSite? = none) :
    SameSites inv (inv'.emit p) :=
  h.emitAll (by simp [callSitesOf, hp])

end SameSites

variable {inv inv' : Invocation}

theorem take_sameSites {α : Type} {a : α} {taking : Operands → Except Cause α × Operands}
    (h : inv.take taking = .ok (a, inv')) : SameSites inv inv' := by
  obtain ⟨rest, -, rfl⟩ := take_eq_ok h
  exact ⟨rfl, rfl⟩

theorem insertLocalLabel_sameSites (inv : Invocation) : SameSites inv inv.insertLocalLabel := by
  unfold insertLocalLabel
  split <;> exact ⟨rfl, rfl⟩

end Invocation

/-! ## Actions -/

theorem ConditionTest.callSitesOf_primitives (test : ConditionTest) (target : LabelRef) :
    callSitesOf (test.primitives target) = [] := by
  simp [callSitesOf, ConditionTest.primitives, FixedInstruction.primitive, Primitive.callSite?,
    List.filterMap_map, Function.comp_def]

namespace Scope

open Invocation

variable {scope : Scope} {declared : Option ValueType} {inv inv' : Invocation}

theorem emitNamed_sameSites {opcode : String} (h : scope.emitNamed opcode inv = .ok inv') :
    SameSites inv inv' := by
  unfold emitNamed at h
  split at h
  · unfold emitInstruction at h
    dsimp only at h
    split at h
    · cases h
      exact (SameSites.refl inv).emit rfl
    · obtain ⟨⟨a, inv₁⟩, ha, h⟩ := ok_of_bind_ok h
      cases h
      exact (take_sameSites ha).emit rfl
    · obtain ⟨⟨a, inv₁⟩, ha, h⟩ := ok_of_bind_ok h
      obtain ⟨⟨b, inv₂⟩, hb, h⟩ := ok_of_bind_ok h
      cases h
      exact ((take_sameSites ha).trans (take_sameSites hb)).emit rfl
    · obtain ⟨⟨target, inv₁⟩, htarget, h⟩ := ok_of_bind_ok h
      cases h
      exact (SameSites.of_reads (takeLabel_reads htarget)).emit rfl
    · cases h
      exact (SameSites.moved inv _ _).emit rfl
  · cases h

theorem control_sameSites {kind : ControlKind} (h : scope.control declared inv kind = .ok inv') :
    SameSites inv inv' := by
  cases kind with
  | block =>
    cases h
    exact ⟨rfl, rfl⟩
  | loop =>
    cases h
    exact (SameSites.moved inv _ _).emit rfl
  | ifThen c =>
    cases h
    exact (SameSites.moved inv _ _).emitAll (ConditionTest.callSitesOf_primitives _ _)
  | elseArm =>
    obtain ⟨⟨labels, nesting⟩, -, h⟩ := ok_of_bind_ok h
    cases h
    exact ((SameSites.moved inv _ _).emit rfl).emit rfl
  | close =>
    obtain ⟨⟨frame, nesting⟩, -, h⟩ := ok_of_bind_ok h
    cases h
    refine (SameSites.moved inv _ _).emitAll ?_
    simp [callSitesOf, closingLabels, Primitive.callSite?, List.filterMap_map, Function.comp_def]
  | branch =>
    obtain ⟨⟨depth, inv₁⟩, hdepth, h⟩ := ok_of_bind_ok h
    obtain ⟨target, -, h⟩ := ok_of_bind_ok h
    cases h
    exact (take_sameSites hdepth).emit rfl
  | branchIf c =>
    obtain ⟨⟨depth, inv₁⟩, hdepth, h⟩ := ok_of_bind_ok h
    obtain ⟨target, -, h⟩ := ok_of_bind_ok h
    cases h
    exact (take_sameSites hdepth).emitAll (ConditionTest.callSitesOf_primitives _ _)
  | branchTable =>
    obtain ⟨targets, -, h⟩ := ok_of_bind_ok h
    split at h
    · cases h
    · cases h
      exact (SameSites.moved inv _ _).emit rfl
  | exit =>
    simp only [control] at h
    split at h
    all_goals
      rename_i hreturn
      cases h
      exact (SameSites.of_reads (returnType_reads hreturn)).emit rfl

theorem applyTransform_sameSites {t : Transform} (h : scope.applyTransform declared t inv = .ok inv') :
    SameSites inv inv' := by
  unfold applyTransform at h
  dsimp only at h
  split at h
  · obtain ⟨⟨type, inv₁⟩, htype, h⟩ := ok_of_bind_ok h
    obtain ⟨operands, -, h⟩ := ok_of_bind_ok h
    cases h
    exact (SameSites.of_reads (valueType_reads htype)).trans ⟨rfl, rfl⟩
  · obtain ⟨operands, -, h⟩ := ok_of_bind_ok h
    cases h
    exact ⟨rfl, rfl⟩

/-- A dynamic call adds the call site of its description, with the next number, after it has read a
descriptor and the static arguments. -/
theorem emitCall_eq_ok {spec : CallSpec} (h : scope.emitCall spec inv = .ok inv') :
    ∃ descriptor args inv₁ inv₂, scope.callDescriptor spec inv = .ok (descriptor, inv₁) ∧
      allStaticArgs inv₁ spec.bootstrap.args = .ok (args, inv₂) ∧
      callSitesOf inv'.primitives =
        callSitesOf inv.primitives ++ [spec.site inv.nextSite descriptor args] ∧
      inv'.nextSite = inv.nextSite + 1 := by
  obtain ⟨⟨descriptor, inv₁⟩, hdescriptor, h⟩ := ok_of_bind_ok h
  obtain ⟨⟨args, inv₂⟩, hargs, h⟩ := ok_of_bind_ok h
  cases h
  have hsame := SameSites.of_reads
    ((callDescriptor_reads hdescriptor).trans (allStaticArgs_reads hargs))
  refine ⟨descriptor, args, inv₁, inv₂, hdescriptor, hargs, ?_, congrArg (· + 1) hsame.next⟩
  rw [Invocation.emit, callSitesOf_append, hsame.sites, ← hsame.next]
  rfl

/-- A dynamic call adds one call site, with the next number. -/
theorem emitCall_sites {spec : CallSpec} (h : scope.emitCall spec inv = .ok inv') :
    ∃ site : CallSite, site.id = inv.nextSite ∧
      callSitesOf inv'.primitives = callSitesOf inv.primitives ++ [site] ∧
      inv'.nextSite = inv.nextSite + 1 := by
  obtain ⟨_, _, _, _, -, -, hsites, hnext⟩ := emitCall_eq_ok h
  exact ⟨_, rfl, hsites, hnext⟩

/-- An action other than a dynamic call adds no call site. -/
theorem perform_sameSites {a : Action} (ha : ∀ spec, a ≠ .dynCall spec)
    (h : scope.perform declared inv a = .ok inv') : SameSites inv inv' := by
  cases a with
  | emit opcode => exact emitNamed_sameSites h
  | emitByType opcodes =>
    obtain ⟨⟨type, inv₁⟩, htype, h⟩ := ok_of_bind_ok h
    exact (SameSites.of_reads (valueType_reads htype)).trans (emitNamed_sameSites h)
  | load type =>
    obtain ⟨⟨text, inv₁⟩, htext, h⟩ := ok_of_bind_ok h
    dsimp only at h
    split at h
    · cases h
      exact (take_sameSites htext).emit rfl
    · cases h
  | transform t => exact applyTransform_sameSites h
  | check c =>
    obtain ⟨⟨_, inv₁⟩, hcheck, h⟩ := ok_of_bind_ok h
    cases h
    exact take_sameSites hcheck
  | unsupported hint => cases h
  | ignored reason =>
    cases h
    exact ⟨rfl, rfl⟩
  | dynCall spec => exact absurd rfl (ha spec)
  | control kind => exact control_sameSites h
  | jumpIf c =>
    obtain ⟨⟨target, inv₁⟩, htarget, h⟩ := ok_of_bind_ok h
    cases h
    exact (SameSites.of_reads (takeLabel_reads htarget)).emitAll (ConditionTest.callSitesOf_primitives _ _)
  | localLabel =>
    cases h
    exact insertLocalLabel_sameSites inv
  | placeLabel =>
    obtain ⟨⟨label, inv₁⟩, hlabel, h⟩ := ok_of_bind_ok h
    cases h
    exact (SameSites.of_reads (takeLabel_reads hlabel)).emit rfl

end Scope

/-! ## Runs -/

/-- The call sites of the invocation have the numbers from `first` on, up to the next one. -/
structure Invocation.NumbersSites (first : Nat) (inv : Invocation) : Prop where
  numbered : NumberedFrom first (callSitesOf inv.primitives)
  next : inv.nextSite = first + (callSitesOf inv.primitives).length

namespace Invocation.NumbersSites

variable {scope : Scope} {first : Nat} {inv inv' : Invocation}

theorem of_same (h : inv.NumbersSites first) (hsame : SameSites inv inv') :
    inv'.NumbersSites first := by
  refine ⟨?_, ?_⟩
  · rw [hsame.sites]
    exact h.numbered
  · rw [hsame.sites, hsame.next]
    exact h.next

theorem perform {declared : Option ValueType} {a : Action} (h : inv.NumbersSites first)
    (ha : scope.perform declared inv a = .ok inv') : inv'.NumbersSites first := by
  by_cases hcall : ∃ spec, a = .dynCall spec
  · obtain ⟨spec, rfl⟩ := hcall
    obtain ⟨site, hid, hsites, hnext⟩ := Scope.emitCall_sites ha
    have hsite : NumberedFrom (first + (callSitesOf inv.primitives).length) [site] :=
      congrArg (fun id => [id]) (hid.trans h.next)
    refine ⟨?_, ?_⟩
    · rw [hsites]
      exact h.numbered.append hsite
    · rw [hsites, hnext, h.next, List.length_append, Nat.add_assoc]
      rfl
  · exact h.of_same (Scope.perform_sameSites (fun spec hspec => hcall ⟨spec, hspec⟩) ha)

theorem stable (scope : Scope) (first : Nat) :
    scope.Stable (NumbersSites first) (fun _ => True) (fun _ => True) where
  types _ _ _ _ h htype := h.of_same (SameSites.of_reads (valueType_reads htype))
  acts _ _ _ _ _ h ha := h.perform ha
  closed _ _ _ _ step _ := step.among_all

end Invocation.NumbersSites

/-- An instruction numbers its call sites from the next number of the unit on. -/
theorem UnitState.expand_sites {state state' : UnitState} {lib : Library}
    {className mnemonic : String} {operands : List String} {x : Expansion}
    (h : state.expand lib className mnemonic operands = (.ok x, state')) :
    NumberedFrom state.nextSite (callSitesOf x.primitives) ∧
      state'.nextSite = state.nextSite + (callSitesOf x.primitives).length := by
  obtain ⟨id, e, inv, -, hinvoke, hprimitives, rfl⟩ := expand_eq_ok h
  have hstart : (state.start operands).NumbersSites state.nextSite := ⟨.nil _, rfl⟩
  have hinv : inv.NumbersSites state.nextSite :=
    invoke_stable (Invocation.NumbersSites.stable _ state.nextSite) hstart hinvoke
  rw [hprimitives]
  exact ⟨hinv.numbered, hinv.next⟩

/-! ## Units -/

/-- The call sites of lines, in order. -/
def LineResult.callSites (results : List LineResult) : List CallSite :=
  callSitesOf (results.flatMap fun r => r.item.primitives)

namespace UnitState

variable (lib : Library) (config : UnitConfig)

/-- Only an instruction that is accepted takes numbers. -/
theorem lowerLine_sites (state : UnitState) (line : SourceLine) :
    let result := state.lowerLine lib config line
    NumberedFrom state.nextSite (callSitesOf result.item.primitives) ∧
      result.state.nextSite = state.nextSite + (callSitesOf result.item.primitives).length := by
  unfold lowerLine
  split
  · exact ⟨.nil _, rfl⟩
  · split
    · rename_i hexpand
      exact expand_sites hexpand
    · rename_i hexpand
      obtain rfl := expand_eq_error hexpand
      exact ⟨.nil _, rfl⟩

theorem lowerLines_sites (state : UnitState) (lines : List SourceLine) :
    NumberedFrom state.nextSite (LineResult.callSites (state.lowerLines lib config lines)) := by
  induction lines generalizing state with
  | nil => exact .nil _
  | cons line lines ih =>
    obtain ⟨hline, hnext⟩ := lowerLine_sites lib config state line
    rw [lowerLines, LineResult.callSites, List.flatMap_cons, callSitesOf_append]
    refine hline.append ?_
    rw [← hnext]
    exact ih _

end UnitState

theorem Report.callSites_ofResults (lib : Library) (className : String) (results : List LineResult)
    (last : List Diagnostic) :
    (Report.ofResults lib className results last).callSites = LineResult.callSites results := by
  simp [Report.callSites, Report.primitives, Report.ofResults, LineResult.callSites, callSitesOf,
    List.flatMap_map]

/-- The call sites of a unit are numbered from zero on, whether it is lowered to the end or stopped. -/
theorem lowerText_numbered {lib : Library} {config : UnitConfig} {text : String} {r : Report}
    (h : lowerText lib config text = .ok r ∨
      ∃ failure, lowerText lib config text = .error ⟨failure, r⟩) : NumberedFrom 0 r.callSites := by
  rcases lowerText_cases lib config text with hok | ⟨before, line, after, failure, -, -, herror⟩
  · rw [hok] at h
    rcases h with h | ⟨failure, h⟩
    · cases h
      rw [Report.callSites_ofResults]
      exact UnitState.lowerLines_sites lib config {} _
    · cases h
  · rw [herror] at h
    rcases h with h | ⟨failure, h⟩
    · cases h
    · cases h
      rw [Report.callSites_ofResults]
      exact UnitState.lowerLines_sites lib config {} _

end Lowering
