-- SUMMARY: Every call site that an instruction emits can be linked by its bootstrap method.
import Lowering.Jvm.InstructionSet
import Lowering.Proofs.CallSites
import Lowering.Proofs.Checks
import Lowering.Proofs.Descriptors

/-!
# Call sites and their bootstrap methods

A description of a dynamic call is checked when its library is built, but the descriptor of the call and some
of its static arguments come from the operands of an instruction, at any later time. What was checked of the
sources of the arguments carries over to the arguments that they give. So each call site has two descriptors
of methods, and the static arguments that the second one asks for.
-/

namespace Lowering

/-! ## Arguments and parameters -/

/-- The arguments are those that parameters of the given types take: one each, except that a last parameter
for an array of method handles takes all handles that are left. -/
inductive StaticArg.Supply : List String → List StaticArg → Prop
  | nil : Supply [] []
  | int (value : Int) {types : List String} {args : List StaticArg} (h : Supply types args) :
      Supply ("I" :: types) (.int value :: args)
  | string (value : String) {types : List String} {args : List StaticArg} (h : Supply types args) :
      Supply ("Ljava/lang/String;" :: types) (.string value :: args)
  | handle (name : String) {types : List String} {args : List StaticArg} (h : Supply types args) :
      Supply ("Ljava/lang/invoke/MethodHandle;" :: types) (.handle name :: args)
  | handles (names : List String) : Supply ["[Ljava/lang/invoke/MethodHandle;"] (names.map .handle)

theorem StaticArg.Supply.cons (arg : StaticArg) {types : List String} {args : List StaticArg}
    (h : Supply types args) : Supply (arg.type :: types) (arg :: args) := by
  cases arg with
  | int value => exact .int value h
  | string value => exact .string value h
  | handle name => exact .handle name h

/-- The sources give arguments for parameters of the given types, and only the last of them may take all
remaining operands. -/
inductive ArgSource.Matches : List String → List ArgSource → Prop
  | nil : Matches [] []
  | cons {source : ArgSource} {types : List String} {sources : List ArgSource}
      (hlast : source = .operandHandles → types = []) (h : Matches types sources) :
      Matches (source.type :: types) (source :: sources)

namespace ArgSource

theorem type_unclosed (source : ArgSource) : ')' ∉ source.type.toList := by
  have htypes : ∀ type ∈ ["I", stringType, methodHandleType, "[" ++ methodHandleType],
      ')' ∉ type.toList := by
    decide +kernel
  refine htypes _ ?_
  cases source with
  | fixed arg => cases arg <;> simp [type, StaticArg.type]
  | operandInt | operandHandles => simp [type]

theorem Matches.unclosed {types : List String} {sources : List ArgSource} (h : Matches types sources) :
    ')' ∉ types.flatMap String.toList := by
  induction h with
  | nil => exact List.not_mem_nil
  | @cons source _ _ _ _ ih =>
    rw [List.flatMap_cons, List.mem_append, not_or]
    exact ⟨source.type_unclosed, ih⟩

end ArgSource

namespace CallSpec

theorem matches_of_matchArgs {position : Nat} {types : List String} {sources : List ArgSource}
    (hlength : types.length = sources.length) (h : matchArgs position types sources = .ok ()) :
    ArgSource.Matches types sources := by
  induction sources generalizing position types with
  | nil =>
    obtain rfl := List.length_eq_zero_iff.mp hlength
    exact .nil
  | cons source sources ih =>
    cases types with
    | nil => cases hlength
    | cons type types =>
      rw [matchArgs] at h
      split at h
      · rename_i hsource
        obtain ⟨rfl, hlast⟩ := hsource
        exact .cons hlast (ih (Nat.succ.inj hlength) h)
      · cases h

/-- A description that passes its check has sources for the extra parameters of its bootstrap method. -/
theorem matches_of_check {spec : CallSpec} {style : Option SignatureStyle}
    (h : spec.check style = .ok ()) :
    ∃ types, fieldTypes? spec.bootstrap.extraParams.toList = some types ∧
      ArgSource.Matches types spec.bootstrap.args := by
  have hargs : checkArgs spec.bootstrap = .ok () := by
    unfold check at h
    split at h
    · exact h
    · split at h
      · exact h
      · cases h
  unfold checkArgs at hargs
  split at hargs
  · cases hargs
  · rename_i types htypes
    split at hargs
    · rename_i hlength
      exact ⟨types, htypes, matches_of_matchArgs hlength hargs⟩
    · cases hargs

/-- What is resolved is a method descriptor. -/
theorem parse?_of_resolve? {style : Option SignatureStyle} {text descriptor : String}
    (h : resolve? style text = some descriptor) : (Signature.parse? descriptor).isSome := by
  simp only [resolve?, Option.ite_none_right_eq_some, Option.some.injEq] at h
  exact h.2 ▸ h.1

end CallSpec

/-! ## Bootstrap methods -/

/-- The types of the parameters that every bootstrap method receives first. -/
def standardTypes : List String :=
  ["Ljava/lang/invoke/MethodHandles$Lookup;", "Ljava/lang/String;", "Ljava/lang/invoke/MethodType;"]

/-- The type that every bootstrap method returns. -/
def callSiteType : String := "Ljava/lang/invoke/CallSite;"

/-- The descriptor of a bootstrap method is read as the standard parameters and then the extra ones. -/
theorem Bootstrap.parse?_descriptor {b : Bootstrap} {types : List String}
    (htypes : fieldTypes? b.extraParams.toList = some types) (hclosed : ')' ∉ b.extraParams.toList) :
    Signature.parse? b.descriptor = some ⟨standardTypes ++ types, callSiteType⟩ := by
  have ⟨hstandard, hunclosed⟩ : fieldTypes? standardParams.toList = some standardTypes ∧
      ')' ∉ standardParams.toList := by
    decide +kernel
  have hresult : Signature.result? callSiteType.toList = some callSiteType := by decide +kernel
  have hparts : b.descriptor.toList =
      '(' :: (standardParams.toList ++ b.extraParams.toList ++ ')' :: callSiteType.toList) := by
    simp [Bootstrap.descriptor, callSiteType]
  refine Signature.parse?_of_parts hparts (fieldTypes?_append hstandard htypes) ?_ hresult
  rw [List.mem_append, not_or]
  exact ⟨hunclosed, hclosed⟩

/-! ## Call sites -/

/-- The call site has the descriptor of a method, and the bootstrap method takes its static arguments after
the standard ones and returns a call site. -/
structure CallSite.LinksBy (site : CallSite) (b : Bootstrap) : Prop where
  owner : site.bootOwner = b.owner
  method : site.bootMethod = b.method
  descriptor : (Signature.parse? site.descriptor).isSome
  arguments : ∃ types, fieldTypes? b.extraParams.toList = some types ∧
    Signature.parse? site.bootDescriptor = some ⟨standardTypes ++ types, callSiteType⟩ ∧
    StaticArg.Supply types site.args

/-- An entry of the table describes a dynamic call so. -/
def Table.Describes (t : Table) (spec : CallSpec) : Prop :=
  ∃ e ∈ t.entries, .act (.dynCall spec) ∈ steps e.body

theorem Table.Checked.check_eq_ok {t : Table} (ht : t.Checked) {spec : CallSpec}
    (hspec : t.Describes spec) : spec.check t.style = .ok () := by
  obtain ⟨e, he, hstep⟩ := hspec
  have hsound := ht.sound e he _ hstep
  simp only [Table.stepFault?] at hsound
  split at hsound
  · assumption
  · cases hsound

namespace Scope

variable {scope : Scope} {inv inv' : Invocation}

/-- Sources that match the types of parameters give arguments for them. -/
theorem allStaticArgs_supply {types : List String} {sources : List ArgSource}
    (hmatches : ArgSource.Matches types sources) {args : List StaticArg}
    (h : allStaticArgs inv sources = .ok (args, inv')) : StaticArg.Supply types args := by
  induction hmatches generalizing inv args with
  | nil =>
    cases h
    exact .nil
  | @cons source types sources hlast hrest ih =>
    obtain ⟨⟨front, inv₁⟩, hfront, h⟩ := ok_of_bind_ok h
    obtain ⟨⟨more, inv₂⟩, hmore, h⟩ := ok_of_bind_ok h
    cases h
    have hsupply := ih hmore
    cases source with
    | fixed arg =>
      cases hfront
      exact .cons arg hsupply
    | operandInt =>
      obtain ⟨⟨value, inv₃⟩, -, hfront⟩ := ok_of_bind_ok hfront
      dsimp only at hfront
      split at hfront
      · cases hfront
        exact .cons (.int value) hsupply
      · cases hfront
    | operandHandles =>
      -- No parameter is left for what follows, and so no argument.
      cases hfront
      obtain rfl := hlast rfl
      cases hrest
      cases hmore
      have hhandles := StaticArg.Supply.handles (inv.operands.map Field.shown)
      rw [List.map_map] at hhandles
      rwa [List.append_nil]

theorem callDescriptor_parses {spec : CallSpec} {descriptor : String}
    (h : scope.callDescriptor spec inv = .ok (descriptor, inv')) :
    (Signature.parse? descriptor).isSome := by
  unfold callDescriptor at h
  split at h
  · rename_i template htemplate
    split at h
    · rename_i resolved hresolved
      cases h
      rw [CallSpec.resolved?, htemplate] at hresolved
      exact CallSpec.parse?_of_resolve? hresolved
    · cases h
  · obtain ⟨⟨text, inv₁⟩, -, h⟩ := ok_of_bind_ok h
    dsimp only at h
    split at h
    · rename_i hresolved
      cases h
      exact CallSpec.parse?_of_resolve? hresolved
    · cases h

/-- A dynamic call that a checked table describes adds a call site that links. -/
theorem emitCall_linksBy {spec : CallSpec} (hcheck : spec.check scope.table.style = .ok ())
    (h : scope.emitCall spec inv = .ok inv') :
    ∃ site : CallSite, site.name = spec.name ∧ site.LinksBy spec.bootstrap ∧
      callSitesOf inv'.primitives = callSitesOf inv.primitives ++ [site] := by
  obtain ⟨descriptor, args, _, _, hdescriptor, hargs, hsites, -⟩ := emitCall_eq_ok h
  obtain ⟨types, htypes, hmatches⟩ := CallSpec.matches_of_check hcheck
  have hclosed : ')' ∉ spec.bootstrap.extraParams.toList := by
    rw [(fieldTypes?_eq_some_iff.mp htypes).2]
    exact hmatches.unclosed
  refine ⟨_, rfl, ⟨rfl, rfl, callDescriptor_parses hdescriptor, types, htypes, ?_, ?_⟩, hsites⟩
  · exact Bootstrap.parse?_descriptor htypes hclosed
  · exact allStaticArgs_supply hmatches hargs

end Scope

/-! ## Instructions -/

/-- Every call site is described by an entry of the table, and links by the bootstrap method that the
description names. -/
def Invocation.Links (t : Table) (inv : Invocation) : Prop :=
  ∀ site ∈ callSitesOf inv.primitives, ∃ spec, t.Describes spec ∧ site.name = spec.name ∧
    site.LinksBy spec.bootstrap

/-- The action makes no dynamic calls but those that the table describes. -/
def Table.AllowsCalls (t : Table) (a : Action) : Prop := ∀ spec, a = .dynCall spec → t.Describes spec

theorem Table.allowsCalls_of_mem {t : Table} {e : Entry} (he : e ∈ t.entries) :
    ∀ step ∈ steps e.body, step.Among t.AllowsCalls (fun _ => True) := by
  intro step hstep
  cases step with
  | act a =>
    rintro spec rfl
    exact ⟨e, he, hstep⟩
  | call name => trivial

namespace Invocation.Links

variable {scope : Scope} {inv inv' : Invocation}

theorem of_same (h : inv.Links scope.table) (hsame : SameSites inv inv') : inv'.Links scope.table := by
  intro site hsite
  rw [hsame.sites] at hsite
  exact h site hsite

theorem perform (hchecked : scope.table.Checked) {declared : Option ValueType} {a : Action}
    (hcalls : scope.table.AllowsCalls a) (h : inv.Links scope.table)
    (ha : scope.perform declared inv a = .ok inv') : inv'.Links scope.table := by
  by_cases hcall : ∃ spec, a = .dynCall spec
  · obtain ⟨spec, rfl⟩ := hcall
    have hspec := hcalls spec rfl
    obtain ⟨added, hname, hlinks, hsites⟩ :=
      Scope.emitCall_linksBy (hchecked.check_eq_ok hspec) ha
    intro site hsite
    rw [hsites] at hsite
    rcases List.mem_append.mp hsite with hold | hnew
    · exact h site hold
    · obtain rfl := List.mem_singleton.mp hnew
      exact ⟨spec, hspec, hname, hlinks⟩
  · exact h.of_same (Scope.perform_sameSites (fun spec hspec => hcall ⟨spec, hspec⟩) ha)

theorem stable (hchecked : scope.table.Checked) :
    scope.Stable (Links scope.table) scope.table.AllowsCalls (fun _ => True) where
  types _ _ _ _ h htype := h.of_same (.of_reads (valueType_reads htype))
  acts _ _ ha _ _ h hrun := h.perform hchecked ha hrun
  closed _ _ _ hfind := Table.allowsCalls_of_mem (Table.find?_mem hfind)

end Invocation.Links

/-- Whatever the state of a unit and the operands of an instruction, each call site that the instruction
emits comes from a description in the library. It has the descriptor of a method, and the descriptor of its
bootstrap method has the three standard parameters, then the extra ones of the description, and returns a call
site. Its static arguments are those that the extra parameters take. -/
theorem Library.call_sites_link (lib : Library) {state state' : UnitState}
    {className mnemonic : String} {operands : List String} {x : Expansion}
    (h : state.expand lib className mnemonic operands = (.ok x, state')) (site : CallSite)
    (hsite : .dynCall site ∈ x.primitives) :
    ∃ e ∈ lib.entries, ∃ spec, .act (.dynCall spec) ∈ steps e.body ∧ site.name = spec.name ∧
      site.LinksBy spec.bootstrap := by
  obtain ⟨id, e, inv, hlookup, hinvoke, hprimitives, rfl⟩ := UnitState.expand_eq_ok h
  obtain ⟨hrun, -⟩ := UnitState.invoke_eq_ok_iff.mp hinvoke
  have hstart : (state.start operands).Links lib.table := nofun
  have hlinks : inv.Links lib.table :=
    (@Invocation.Links.stable ⟨lib.table, className, mnemonic⟩ lib.table_checked).runAll
      (Table.allowsCalls_of_mem (Library.lookup_eq_ok hlookup).1) hstart hrun
  rw [hprimitives] at hsite
  obtain ⟨spec, ⟨e', he', hstep⟩, hname, hlinks⟩ :=
    hlinks site (List.mem_filterMap.mpr ⟨_, hsite, rfl⟩)
  exact ⟨e', he', spec, hstep, hname, hlinks⟩

/-- A library with a call that passes on a fixed text, a number and any number of handles. -/
def tracing : Library :=
  .ofTable
    { name := "tracing"
      isa := jvm
      entries :=
        [{ name := "TRACE"
           body := [.dynCall
            { name := "trace"
              descriptor := none
              bootstrap :=
                { owner := "Tracer"
                  method := "link"
                  extraParams := "Ljava/lang/String;I[Ljava/lang/invoke/MethodHandle;"
                  args := [.fixed (.string "entry"), .operandInt, .operandHandles] } }] }] }
    (by decide +kernel)

/-- The call site of a trace with two handles. -/
def tracedSite : CallSite where
  id := 3
  name := "trace"
  descriptor := "(I)V"
  bootOwner := "Tracer"
  bootMethod := "link"
  bootDescriptor := "(Ljava/lang/invoke/MethodHandles$Lookup;Ljava/lang/String;" ++
    "Ljava/lang/invoke/MethodType;Ljava/lang/String;I[Ljava/lang/invoke/MethodHandle;)" ++
    "Ljava/lang/invoke/CallSite;"
  args := [.string "entry", .int (-7), .handle "GS:a()V", .handle "GS:b()V"]

theorem tracedSite_links :
    ∃ x state, ({ nextSite := 3 } : UnitState).expand tracing "Module" "TRACE"
        ["(I)V", "-0x7", "GS:a()V", "GS:b()V"] = (.ok x, state) ∧
      .dynCall tracedSite ∈ x.primitives ∧
      ∃ e ∈ tracing.entries, ∃ spec, .act (.dynCall spec) ∈ steps e.body ∧
        tracedSite.name = spec.name ∧ tracedSite.LinksBy spec.bootstrap := by
  have hevaluated : (({ nextSite := 3 } : UnitState).expand tracing "Module" "TRACE"
      ["(I)V", "-0x7", "GS:a()V", "GS:b()V"]).1.toOption.map Expansion.primitives =
        some [.dynCall tracedSite] := by
    decide +kernel
  obtain ⟨x, state, hexpand, hprimitives⟩ := exists_ok_of_toOption hevaluated
  have hsite : .dynCall tracedSite ∈ x.primitives := by
    rw [hprimitives]
    exact List.mem_cons_self
  exact ⟨x, state, hexpand, hsite, Library.call_sites_link tracing hexpand tracedSite hsite⟩

end Lowering
