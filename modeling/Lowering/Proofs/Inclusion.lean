-- SUMMARY: An entry expands alike in every library that has it together with the entries it calls.
import Lowering.Proofs.CallDepth
import Lowering.Proofs.Linked
import Lowering.Proofs.Resolution
import Lowering.Proofs.Shipped

/-!
# Tables that include others

Entries call each other by name, so an entry does the same in every table that has all entries of its
own one. Where they stand and which further entries there are makes no difference, although the positions
that calls are resolved to are different ones. In particular the entries of a table may be reordered.
-/

namespace Lowering

namespace Table

/-- All entries of `t` are in `t'`, and the tables agree on everything else. -/
structure Included (t t' : Table) : Prop where
  name : t'.name = t.name
  isa : t'.isa = t.isa
  labelForm : t'.labelForm = t.labelForm
  style : t'.style = t.style
  owners : t'.owners = t.owners
  options : ∀ option, t'.has option = t.has option
  entries : t.entries ⊆ t'.entries

theorem Included.find?_eq_some {t t' : Table} (h : t.Included t') (hdistinct : t'.names.Nodup)
    {name : String} {e : Entry} (hfind : t.find? name = some e) : t'.find? name = some e := by
  have hname := find?_name hfind
  subst hname
  exact find?_eq_some_of_mem hdistinct (h.entries (find?_mem hfind))

end Table

/-! ## Actions -/

namespace Scope

variable {scope : Scope} {t : Table}

/-- The scope with another table. -/
def within (scope : Scope) (t : Table) : Scope := { scope with table := t }

theorem checkLabel_within (h : scope.table.Included t) (label : LabelRef) :
    (scope.within t).checkLabel label = scope.checkLabel label := by
  cases label with
  | generated label => rfl
  | named name => simp only [checkLabel, within, h.options, h.name, h.labelForm]

theorem takeLabel_within (h : scope.table.Included t) (inv : Invocation) :
    (scope.within t).takeLabel inv = scope.takeLabel inv := by
  simp only [takeLabel, checkLabel_within h]

theorem emitNamed_within (h : scope.table.Included t) (opcode : String) (inv : Invocation) :
    (scope.within t).emitNamed opcode inv = scope.emitNamed opcode inv := by
  have hisa : (scope.within t).table.isa = scope.table.isa := h.isa
  simp only [emitNamed, hisa, emitInstruction, takeLabel_within h]

theorem callDescriptor_within (h : scope.table.Included t) (spec : CallSpec) (inv : Invocation) :
    (scope.within t).callDescriptor spec inv = scope.callDescriptor spec inv := by
  have hstyle : (scope.within t).table.style = scope.table.style := h.style
  simp only [callDescriptor, hstyle]

/-- An action does the same with a table that includes its own one. -/
theorem perform_within (h : scope.table.Included t) (declared : Option ValueType) (inv : Invocation)
    (a : Action) : (scope.within t).perform declared inv a = scope.perform declared inv a := by
  have hisa : (scope.within t).table.isa = scope.table.isa := h.isa
  have hnaming : (scope.within t).table.naming (scope.within t).className =
      scope.table.naming scope.className := by
    simp only [within, Table.naming, h.style, h.owners]
  have hhas : ∀ option, (scope.within t).table.has option = scope.table.has option := h.options
  cases a with
  | control kind => cases kind <;> simp only [perform, control, emitTest, emitGoto, hisa] <;> rfl
  | transform t => simp only [perform, applyTransform, hnaming]
  | dynCall spec => simp only [perform, emitCall, callDescriptor_within h]
  | jumpIf c => simp only [perform, takeLabel_within h, emitTest, hisa]
  | _ => simp only [perform, emitNamed_within h, takeLabel_within h, hisa, hhas]

end Scope

/-! ## Runs -/

/-- Operations evaluate alike with a table that includes their own one. -/
theorem Op.Evaluates.within {scope : Scope} {t : Table} (ht : scope.table.Checked)
    (hdistinct : t.names.Nodup) (h : scope.table.Included t) {stack : List String}
    {declared : Option ValueType} {inv : Invocation} {ops : List Op} {result : Except Halt Invocation}
    (hops : Op.Evaluates scope stack declared inv ops result)
    (hcalls : ∀ name, .call name ∈ Op.allSteps ops → name ∈ scope.table.names) :
    Op.Evaluates (scope.within t) stack declared inv ops result := by
  -- Calls stay among the names of the smaller table, so both tables resolve them alike.
  have hbody : ∀ {name e}, scope.table.find? name = some e →
      ∀ callee, .call callee ∈ Op.allSteps e.body → callee ∈ scope.table.names :=
    fun hfind callee hcallee => ht.callee_mem_names (Table.mem_callsOf_of_step hfind hcallee)
  induction hops with
  | nil => exact .nil
  | act ha _ ih =>
    exact .act ((Scope.perform_within h ..).trans ha) (ih fun name hname => hcalls name (.tail _ hname))
  | actFails ha => exact .actFails ((Scope.perform_within h ..).trans ha)
  | call hnew hfind _ _ ihbody ihops =>
    exact .call hnew (h.find?_eq_some hdistinct hfind) (ihbody (hbody hfind))
      (ihops fun name hname => hcalls name (.tail _ hname))
  | callFails hnew hfind _ ihbody =>
    exact .callFails hnew (h.find?_eq_some hdistinct hfind) (ihbody (hbody hfind))
  | unresolved hfind =>
    have hmem := hcalls _ List.mem_cons_self
    rw [← Table.find?_isSome_iff, hfind] at hmem
    cases hmem
  | untyped htype => exact .untyped htype
  | single htype hwidth _ ih =>
    refine .single htype hwidth (ih fun name hname => hcalls name ?_)
    simp only [allSteps_append, Op.allSteps, Op.steps, List.mem_append] at hname ⊢
    exact hname.imp_left .inl
  | double htype hwidth _ ih =>
    refine .double htype hwidth (ih fun name hname => hcalls name ?_)
    simp only [allSteps_append, Op.allSteps, Op.steps, List.mem_append] at hname ⊢
    exact hname.imp_left .inr
  | seq _ ih =>
    refine .seq (ih fun name hname => hcalls name ?_)
    simpa only [allSteps_append, Op.allSteps, Op.steps] using hname

namespace Library

variable {lib lib' : Library} {e : Entry}

theorem runEntry_included (h : lib.table.Included lib'.table) (he : e ∈ lib.entries)
    (className mnemonic : String) (inv : Invocation) :
    Scope.runEntry ⟨lib'.table, className, mnemonic⟩ lib'.entries.length e inv =
      Scope.runEntry ⟨lib.table, className, mnemonic⟩ lib.entries.length e inv := by
  let scope : Scope := ⟨lib.table, className, mnemonic⟩
  have heval : Op.Evaluates scope [e.name] e.type inv e.body
      (scope.runEntry lib.entries.length e inv) :=
    (Scope.evaluates_iff lib.table_checked he (Nat.le_refl _)).mpr rfl
  have hfind := Table.find?_eq_some_of_mem lib.table_checked.distinct he
  have heval' := heval.within lib.table_checked lib'.table_checked.distinct h fun callee hcallee =>
    lib.table_checked.callee_mem_names (Table.mem_callsOf_of_step hfind hcallee)
  exact ((Scope.evaluates_iff lib'.table_checked (h.entries he) (Nat.le_refl _)).mp heval').symm

theorem expand_included (h : lib.table.Included lib'.table) (he : e ∈ lib.entries)
    (state : UnitState) (className : String) (operands : List String) :
    state.expand lib' className e.name operands = state.expand lib className e.name operands := by
  obtain ⟨id, hid⟩ := List.mem_iff_getElem?.mp he
  obtain ⟨id', hid'⟩ := List.mem_iff_getElem?.mp (h.entries he)
  have hlookup := lib.lookup_of_select? (lib.select?_of_name hid) hid
  have hlookup' := lib'.lookup_of_select? (lib'.select?_of_name hid') hid'
  have hinvoke : state.invoke ⟨lib'.table, className, e.name⟩ e operands =
      state.invoke ⟨lib.table, className, e.name⟩ e operands := by
    unfold UnitState.invoke
    exact congrArg (· >>= fun inv => inv.orHalt inv.complete)
      (runEntry_included h he className e.name _)
  unfold UnitState.expand UnitState.expandBy
  rw [hlookup, hlookup']
  by_cases hexternal : e.visibility = .external
  · simp only [if_pos hexternal, hinvoke]
  · simp only [if_neg hexternal]

end Library

/-! ## Reordered tables -/

namespace Table

variable {t : Table} {entries : List Entry}

theorem included_of_perm (h : entries.Perm t.entries) : t.Included { t with entries } :=
  ⟨rfl, rfl, rfl, rfl, rfl, fun _ => rfl, h.symm.subset⟩

theorem names_perm (h : entries.Perm t.entries) : ({ t with entries } : Table).names.Perm t.names :=
  h.map Entry.name

theorem find?_perm (hdistinct : t.names.Nodup) (h : entries.Perm t.entries) (name : String) :
    ({ t with entries } : Table).find? name = t.find? name := by
  have hdistinct' := (names_perm h).nodup_iff.mpr hdistinct
  cases hfind : t.find? name with
  | some e => exact (included_of_perm h).find?_eq_some hdistinct' hfind
  | none =>
    have hnot : name ∉ t.names := by
      rw [← find?_isSome_iff, hfind]
      simp
    rw [← Option.not_isSome_iff_eq_none, find?_isSome_iff]
    exact fun hmem => hnot ((names_perm h).subset hmem)

theorem rolesWithin_perm (hdistinct : t.names.Nodup) (h : entries.Perm t.entries) (bound : Nat)
    (steps : List Step) :
    ({ t with entries } : Table).rolesWithin bound steps = t.rolesWithin bound steps := by
  induction bound generalizing steps with
  | zero => rfl
  | succ bound ih => simp only [rolesWithin, find?_perm hdistinct h, ih]

/-- A table passes its checks in every order of its entries. -/
theorem Checked.perm (ht : t.Checked) (h : entries.Perm t.entries) :
    ({ t with entries } : Table).Checked where
  distinct := (names_perm h).nodup_iff.mpr ht.distinct
  resolved e he callee hcallee :=
    (names_perm h).symm.subset (ht.resolved e (h.subset he) callee hcallee)
  acyclic := by
    -- The search goes through the entries in another order, but calls lower the same rank.
    obtain ⟨rank, hrank⟩ := ht.exists_rank
    refine cycle?_eq_none_of_rank fun caller callee hcallee => hrank caller callee ?_
    simpa only [callsOf, find?_perm ht.distinct h] using hcallee
  sound e he := ht.sound e (h.subset he)
  fitting e he := by
    rw [impliedRole?, rolesWithin_perm ht.distinct h, h.length_eq]
    exact ht.fitting e (h.subset he)
  external := by
    obtain ⟨e, he, hexternal⟩ := ht.external
    exact ⟨e, h.symm.subset he, hexternal⟩

end Table

/-- An instruction that is written with the name of an entry expands alike in all libraries that have
the entries of its own one, wherever these stand and whatever else there is. This holds of expansions that
follow the positions of calls, which depend on where entries stand, and of those that look up their names.
In particular a library can be made from its entries in any order, and they expand alike in it. -/
theorem Library.expansion_ignores_placement :
    (∀ lib lib' : Library, lib.table.Included lib'.table →
      ∀ e ∈ lib.entries, ∀ (state : UnitState) (className : String) (operands : List String),
        state.expandLinked lib' className e.name operands =
            state.expandLinked lib className e.name operands ∧
          state.expand lib' className e.name operands = state.expand lib className e.name operands) ∧
    ∀ (lib : Library) (entries : List Entry), entries.Perm lib.entries →
      ∃ lib', Table.build { lib.table with entries } = .ok lib' ∧
        ∀ e ∈ lib.entries, ∀ (state : UnitState) (className : String) (operands : List String),
          state.expandLinked lib' className e.name operands =
              state.expandLinked lib className e.name operands ∧
            state.expand lib' className e.name operands = state.expand lib className e.name operands := by
  have hincluded : ∀ lib lib' : Library, lib.table.Included lib'.table →
      ∀ e ∈ lib.entries, ∀ (state : UnitState) (className : String) (operands : List String),
        state.expandLinked lib' className e.name operands =
            state.expandLinked lib className e.name operands ∧
          state.expand lib' className e.name operands = state.expand lib className e.name operands := by
    intro lib lib' h e he state className operands
    rw [UnitState.expandLinked_eq, UnitState.expandLinked_eq, expand_included h he]
    exact ⟨rfl, rfl⟩
  refine ⟨hincluded, fun lib entries hperm => ?_⟩
  exact ⟨_, (lib.table_checked.perm hperm).build_eq, hincluded _ _ (Table.included_of_perm hperm)⟩

/-- The entries of `nestedCalls` behind one that they do not call and that spells like one of them. -/
def nestedCallsBehind : Library :=
  .ofTable
    { nestedCalls.table with
      entries := { name := "outer", body := [.call "inner"] } :: nestedCalls.entries.reverse }
    (by decide +kernel)

theorem wasm32_expansion_ignores_placement :
    (∃ e ∈ nestedCalls.entries, e.name = "OUTER" ∧
      ∀ (state : UnitState) (className : String) (operands : List String),
        state.expandLinked nestedCallsBehind className "OUTER" operands =
          state.expandLinked nestedCalls className "OUTER" operands) ∧
    ∃ lib, Table.build { Catalog.wasm32 with entries := Catalog.wasm32.entries.reverse } = .ok lib ∧
      ∀ e ∈ Catalog.wasm32.entries, ∀ (state : UnitState) (className : String) (operands : List String),
        state.expand lib className e.name operands =
          state.expand Catalog.wasm32Library className e.name operands := by
  refine ⟨⟨_, List.mem_cons_self, rfl, fun state className operands => ?_⟩, ?_⟩
  · have hincluded : nestedCalls.table.Included nestedCallsBehind.table :=
      ⟨rfl, rfl, rfl, rfl, rfl, fun _ => rfl, fun e he => .tail _ (List.mem_reverse.mpr he)⟩
    exact (Library.expansion_ignores_placement.1 nestedCalls nestedCallsBehind hincluded _
      List.mem_cons_self state className operands).1
  · obtain ⟨lib, hbuild, hexpand⟩ :=
      Library.expansion_ignores_placement.2 Catalog.wasm32Library _ (List.reverse_perm _)
    exact ⟨lib, hbuild, fun e he state className operands => (hexpand e he state className operands).2⟩

end Lowering
