-- SUMMARY: Following calls ends: without a bound, bodies and roles evaluate to what the bound gives.
import Lowering.Expansion
import Lowering.Jvm.InstructionSet
import Lowering.Proofs.CallGraph

/-!
# Calls end within the bound

Expansion and the collection of roles follow calls down to a bound. The relations here follow calls
without one and refuse to go back to an entry whose body is still being followed. For a checked table
they have exactly one result for the body of every entry, which any bound from the number of entries on
computes.
-/

namespace Lowering

/-! ## Evaluation without a bound -/

/-- Operations that are performed in order end with `result`. The entries whose bodies are being
followed are on the stack, and a call goes only to an entry that is not. -/
inductive Op.Evaluates (scope : Scope) : List String → Option ValueType → Invocation → List Op →
    Except Halt Invocation → Prop where
  | nil {stack declared inv} : Op.Evaluates scope stack declared inv [] (.ok inv)
  | act {stack declared inv a inv' ops result} (ha : scope.perform declared inv a = .ok inv')
      (hops : Op.Evaluates scope stack declared inv' ops result) :
      Op.Evaluates scope stack declared inv (.act a :: ops) result
  | actFails {stack declared inv a ops cause} (ha : scope.perform declared inv a = .error cause) :
      Op.Evaluates scope stack declared inv (.act a :: ops) (.error ⟨cause, inv.unit⟩)
  | call {stack declared inv name e inv' ops result} (hnew : name ∉ stack)
      (hfind : scope.table.find? name = some e)
      (hbody : Op.Evaluates scope (name :: stack) (e.type.or declared) inv e.body (.ok inv'))
      (hops : Op.Evaluates scope stack declared inv' ops result) :
      Op.Evaluates scope stack declared inv (.call name :: ops) result
  | callFails {stack declared inv name e ops halt} (hnew : name ∉ stack)
      (hfind : scope.table.find? name = some e)
      (hbody : Op.Evaluates scope (name :: stack) (e.type.or declared) inv e.body (.error halt)) :
      Op.Evaluates scope stack declared inv (.call name :: ops) (.error halt)
  | unresolved {stack declared inv name ops} (hfind : scope.table.find? name = none) :
      Op.Evaluates scope stack declared inv (.call name :: ops)
        (.error ⟨.unresolvedCall name, inv.unit⟩)
  | untyped {stack declared inv single double ops cause}
      (htype : inv.valueType declared = .error cause) :
      Op.Evaluates scope stack declared inv (.select single double :: ops)
        (.error ⟨cause, inv.unit⟩)
  | single {stack declared inv single double type inv' ops result}
      (htype : inv.valueType declared = .ok (type, inv')) (hwidth : type.width = .single)
      (hops : Op.Evaluates scope stack declared inv' (single ++ ops) result) :
      Op.Evaluates scope stack declared inv (.select single double :: ops) result
  | double {stack declared inv single double type inv' ops result}
      (htype : inv.valueType declared = .ok (type, inv')) (hwidth : type.width = .double)
      (hops : Op.Evaluates scope stack declared inv' (double ++ ops) result) :
      Op.Evaluates scope stack declared inv (.select single double :: ops) result
  | seq {stack declared inv inner ops result}
      (hops : Op.Evaluates scope stack declared inv (inner ++ ops) result) :
      Op.Evaluates scope stack declared inv (.seq inner :: ops) result

theorem Op.Evaluates.unique {scope : Scope} {stack : List String} {declared : Option ValueType}
    {inv : Invocation} {ops : List Op} {r₁ r₂ : Except Halt Invocation}
    (h₁ : Op.Evaluates scope stack declared inv ops r₁)
    (h₂ : Op.Evaluates scope stack declared inv ops r₂) : r₁ = r₂ := by
  induction h₁ generalizing r₂ with
  | nil =>
    cases h₂
    rfl
  | act ha _ ih =>
    cases h₂ with
    | act ha' hops' =>
      cases ha.symm.trans ha'
      exact ih hops'
    | actFails ha' => cases ha.symm.trans ha'
  | actFails ha =>
    cases h₂ with
    | act ha' _ => cases ha.symm.trans ha'
    | actFails ha' =>
      cases ha.symm.trans ha'
      rfl
  | call _ hfind _ _ ihbody ihops =>
    cases h₂ with
    | call _ hfind' hbody' hops' =>
      cases hfind.symm.trans hfind'
      cases ihbody hbody'
      exact ihops hops'
    | callFails _ hfind' hbody' =>
      cases hfind.symm.trans hfind'
      cases ihbody hbody'
    | unresolved hfind' => cases hfind.symm.trans hfind'
  | callFails _ hfind _ ihbody =>
    cases h₂ with
    | call _ hfind' hbody' _ =>
      cases hfind.symm.trans hfind'
      cases ihbody hbody'
    | callFails _ hfind' hbody' =>
      cases hfind.symm.trans hfind'
      cases ihbody hbody'
      rfl
    | unresolved hfind' => cases hfind.symm.trans hfind'
  | unresolved hfind =>
    cases h₂ with
    | call _ hfind' _ _ => cases hfind.symm.trans hfind'
    | callFails _ hfind' _ => cases hfind.symm.trans hfind'
    | unresolved => rfl
  | untyped htype =>
    cases h₂ with
    | untyped htype' =>
      cases htype.symm.trans htype'
      rfl
    | single htype' _ _ => cases htype.symm.trans htype'
    | double htype' _ _ => cases htype.symm.trans htype'
  | single htype hwidth _ ih =>
    cases h₂ with
    | untyped htype' => cases htype.symm.trans htype'
    | single htype' _ hops' =>
      cases htype.symm.trans htype'
      exact ih hops'
    | double htype' hwidth' _ =>
      cases htype.symm.trans htype'
      cases hwidth.symm.trans hwidth'
  | double htype hwidth _ ih =>
    cases h₂ with
    | untyped htype' => cases htype.symm.trans htype'
    | single htype' hwidth' _ =>
      cases htype.symm.trans htype'
      cases hwidth.symm.trans hwidth'
    | double htype' _ hops' =>
      cases htype.symm.trans htype'
      exact ih hops'
  | seq _ ih =>
    cases h₂ with
    | seq hops' => exact ih hops'

/-! ## Bounded runs evaluate -/

/-- What performing `ops` came to is what evaluation makes of them in front of any further
operations. -/
def Op.Leads (scope : Scope) (stack : List String) (declared : Option ValueType) (inv : Invocation)
    (ops : List Op) : Except Halt Invocation → Prop
  | .error halt => ∀ rest, Op.Evaluates scope stack declared inv (ops ++ rest) (.error halt)
  | .ok inv' => ∀ rest result, Op.Evaluates scope stack declared inv' rest result →
      Op.Evaluates scope stack declared inv (ops ++ rest) result

theorem Op.Leads.evaluates {scope : Scope} {stack : List String} {declared : Option ValueType}
    {inv : Invocation} {ops : List Op} {result : Except Halt Invocation}
    (h : Op.Leads scope stack declared inv ops result) :
    Op.Evaluates scope stack declared inv ops result := by
  cases result with
  | error halt => simpa using h []
  | ok inv' => simpa using h [] _ .nil

/-- Operations that go on with `body` do what `body` does. -/
theorem Op.Leads.enter {scope : Scope} {stack : List String} {declared : Option ValueType}
    {inv inv' : Invocation} {ops body : List Op} {result : Except Halt Invocation}
    (h : Op.Leads scope stack declared inv' body result)
    (henter : ∀ rest result, Op.Evaluates scope stack declared inv' (body ++ rest) result →
      Op.Evaluates scope stack declared inv (ops ++ rest) result) :
    Op.Leads scope stack declared inv ops result := by
  cases result with
  | error halt => exact fun rest => henter rest _ (h rest)
  | ok inv'' => exact fun rest result hrest => henter rest result (h rest result hrest)

/-- A call handler does at `name` what evaluating the body of the callee does. -/
def CallHandler.Follows (scope : Scope) (onCall : CallHandler) (stack : List String)
    (name : String) : Prop :=
  ∀ declared inv, Op.Leads scope stack declared inv [.call name] (onCall name declared inv)

section Runs

variable {scope : Scope} {onCall : CallHandler} {stack : List String}

mutual

theorem Op.run_leads (declared : Option ValueType) (inv : Invocation) (op : Op)
    (hcalls : ∀ name, .call name ∈ op.steps → onCall.Follows scope stack name) :
    Op.Leads scope stack declared inv [op] (op.run scope onCall declared inv) := by
  match op with
  | .act a =>
    rw [Op.run]
    cases ha : scope.perform declared inv a with
    | error cause => exact fun rest => .actFails ha
    | ok inv' => exact fun rest result => .act ha
  | .call name =>
    rw [Op.run]
    exact hcalls name (by simp [Op.steps]) declared inv
  | .select single double =>
    rw [Op.run]
    cases htype : inv.valueType declared with
    | error cause => exact fun rest => .untyped htype
    | ok typed =>
      obtain ⟨type, inv'⟩ := typed
      cases hwidth : type.width with
      | single =>
        have harm := Op.runAll_leads declared inv' single fun name hname =>
          hcalls name (by simp [Op.steps, hname])
        simpa only [hwidth] using harm.enter fun rest result => .single htype hwidth
      | double =>
        have harm := Op.runAll_leads declared inv' double fun name hname =>
          hcalls name (by simp [Op.steps, hname])
        simpa only [hwidth] using harm.enter fun rest result => .double htype hwidth
  | .seq ops =>
    rw [Op.run]
    have hinner := Op.runAll_leads declared inv ops fun name hname =>
      hcalls name (by simpa [Op.steps] using hname)
    exact hinner.enter fun rest result => .seq

theorem Op.runAll_leads (declared : Option ValueType) (inv : Invocation) (ops : List Op)
    (hcalls : ∀ name, .call name ∈ Op.allSteps ops → onCall.Follows scope stack name) :
    Op.Leads scope stack declared inv ops (Op.runAll scope onCall declared inv ops) := by
  match ops with
  | [] =>
    rw [Op.runAll]
    exact fun rest result hrest => hrest
  | op :: ops =>
    have hop := Op.run_leads declared inv op fun name hname =>
      hcalls name (by simp [Op.allSteps, hname])
    rw [Op.runAll]
    cases hrun : op.run scope onCall declared inv with
    | error halt =>
      rw [hrun] at hop
      exact fun rest => hop (ops ++ rest)
    | ok inv' =>
      rw [hrun] at hop
      have hops := Op.runAll_leads declared inv' ops fun name hname =>
        hcalls name (by simp [Op.allSteps, hname])
      exact hops.enter fun rest result => hop (ops ++ rest) result

end

/-- A bound that covers the entries off the stack suffices for a call. -/
theorem Scope.call_follows (ht : scope.table.Checked) {bound : Nat} {caller : String}
    {outer : List String} (hstack : scope.table.CallStack (caller :: outer))
    (hbound : scope.table.entries.length ≤ bound + outer.length) {name : String}
    (hcall : name ∈ scope.table.callsOf caller) :
    (scope.call bound).Follows scope (caller :: outer) name := by
  induction bound generalizing caller outer name with
  | zero =>
    have hlen := hstack.length_le ht
    simp only [List.length_cons] at hlen
    omega
  | succ bound ih =>
    have hinner := hstack.call hcall
    have hnew : name ∉ caller :: outer := (List.nodup_cons.mp (hinner.nodup ht)).1
    obtain ⟨e, hfind⟩ := Option.isSome_iff_exists.mp
      (Table.find?_isSome_iff.mpr (ht.callee_mem_names hcall))
    intro declared inv
    have hbody := @Op.runAll_leads scope (scope.call bound) (name :: caller :: outer)
      (e.type.or declared) inv e.body fun callee hcallee =>
        ih hinner (by simp only [List.length_cons]; omega) (Table.mem_callsOf_of_step hfind hcallee)
    simp only [Scope.call, hfind]
    cases hrun : Op.runAll scope (scope.call bound) (e.type.or declared) inv e.body with
    | error halt =>
      rw [hrun] at hbody
      exact fun rest => .callFails hnew hfind hbody.evaluates
    | ok inv' =>
      rw [hrun] at hbody
      exact fun rest result => .call hnew hfind hbody.evaluates

end Runs

/-- Evaluating the body of an entry gives exactly what a run with a sufficient bound gives. -/
theorem Scope.evaluates_iff {scope : Scope} (ht : scope.table.Checked) {e : Entry}
    (he : e ∈ scope.table.entries) {bound : Nat} (hbound : scope.table.entries.length ≤ bound)
    {declared : Option ValueType} {inv : Invocation} {result : Except Halt Invocation} :
    Op.Evaluates scope [e.name] declared inv e.body result ↔
      result = Op.runAll scope (scope.call bound) declared inv e.body := by
  have hfind := Table.find?_eq_some_of_mem ht.distinct he
  have hrun := @Op.runAll_leads scope (scope.call bound) [e.name] declared inv e.body
    fun callee hcallee => Scope.call_follows ht (.entry he) (by simpa using hbound)
      (Table.mem_callsOf_of_step hfind hcallee)
  exact ⟨fun h => h.unique hrun.evaluates, fun h => h ▸ hrun.evaluates⟩

/-! ## Roles -/

namespace Table

/-- The roles of the control actions among steps, those of called entries included. A call goes only
to an entry that is not on the stack. -/
inductive Collects (t : Table) : List String → List Step → List IndentRole → Prop where
  | nil {stack} : Collects t stack [] []
  | control {stack kind steps roles} (hsteps : Collects t stack steps roles) :
      Collects t stack (.act (.control kind) :: steps) (kind.role :: roles)
  | other {stack a steps roles} (ha : ∀ kind, a ≠ .control kind)
      (hsteps : Collects t stack steps roles) : Collects t stack (.act a :: steps) roles
  | call {stack name e inner steps roles} (hnew : name ∉ stack) (hfind : t.find? name = some e)
      (hbody : Collects t (name :: stack) (Lowering.steps e.body) inner)
      (hsteps : Collects t stack steps roles) :
      Collects t stack (.call name :: steps) (inner ++ roles)
  | unresolved {stack name steps roles} (hfind : t.find? name = none)
      (hsteps : Collects t stack steps roles) : Collects t stack (.call name :: steps) roles

theorem Collects.unique {t : Table} {stack : List String} {steps : List Step}
    {r₁ r₂ : List IndentRole} (h₁ : t.Collects stack steps r₁) (h₂ : t.Collects stack steps r₂) :
    r₁ = r₂ := by
  induction h₁ generalizing r₂ with
  | nil =>
    cases h₂
    rfl
  | @control _ kind _ _ _ ih =>
    cases h₂ with
    | control hsteps' => rw [ih hsteps']
    | other ha' _ => exact absurd rfl (ha' kind)
  | other ha _ ih =>
    cases h₂ with
    | @control _ kind => exact absurd rfl (ha kind)
    | other _ hsteps' => exact ih hsteps'
  | call _ hfind _ _ ihbody ihsteps =>
    cases h₂ with
    | call _ hfind' hbody' hsteps' =>
      cases hfind.symm.trans hfind'
      rw [ihbody hbody', ihsteps hsteps']
    | unresolved hfind' _ => cases hfind.symm.trans hfind'
  | unresolved hfind _ ih =>
    cases h₂ with
    | call _ hfind' _ _ => cases hfind.symm.trans hfind'
    | unresolved _ hsteps' => exact ih hsteps'

/-- A bound that covers the entries off the stack suffices for the steps of the innermost one. -/
theorem Checked.rolesWithin_collects {t : Table} (ht : t.Checked) {bound : Nat} {caller : String}
    {outer : List String} (hstack : t.CallStack (caller :: outer))
    (hbound : t.entries.length ≤ bound + outer.length) {steps : List Step}
    (hsteps : ∀ name, .call name ∈ steps → name ∈ t.callsOf caller) :
    t.Collects (caller :: outer) steps (t.rolesWithin bound steps) := by
  induction bound generalizing caller outer steps with
  | zero =>
    have hlen := hstack.length_le ht
    simp only [List.length_cons] at hlen
    omega
  | succ bound ih =>
    induction steps with
    | nil => exact .nil
    | cons step steps ihsteps =>
      have hrest := ihsteps fun name hname => hsteps name (List.mem_cons_of_mem _ hname)
      rw [rolesWithin] at hrest ⊢
      rw [List.flatMap_cons]
      cases step with
      | act a =>
        cases a with
        | control kind => exact .control hrest
        | _ => exact .other (by simp) hrest
      | call name =>
        have hcall := hsteps name List.mem_cons_self
        have hinner := hstack.call hcall
        have hnew : name ∉ caller :: outer := (List.nodup_cons.mp (hinner.nodup ht)).1
        obtain ⟨e, hfind⟩ := Option.isSome_iff_exists.mp
          (find?_isSome_iff.mpr (ht.callee_mem_names hcall))
        have hbody := ih hinner (by simp only [List.length_cons]; omega)
          fun callee hcallee => mem_callsOf_of_step hfind hcallee
        simp only [hfind]
        exact .call hnew hfind hbody hrest

/-- Collecting the roles of an entry gives exactly what a sufficient bound gives. -/
theorem Checked.collects_iff {t : Table} (ht : t.Checked) {e : Entry} (he : e ∈ t.entries)
    {bound : Nat} (hbound : t.entries.length ≤ bound) {roles : List IndentRole} :
    t.Collects [e.name] (steps e.body) roles ↔ roles = t.rolesWithin bound (steps e.body) := by
  have hfind := find?_eq_some_of_mem ht.distinct he
  have hwithin := ht.rolesWithin_collects (.entry he) (by simpa using hbound)
    fun callee hcallee => mem_callsOf_of_step hfind hcallee
  exact ⟨fun h => h.unique hwithin, fun h => h ▸ hwithin⟩

end Table

/-! ## Libraries -/

/-- In every library, nested calls never come back to an entry, so they are at most as deep as there
are entries. The body of each entry evaluates without a bound to exactly one result, whatever the
operands, the declared type and the nesting, and so do its roles. Bounds from the number of entries on
give that result. -/
theorem Library.following_calls_ends (lib : Library) {e : Entry} (he : e ∈ lib.entries) {bound : Nat}
    (hbound : lib.entries.length ≤ bound) :
    (∀ stack, lib.table.CallStack stack → stack.Nodup ∧ stack.length ≤ lib.entries.length) ∧
    (∀ (className mnemonic : String) (declared : Option ValueType) (inv : Invocation),
      let scope : Scope := ⟨lib.table, className, mnemonic⟩
      let result := Op.runAll scope (scope.call lib.entries.length) declared inv e.body
      (∀ r, Op.Evaluates scope [e.name] declared inv e.body r ↔ r = result) ∧
        Op.runAll scope (scope.call bound) declared inv e.body = result) ∧
    (∀ roles, lib.table.Collects [e.name] (steps e.body) roles ↔
      roles = lib.table.rolesWithin lib.entries.length (steps e.body)) ∧
    lib.table.rolesWithin bound (steps e.body) =
      lib.table.rolesWithin lib.entries.length (steps e.body) := by
  have ht := lib.table_checked
  refine ⟨fun stack hstack => ⟨hstack.nodup ht, hstack.length_le ht⟩, ?_, ?_, ?_⟩
  · intro className mnemonic declared inv scope result
    have hleast : ∀ r, Op.Evaluates scope [e.name] declared inv e.body r ↔ r = result :=
      fun r => Scope.evaluates_iff ht he (Nat.le_refl _)
    have hlarger : Op.Evaluates scope [e.name] declared inv e.body
        (Op.runAll scope (scope.call bound) declared inv e.body) :=
      (Scope.evaluates_iff ht he hbound).mpr rfl
    exact ⟨hleast, (hleast _).mp hlarger⟩
  · exact fun roles => ht.collects_iff he (Nat.le_refl _)
  · exact (ht.collects_iff he (Nat.le_refl _)).mp ((ht.collects_iff he hbound).mpr rfl)

/-- A library with a call inside each arm of a choice. -/
def nestedCalls : Library :=
  .ofTable
    { name := "nested"
      isa := jvm
      entries :=
        [{ name := "OUTER", body := [.select [.call "inner"] [.seq [.call "inner"]]] },
         { name := "inner", visibility := .auxiliary, body := [.emit "nop"] }] }
    (by decide +kernel)

theorem nestedCalls_following_calls_ends :
    nestedCalls.entries.length ≤ 7 ∧
    ∃ e ∈ nestedCalls.entries, e.name = "OUTER" ∧ ∀ inv,
      let scope : Scope := ⟨nestedCalls.table, "Module", "OUTER"⟩
      Op.Evaluates scope ["OUTER"] none inv e.body
        (Op.runAll scope (scope.call 7) none inv e.body) := by
  refine ⟨by decide, _, List.mem_cons_self, rfl, ?_⟩
  intro inv scope
  have hends := Library.following_calls_ends nestedCalls List.mem_cons_self
    (show nestedCalls.entries.length ≤ 7 by decide)
  obtain ⟨hevaluates, hbound⟩ := hends.2.1 "Module" "OUTER" none inv
  exact (hevaluates _).mpr hbound

end Lowering
