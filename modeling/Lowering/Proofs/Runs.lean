-- SUMMARY: Properties of invocations that every run of operations keeps.
import Lowering.Expansion

/-!
# Runs of operations

An invocation changes in two ways only: by an action, and by reading its value type. What both keep, any
run of operations keeps, through the calls as well. A property may depend on which actions are
performed and which entries are called, as long as the entries called perform such actions and call
such entries themselves.
-/

namespace Lowering

/-! ## Sequences -/

theorem ok_of_bind_ok {α β ε : Type} {x : Except ε α} {f : α → Except ε β} {b : β}
    (h : (x >>= f) = .ok b) : ∃ a, x = .ok a ∧ f a = .ok b := by
  cases x with
  | error e => cases h
  | ok a => exact ⟨a, rfl, h⟩

theorem ok_of_map_ok {α β ε : Type} {x : Except ε α} {f : α → β} {b : β} (h : x.map f = .ok b) :
    ∃ a, x = .ok a ∧ f a = b := by
  cases x with
  | error e => cases h
  | ok a => exact ⟨a, rfl, Except.ok.inj h⟩

theorem bind_of_ok {α β ε : Type} {x : Except ε α} {a : α} (h : x = .ok a) (f : α → Except ε β) :
    (x >>= f) = f a := by
  rw [h]
  rfl

theorem exists_ok_of_toOption {α β γ ε : Type} {r : Except ε α × β} {f : α → γ} {c : γ}
    (h : r.1.toOption.map f = some c) : ∃ a b, r = (.ok a, b) ∧ f a = c := by
  obtain ⟨_ | a, b⟩ := r
  · cases h
  · exact ⟨a, b, rfl, Option.some.inj h⟩

/-- Stopping at failures changes no success. -/
theorem Invocation.orHalt_eq_ok_iff {α : Type} {inv : Invocation} {result : Except Cause α} {a : α} :
    inv.orHalt result = .ok a ↔ result = .ok a := by
  constructor
  · intro h
    cases result with
    | error cause => cases h
    | ok b => exact congrArg Except.ok (Except.ok.inj h)
  · rintro rfl
    rfl

theorem Op.runAll_cons (scope : Scope) (onCall : CallHandler) (declared : Option ValueType)
    (inv : Invocation) (op : Op) (ops : List Op) :
    Op.runAll scope onCall declared inv (op :: ops) =
      Op.run scope onCall declared inv op >>= (Op.runAll scope onCall declared · ops) := by
  rw [Op.runAll]
  cases Op.run scope onCall declared inv op <;> rfl

theorem Op.runAll_append (scope : Scope) (onCall : CallHandler) (declared : Option ValueType)
    (inv : Invocation) (ops ops' : List Op) :
    Op.runAll scope onCall declared inv (ops ++ ops') =
      Op.runAll scope onCall declared inv ops >>= (Op.runAll scope onCall declared · ops') := by
  induction ops generalizing inv with
  | nil => rfl
  | cons op ops ih =>
    rw [List.cons_append, Op.runAll_cons, Op.runAll_cons]
    cases Op.run scope onCall declared inv op with
    | error halt => rfl
    | ok inv₁ => exact ih inv₁

theorem Op.runAll_singleton (scope : Scope) (onCall : CallHandler) (declared : Option ValueType)
    (inv : Invocation) (a : Action) :
    Op.runAll scope onCall declared inv [.act a] = inv.orHalt (scope.perform declared inv a) := by
  rw [Op.runAll_cons, Op.run]
  cases scope.perform declared inv a <;> rfl

theorem Op.runAll_last {scope : Scope} {onCall : CallHandler} {declared : Option ValueType}
    {inv inv' : Invocation} {a : Action} (h : scope.perform declared inv a = .ok inv') :
    Op.runAll scope onCall declared inv [.act a] = .ok inv' :=
  (Op.runAll_singleton ..).trans (Invocation.orHalt_eq_ok_iff.mpr h)

/-- After an action that succeeds, a run goes on from there. -/
theorem Op.runAll_act {scope : Scope} {onCall : CallHandler} {declared : Option ValueType}
    {inv inv' : Invocation} {a : Action} {ops : List Op} {result : Except Halt Invocation}
    (h : scope.perform declared inv a = .ok inv')
    (hrest : Op.runAll scope onCall declared inv' ops = result) :
    Op.runAll scope onCall declared inv (.act a :: ops) = result := by
  rw [Op.runAll_cons, Op.run]
  exact (bind_of_ok (Invocation.orHalt_eq_ok_iff.mpr h) _).trans hrest

namespace Scope

variable {scope : Scope} {opcode name : String}

theorem emitNamed_none (h : scope.table.isa.find? opcode = some ⟨name, .none⟩) (inv : Invocation) :
    scope.emitNamed opcode inv = .ok (inv.emit (.insn name [])) := by
  simp only [emitNamed, h]
  rfl

theorem emitNamed_one (h : scope.table.isa.find? opcode = some ⟨name, .one⟩) {inv : Invocation} {f : Field}
    {rest : Operands} (hoperands : inv.operands = f :: rest) :
    scope.emitNamed opcode inv = .ok ({ inv with operands := rest }.emit (.insn name [f.shown])) := by
  obtain ⟨operands, nesting, nextSite, annotated, localLabel, primitives, notices⟩ := inv
  subst hoperands
  simp only [emitNamed, h]
  rfl

theorem emitNamed_two (h : scope.table.isa.find? opcode = some ⟨name, .two⟩) {inv : Invocation}
    {f g : Field} {rest : Operands} (hoperands : inv.operands = f :: g :: rest) :
    scope.emitNamed opcode inv =
      .ok ({ inv with operands := rest }.emit (.insn name [f.shown, g.shown])) := by
  obtain ⟨operands, nesting, nextSite, annotated, localLabel, primitives, notices⟩ := inv
  subst hoperands
  simp only [emitNamed, h]
  rfl

end Scope

/-! ## Kept properties -/

/-- Whatever `f` makes of an invocation with the property has it too. -/
def Keeps {ε : Type} (P : Invocation → Prop) (f : Invocation → Except ε Invocation) : Prop :=
  ∀ ⦃inv inv'⦄, P inv → f inv = .ok inv' → P inv'

/-- Reading the value type keeps the property. -/
def KeptByTypes (P : Invocation → Prop) : Prop :=
  ∀ ⦃inv inv' declared type⦄, P inv → Invocation.valueType inv declared = .ok (type, inv') → P inv'

/-- The step performs one of the actions `A` or calls one of the entries `C`. -/
def Step.Among (A : Action → Prop) (C : String → Prop) : Step → Prop
  | .act a => A a
  | .call name => C name

theorem Step.among_all (step : Step) : step.Among (fun _ => True) (fun _ => True) := by
  cases step <;> trivial

variable {P : Invocation → Prop} {A : Action → Prop} {C : String → Prop} {scope : Scope}

-- The induction is on the syntax of operations; calls are left to the handler.
mutual

theorem Op.run_keeps {onCall : CallHandler} {declared : Option ValueType} (htypes : KeptByTypes P)
    (hact : ∀ a, A a → Keeps P (scope.perform declared · a))
    (hcall : ∀ name, C name → Keeps P (onCall name declared)) {op : Op}
    (hsteps : ∀ step ∈ op.steps, step.Among A C) :
    Keeps P (Op.run scope onCall declared · op) := by
  intro inv inv' hinv h
  match op with
  | .act a =>
    simp only [Op.run] at h
    exact hact a (hsteps (.act a) (by simp [Op.steps])) hinv (Invocation.orHalt_eq_ok_iff.mp h)
  | .call name =>
    simp only [Op.run] at h
    exact hcall name (hsteps (.call name) (by simp [Op.steps])) hinv h
  | .select single double =>
    simp only [Op.run] at h
    simp only [Op.steps, List.mem_append] at hsteps
    split at h
    · cases h
    · rename_i type inv₁ htype
      have hinv₁ : P inv₁ := htypes hinv htype
      split at h
      · exact Op.runAll_keeps htypes hact hcall (fun s hs => hsteps s (.inl hs)) hinv₁ h
      · exact Op.runAll_keeps htypes hact hcall (fun s hs => hsteps s (.inr hs)) hinv₁ h
  | .seq ops =>
    simp only [Op.run] at h
    exact Op.runAll_keeps htypes hact hcall (by simpa only [Op.steps] using hsteps) hinv h

theorem Op.runAll_keeps {onCall : CallHandler} {declared : Option ValueType} (htypes : KeptByTypes P)
    (hact : ∀ a, A a → Keeps P (scope.perform declared · a))
    (hcall : ∀ name, C name → Keeps P (onCall name declared)) {ops : List Op}
    (hsteps : ∀ step ∈ Op.allSteps ops, step.Among A C) :
    Keeps P (Op.runAll scope onCall declared · ops) := by
  intro inv inv' hinv h
  match ops with
  | [] =>
    cases h
    exact hinv
  | op :: ops =>
    simp only [Op.runAll] at h
    simp only [Op.allSteps, List.mem_append] at hsteps
    split at h
    · cases h
    · rename_i inv₁ hop
      have hinv₁ : P inv₁ :=
        Op.run_keeps htypes hact hcall (fun s hs => hsteps s (.inl hs)) hinv hop
      exact Op.runAll_keeps htypes hact hcall (fun s hs => hsteps s (.inr hs)) hinv₁ h

end

namespace Scope

/-- What a property needs to survive any run in the scope: the actions and the value types keep it, and
the entries stay among the actions and the entries. -/
structure Stable (scope : Scope) (P : Invocation → Prop) (A : Action → Prop) (C : String → Prop) :
    Prop where
  types : KeptByTypes P
  acts : ∀ declared a, A a → Keeps P (scope.perform declared · a)
  closed : ∀ name e, C name → scope.table.find? name = some e →
    ∀ step ∈ steps e.body, step.Among A C

theorem Stable.call (h : scope.Stable P A C) {bound : Nat} {name : String} (hname : C name)
    (declared : Option ValueType) : Keeps P (scope.call bound name declared) := by
  intro inv inv' hinv hrun
  induction bound generalizing name declared inv inv' with
  | zero => cases hrun
  | succ bound ih =>
    simp only [Scope.call] at hrun
    split at hrun
    · rename_i e he
      exact Op.runAll_keeps h.types (h.acts _) (fun _ hcallee => ih hcallee _)
        (h.closed name e hname he) hinv hrun
    · cases hrun

/-- A run of operations among the actions and entries keeps the property. -/
theorem Stable.runAll (h : scope.Stable P A C) {bound : Nat} {declared : Option ValueType}
    {ops : List Op} (hops : ∀ step ∈ steps ops, step.Among A C) :
    Keeps P (Op.runAll scope (scope.call bound) declared · ops) :=
  Op.runAll_keeps h.types (h.acts _) (fun _ hname => h.call hname _) hops

end Scope

/-! ## Instructions -/

/-- A mnemonic selects an external entry, which stands at its position. -/
theorem Library.getElem?_of_lookup {lib : Library} {mnemonic : String} {id : Nat} {e : Entry}
    (h : lib.lookup mnemonic = .ok (id, e)) : lib.entries[id]? = some e ∧ e.visibility = .external := by
  unfold Library.lookup at h
  split at h
  · cases h
  · split at h
    · cases h
    · rename_i hentry
      split at h
      · rename_i hexternal
        cases h
        exact ⟨hentry, hexternal⟩
      · cases h

/-- A mnemonic selects an external entry of the library. -/
theorem Library.lookup_eq_ok {lib : Library} {mnemonic : String} {id : Nat} {e : Entry}
    (h : lib.lookup mnemonic = .ok (id, e)) : e ∈ lib.table.entries ∧ e.visibility = .external :=
  (getElem?_of_lookup h).imp_left List.mem_of_getElem?

namespace UnitState

/-- The invocation with which an instruction starts. -/
def start (state : UnitState) (operands : List String) : Invocation :=
  { operands := .ofTexts operands, nesting := state.nesting, nextSite := state.nextSite }

theorem label_notMem_start (state : UnitState) (operands : List String) (l : Label) :
    .label l ∉ (state.start operands).operands := by
  simp [start, Operands.ofTexts]

theorem invoke_eq_ok_iff {state : UnitState} {scope : Scope} {e : Entry} {operands : List String}
    {inv : Invocation} :
    state.invoke scope e operands = .ok inv ↔
      scope.runEntry scope.table.entries.length e (state.start operands) = .ok inv ∧
        inv.operands = [] := by
  have hcomplete : ∀ inv₁ : Invocation,
      inv₁.orHalt inv₁.complete = .ok inv ↔ inv₁ = inv ∧ inv.operands = [] := by
    intro inv₁
    rw [Invocation.orHalt_eq_ok_iff, Invocation.complete]
    split
    · rename_i hempty
      rw [Except.ok.injEq, iff_self_and]
      rintro rfl
      exact List.isEmpty_iff.mp hempty
    · rename_i hleft
      refine iff_of_false (by simp) ?_
      rintro ⟨rfl, hempty⟩
      exact hleft (List.isEmpty_iff.mpr hempty)
  constructor
  · intro h
    obtain ⟨inv₁, hrun, h⟩ := ok_of_bind_ok h
    obtain ⟨rfl, hempty⟩ := (hcomplete inv₁).mp h
    exact ⟨hrun, hempty⟩
  · rintro ⟨hrun, hempty⟩
    rw [invoke]
    exact (bind_of_ok hrun _).trans ((hcomplete inv).mpr ⟨rfl, hempty⟩)

/-- What every action keeps, an instruction that succeeds keeps. -/
theorem invoke_stable {P : Invocation → Prop} {state : UnitState} {scope : Scope} {e : Entry}
    {operands : List String} {inv : Invocation}
    (h : scope.Stable P (fun _ => True) (fun _ => True)) (hstart : P (state.start operands))
    (hinvoke : state.invoke scope e operands = .ok inv) : P inv :=
  h.runAll (fun step _ => step.among_all) hstart (invoke_eq_ok_iff.mp hinvoke).1

theorem expand_of_invoke {state : UnitState} {lib : Library} {className mnemonic : String}
    {operands : List String} {id : Nat} {e : Entry} {inv : Invocation}
    (hlookup : lib.lookup mnemonic = .ok (id, e))
    (hinvoke : state.invoke ⟨lib.table, className, mnemonic⟩ e operands = .ok inv) :
    ∃ x, state.expand lib className mnemonic operands = (.ok x, inv.unit) ∧
      x.primitives = inv.primitives := by
  unfold expand expandBy
  simp only [hlookup, hinvoke]
  exact ⟨_, rfl, rfl⟩

theorem expand_eq_ok {state state' : UnitState} {lib : Library} {className mnemonic : String}
    {operands : List String} {x : Expansion}
    (h : state.expand lib className mnemonic operands = (.ok x, state')) :
    ∃ id e inv, lib.lookup mnemonic = .ok (id, e) ∧
      state.invoke ⟨lib.table, className, mnemonic⟩ e operands = .ok inv ∧
      x.primitives = inv.primitives ∧ state' = inv.unit := by
  unfold expand expandBy at h
  split at h
  · cases h
  · rename_i id e hlookup
    split at h
    · cases h
    · rename_i inv hinvoke
      cases h
      exact ⟨id, e, inv, hlookup, hinvoke, rfl, rfl⟩

/-- Putting back what an expansion may have changed puts back everything. -/
theorem restore_eq (state saved : UnitState) : state.restore saved = saved := rfl

/-- Wherever an expansion fails, the unit is as it was before. -/
theorem expand_eq_error {state state' : UnitState} {lib : Library} {className mnemonic : String}
    {operands : List String} {failure : Failure}
    (h : state.expand lib className mnemonic operands = (.error failure, state')) : state' = state := by
  unfold expand expandBy at h
  split at h
  · cases h
    rfl
  · split at h
    · rename_i halt _
      cases h
      exact restore_eq halt.unit state
    · cases h

end UnitState

end Lowering
