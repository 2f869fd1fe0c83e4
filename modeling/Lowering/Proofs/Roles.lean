-- SUMMARY: The role of an entry says what its actions, and those of the entries it calls, can do.
import Lowering.Proofs.CallDepth
import Lowering.Proofs.Effects
import Lowering.Proofs.LabelCount

/-!
# Roles

In a checked table, every action that an entry can reach through calls plays the declared role of the
entry in the nesting, or none. So what the actions of that role keep, the entry keeps. In particular an
entry of no role leaves the open constructs alone.
-/

namespace Lowering

/-! ## Roles within a bound -/

namespace Table

/-- The common role of some roles is the only one among them, other than none. -/
theorem commonRole?_eq_some_iff {roles : List IndentRole} {role : IndentRole} :
    commonRole? roles = some role ↔ ∀ r, r ≠ .none → (r ∈ roles ↔ r = role) := by
  have hmem : ∀ r, r ≠ .none → (r ∈ roles ↔ r ∈ roles.filter (· ≠ .none)) := by
    intro r hr
    simp [hr]
  unfold commonRole?
  split
  · rename_i hfilter
    simp only [hfilter, List.not_mem_nil, iff_false] at hmem
    constructor
    · rintro ⟨⟩ r hr
      exact iff_of_false (hmem r hr) hr
    · intro h
      by_contra hrole
      have hne : role ≠ .none := fun heq => hrole (congrArg some heq.symm)
      exact hmem role hne ((h role hne).mpr rfl)
  · rename_i first rest hfilter
    have hfirst : first ≠ .none := by
      have hin : first ∈ roles.filter (· ≠ .none) := hfilter ▸ List.mem_cons_self
      simpa using (List.mem_filter.mp hin).2
    rw [hfilter] at hmem
    split
    · rename_i hall
      simp only [List.all_eq_true, decide_eq_true_eq] at hall
      constructor
      · rintro ⟨⟩ r hr
        rw [hmem r hr, List.mem_cons]
        exact ⟨fun h => h.elim id (hall r), .inl⟩
      · intro h
        exact congrArg some ((h first hfirst).mp ((hmem first hfirst).mpr List.mem_cons_self))
    · rename_i hall
      refine iff_of_false (by simp) fun h => hall ?_
      simp only [List.all_eq_true, decide_eq_true_eq]
      have hrole : ∀ r ∈ first :: rest, r = role := by
        intro r hr
        have hne : r ≠ .none := by
          have hin : r ∈ roles.filter (· ≠ .none) := hfilter ▸ hr
          simpa using (List.mem_filter.mp hin).2
        exact (h r hne).mp ((hmem r hne).mpr hr)
      intro r hr
      rw [hrole r (List.mem_cons_of_mem _ hr), hrole first List.mem_cons_self]

/-- Other than none, the roles within a bound are those of the actions, and those within the bound
below of the entries that are called. -/
theorem mem_rolesWithin_succ {t : Table} {bound : Nat} {steps : List Step} {r : IndentRole}
    (hr : r ≠ .none) :
    r ∈ t.rolesWithin (bound + 1) steps ↔
      (∃ a, .act a ∈ steps ∧ a.role = r) ∨
        ∃ name e, .call name ∈ steps ∧ t.find? name = some e ∧
          r ∈ t.rolesWithin bound (Lowering.steps e.body) := by
  simp only [rolesWithin, List.mem_flatMap]
  constructor
  · rintro ⟨step, hstep, hrole⟩
    cases step with
    | act a =>
      cases a with
      | control kind => exact .inl ⟨_, hstep, (List.mem_singleton.mp hrole).symm⟩
      | _ => cases hrole
    | call name =>
      simp only at hrole
      split at hrole
      · exact .inr ⟨name, _, hstep, ‹_›, hrole⟩
      · cases hrole
  · rintro (⟨a, hstep, rfl⟩ | ⟨name, e, hstep, hfind, hrole⟩)
    · cases a with
      | control kind => exact ⟨_, hstep, List.mem_singleton.mpr rfl⟩
      | _ => exact absurd rfl hr
    · refine ⟨_, hstep, ?_⟩
      simpa only [hfind] using hrole

/-- Other than none, an entry has one role within every sufficient bound, the declared one. -/
theorem Checked.mem_rolesWithin {t : Table} (ht : t.Checked) {e : Entry} (he : e ∈ t.entries)
    {bound : Nat} (hbound : t.entries.length ≤ bound) {r : IndentRole} (hr : r ≠ .none) :
    r ∈ t.rolesWithin bound (steps e.body) ↔ r = e.role := by
  have hsame : t.rolesWithin bound (steps e.body) =
      t.rolesWithin t.entries.length (steps e.body) :=
    (ht.collects_iff he (Nat.le_refl _)).mp ((ht.collects_iff he hbound).mpr rfl)
  rw [hsame]
  exact commonRole?_eq_some_iff.mp (ht.fitting e he) r hr

end Table

/-! ## Open constructs -/

theorem Effect.frames_eq {scope : Scope} {inv inv' : Invocation} (h : Effect scope inv .none inv') :
    inv'.nesting.frames = inv.nesting.frames := by
  cases h
  rfl

/-- An action of no role leaves the open constructs alone. -/
theorem Scope.perform_frames {scope : Scope} {declared : Option ValueType} {inv inv' : Invocation}
    {a : Action} (ha : a.role = .none) (h : scope.perform declared inv a = .ok inv') :
    inv'.nesting.frames = inv.nesting.frames := by
  by_cases hlocal : a = .localLabel
  · subst hlocal
    cases h
    cases hown : inv.localLabel with
    | some own => rw [Invocation.insertLocalLabel_of_some hown]
    | none => rw [Invocation.insertLocalLabel_of_none hown]
  by_cases hplace : a = .placeLabel
  · subst hplace
    obtain ⟨field, rest, target, -, -, rfl⟩ := Scope.perform_placeLabel h
    rfl
  exact (ha ▸ Scope.perform_effect hlocal hplace h : Effect scope inv .none inv').frames_eq

/-! ## Runs -/

/-- Operations whose roles are among some roles perform actions of these roles, and call entries whose
roles are among them. -/
theorem Table.among_of_roles {t : Table} {R : IndentRole → Prop} (hnone : R .none) {bound : Nat}
    {steps : List Step}
    (hroles : ∀ r, r ≠ .none → r ∈ t.rolesWithin (bound + 1) steps → R r) :
    ∀ step ∈ steps, step.Among (fun a => R a.role) fun name => ∀ e, t.find? name = some e →
      ∀ r, r ≠ .none → r ∈ t.rolesWithin bound (Lowering.steps e.body) → R r := by
  intro step hstep
  cases step with
  | act a =>
    show R a.role
    by_cases ha : a.role = .none
    · rw [ha]
      exact hnone
    · exact hroles _ ha ((mem_rolesWithin_succ ha).mpr (.inl ⟨a, hstep, rfl⟩))
  | call name =>
    intro e he r hr hmem
    exact hroles r hr ((mem_rolesWithin_succ hr).mpr (.inr ⟨name, e, hstep, he, hmem⟩))

/-- What the actions of some roles keep, operations keep whose roles are among them. -/
theorem Scope.runAll_keeps_of_roles {scope : Scope} {P : Invocation → Prop} {R : IndentRole → Prop}
    (hnone : R .none) (htypes : KeptByTypes P)
    (hacts : ∀ declared a, R a.role → Keeps P (scope.perform declared · a)) {bound : Nat}
    {ops : List Op}
    (hroles : ∀ r, r ≠ .none → r ∈ scope.table.rolesWithin (bound + 1) (steps ops) → R r)
    (declared : Option ValueType) : Keeps P (Op.runAll scope (scope.call bound) declared · ops) := by
  -- The bound goes down by one with every call, for the run as for the roles.
  induction bound generalizing ops declared with
  | zero =>
    refine Op.runAll_keeps htypes (hacts declared) ?_ (Table.among_of_roles hnone hroles)
    intro name _ inv inv' _ hcall
    cases hcall
  | succ bound ih =>
    refine Op.runAll_keeps htypes (hacts declared) ?_ (Table.among_of_roles hnone hroles)
    intro name hname inv inv' hinv hcall
    simp only [Scope.call] at hcall
    split at hcall
    · rename_i e he
      exact ih (hname e he) _ hinv hcall
    · cases hcall

namespace UnitState

variable {state state' : UnitState} {lib : Library} {className mnemonic : String}
  {operands : List String} {id : Nat} {e : Entry}

/-- What the actions of the role of an entry keep, and those of no role, an invocation keeps. -/
theorem invoke_keeps {P : Invocation → Prop} (hstart : P (state.start operands))
    (htypes : KeptByTypes P) (he : e ∈ lib.table.entries)
    (hacts : ∀ declared a, a.role = .none ∨ a.role = e.role →
      Keeps P (Scope.perform ⟨lib.table, className, mnemonic⟩ declared · a))
    {inv : Invocation} (h : state.invoke ⟨lib.table, className, mnemonic⟩ e operands = .ok inv) :
    P inv := by
  refine Scope.runAll_keeps_of_roles (R := fun r => r = .none ∨ r = e.role) (.inl rfl) htypes hacts
    (fun r hr hmem => .inr ?_) e.type hstart (invoke_eq_ok_iff.mp h).1
  exact (lib.table_checked.mem_rolesWithin he (Nat.le_succ _) hr).mp hmem

/-- An instruction of no role leaves the open constructs alone. -/
theorem expand_frames (hlookup : lib.lookup mnemonic = .ok (id, e)) (hrole : e.role = .none)
    {x : Expansion} (h : state.expand lib className mnemonic operands = (.ok x, state')) :
    state'.nesting.frames = state.nesting.frames := by
  obtain ⟨id', e', inv, hlookup', hinvoke, -, rfl⟩ := expand_eq_ok h
  cases hlookup.symm.trans hlookup'
  refine invoke_keeps (P := fun inv => inv.nesting.frames = state.nesting.frames) rfl ?_
    (Library.lookup_eq_ok hlookup).1 ?_ hinvoke
  · intro inv inv' declared type hinv htype
    have heffect := @Invocation.valueType_effect ⟨lib.table, className, mnemonic⟩ _ _ _ _ htype
    exact heffect.frames_eq.trans hinv
  · intro declared a ha inv inv' hinv hact
    rw [hrole, or_self] at ha
    exact (Scope.perform_frames ha hact).trans hinv

end UnitState

end Lowering
