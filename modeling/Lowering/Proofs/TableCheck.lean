-- SUMMARY: A check of tables that can be evaluated in proofs, and that implies all other checks.
import Lowering.Proofs.Cycles
import Lowering.Proofs.KeyTree
import Lowering.Proofs.Roles

/-!
# Checking large tables

The entries of a table can be listed so that each one calls only entries before it, and then its role
follows from its own actions and from the declared roles of the entries that it calls. A table that is
written in such an order passes its checks if every entry passes a check of its own, which follows no
calls. With the names in a search tree, that check evaluates quickly.
-/

namespace Lowering.Table

/-! ## Roles -/

/-- The roles of the actions among the steps, and the declared roles of the entries that they call. -/
def declaredRoles (t : Table) (steps : List Step) : List IndentRole :=
  steps.flatMap fun
    | .act a => [a.role]
    | .call name => (t.find? name).toList.map Entry.role

theorem mem_declaredRoles {t : Table} {steps : List Step} {r : IndentRole} :
    r ∈ t.declaredRoles steps ↔
      (∃ a, .act a ∈ steps ∧ a.role = r) ∨
        ∃ name e, .call name ∈ steps ∧ t.find? name = some e ∧ e.role = r := by
  simp only [declaredRoles, List.mem_flatMap]
  constructor
  · rintro ⟨step, hstep, hr⟩
    cases step with
    | act a => exact .inl ⟨a, hstep, (List.mem_singleton.mp hr).symm⟩
    | call name =>
      obtain ⟨e, he, rfl⟩ := List.mem_map.mp hr
      exact .inr ⟨name, e, hstep, Option.mem_toList.mp he, rfl⟩
  · rintro (⟨a, hstep, rfl⟩ | ⟨name, e, hstep, hfind, rfl⟩)
    · exact ⟨_, hstep, List.mem_singleton.mpr rfl⟩
    · exact ⟨_, hstep, List.mem_map.mpr ⟨e, Option.mem_toList.mpr hfind, rfl⟩⟩

/-! ## Ordered tables -/

/-- A table whose entries call only entries before them, each sound and of the role that its actions
and the declared roles of its callees have in common. -/
structure Ordered (t : Table) : Prop where
  distinct : t.names.Nodup
  earlier : ∀ (i : Nat) (e : Entry), t.entries[i]? = some e → ∀ callee ∈ e.calls,
    ∃ (j : Nat) (e' : Entry), j < i ∧ t.entries[j]? = some e' ∧ e'.name = callee
  sound : ∀ e ∈ t.entries, ∀ step ∈ steps e.body, t.stepFault? e.name step = none
  fitting : ∀ e ∈ t.entries, commonRole? (t.declaredRoles (steps e.body)) = some e.role
  external : ∃ e ∈ t.entries, e.visibility = .external

namespace Ordered

variable {t : Table}

theorem idxOf_name (ht : t.Ordered) {i : Nat} {e : Entry} (he : t.entries[i]? = some e) :
    t.names.idxOf e.name = i := by
  obtain ⟨hlt, rfl⟩ := List.getElem?_eq_some_iff.mp he
  have hname : t.names[i]? = some t.entries[i].name := by simp [names, hlt]
  obtain ⟨hlt', hname⟩ := List.getElem?_eq_some_iff.mp hname
  rw [← hname, ht.distinct.idxOf_getElem]

/-- The position of an entry is a rank that every call lowers. -/
theorem idxOf_lt (ht : t.Ordered) {caller callee : String} (hcallee : callee ∈ t.callsOf caller) :
    t.names.idxOf callee < t.names.idxOf caller := by
  obtain ⟨e, hfind, hcall⟩ := mem_callsOf_iff.mp hcallee
  obtain ⟨i, hi⟩ := List.mem_iff_getElem?.mp (find?_mem hfind)
  obtain ⟨j, e', hj, he', rfl⟩ := ht.earlier i e hi callee hcall
  rw [← find?_name hfind, ht.idxOf_name hi, ht.idxOf_name he']
  exact hj

/-- Within a bound beyond its position, the roles of an entry have its declared role in common. -/
theorem commonRole?_rolesWithin (ht : t.Ordered) {i : Nat} {e : Entry}
    (he : t.entries[i]? = some e) {bound : Nat} (hbound : i < bound) :
    commonRole? (t.rolesWithin bound (steps e.body)) = some e.role := by
  -- The bound goes down by one with every call, and the position by at least one.
  induction bound generalizing i e with
  | zero => exact absurd hbound (Nat.not_lt_zero i)
  | succ bound ih =>
    have hdeclared := ht.fitting e (List.mem_of_getElem? he)
    rw [commonRole?_eq_some_iff] at hdeclared ⊢
    intro r hr
    rw [← hdeclared r hr, mem_rolesWithin_succ hr, mem_declaredRoles]
    refine or_congr Iff.rfl (exists_congr fun name => exists_congr fun e' => ?_)
    refine and_congr_right fun hstep => and_congr_right fun hfind => ?_
    obtain ⟨j, e'', hj, he'', hname⟩ := ht.earlier i e he name
      (List.mem_filterMap.mpr ⟨_, hstep, rfl⟩)
    have hsame : e'' = e' := by
      have hfound := find?_eq_some_of_mem ht.distinct (List.mem_of_getElem? he'')
      rw [hname, hfind] at hfound
      exact (Option.some.inj hfound).symm
    subst hsame
    have hrole := commonRole?_eq_some_iff.mp (ih he'' (by omega)) r hr
    exact hrole.trans eq_comm

theorem checked (ht : t.Ordered) : t.Checked where
  distinct := ht.distinct
  resolved e he callee hcallee := by
    obtain ⟨i, hi⟩ := List.mem_iff_getElem?.mp he
    obtain ⟨j, e', -, he', rfl⟩ := ht.earlier i e hi callee hcallee
    exact List.mem_map_of_mem (List.mem_of_getElem? he')
  acyclic := cycle?_eq_none_of_rank fun _ _ => ht.idxOf_lt
  sound := ht.sound
  fitting e he := by
    obtain ⟨i, hi⟩ := List.mem_iff_getElem?.mp he
    exact ht.commonRole?_rolesWithin hi (List.getElem?_eq_some_iff.mp hi).1
  external := ht.external

/-- The entries of an ordered table up to any point make an ordered table, as long as one of them is
external. -/
theorem initial {t' : Table} (ht : t.Ordered) (hisa : t'.isa = t.isa) (hstyle : t'.style = t.style)
    {further : List Entry} (hentries : t.entries = t'.entries ++ further)
    (hexternal : ∃ e ∈ t'.entries, e.visibility = .external) : t'.Ordered := by
  have hmem : ∀ e ∈ t'.entries, e ∈ t.entries := by
    intro e he
    rw [hentries]
    exact List.mem_append_left _ he
  have hearlier : ∀ (i : Nat) (e : Entry), t'.entries[i]? = some e → ∀ callee ∈ e.calls,
      ∃ (j : Nat) (e' : Entry), j < i ∧ t'.entries[j]? = some e' ∧ e'.name = callee := by
    intro i e he callee hcallee
    have hi : i < t'.entries.length := (List.getElem?_eq_some_iff.mp he).1
    have he' : t.entries[i]? = some e := by rw [hentries, List.getElem?_append_left hi, he]
    obtain ⟨j, e', hj, hfound, hname⟩ := ht.earlier i e he' callee hcallee
    rw [hentries, List.getElem?_append_left (Nat.lt_trans hj hi)] at hfound
    exact ⟨j, e', hj, hfound, hname⟩
  refine ⟨?_, hearlier, ?_, ?_, hexternal⟩
  · have hdistinct := ht.distinct
    rw [names, hentries, List.map_append] at hdistinct
    exact hdistinct.of_append_left
  · intro e he step hstep
    have hsound := ht.sound e (hmem e he) step hstep
    unfold stepFault? at hsound ⊢
    rwa [hisa, hstyle]
  · intro e he
    rw [← ht.fitting e (hmem e he)]
    congr 1
    refine List.flatMap_congr fun step hstep => ?_
    cases step with
    | act a => rfl
    | call name =>
      obtain ⟨i, hi⟩ := List.mem_iff_getElem?.mp he
      obtain ⟨j, e', -, he', hname⟩ := hearlier i e hi name
        (List.mem_filterMap.mpr ⟨_, hstep, rfl⟩)
      have hfind : t'.find? name = t.find? name := by
        have hsome : (t'.find? name).isSome := by
          rw [find?_isSome_iff, ← hname]
          exact List.mem_map_of_mem (List.mem_of_getElem? he')
        calc t'.find? name
          _ = (t'.find? name).or (further.find? (·.name == name)) :=
            (Option.or_of_isSome hsome).symm
          _ = t.find? name := by rw [find?, find?, hentries, List.find?_append]
      simp only [hfind]

end Ordered

/-! ## The check -/

/-- The entries and their positions in a search tree by name. -/
def keyed (t : Table) : KeyTree (Entry × Nat) :=
  .ofItems 6 (t.entries.zipIdx.map fun p => (textKey p.1.name, p))

/-- The entry with the name and its position. -/
def locate? (t : Table) (name : String) : Option (Entry × Nat) := t.keyed.find? (textKey name)

theorem beq_textKey (s s' : String) : Nat.beq (textKey s) (textKey s') = (s == s') := by
  rw [Bool.eq_iff_iff, Nat.beq_eq, beq_iff_eq, textKey_inj]

theorem locate?_eq (t : Table) (name : String) :
    t.locate? name = t.entries.zipIdx.find? fun p => p.1.name == name := by
  rw [locate?, keyed, KeyTree.find?_ofItems, List.find?_map, Option.map_map]
  simp only [Function.comp_def, beq_textKey]
  exact Option.map_id'

theorem find?_eq_locate? (t : Table) (name : String) :
    t.find? name = (t.locate? name).map Prod.fst := by
  have hentries : t.entries.zipIdx.map Prod.fst = t.entries := List.zipIdx_map_fst 0 _
  rw [locate?_eq, find?, ← hentries, List.find?_map, hentries]
  rfl

theorem locate?_eq_some {t : Table} {name : String} {e : Entry} {i : Nat}
    (h : t.locate? name = some (e, i)) : t.entries[i]? = some e ∧ e.name = name := by
  have hfind : t.find? name = some e := by rw [find?_eq_locate?, h, Option.map_some]
  rw [locate?_eq] at h
  exact ⟨List.mk_mem_zipIdx_iff_getElem?.mp (List.mem_of_find?_eq_some h), find?_name hfind⟩

end Lowering.Table

namespace Lowering

/-- The names of the instructions in a search tree. -/
def InstructionSet.keyed (isa : InstructionSet) : KeyTree Instruction :=
  .ofItems 6 (isa.instructions.map fun i => (textKey i.name, i))

/-- The first instruction with a name, by the search tree. -/
theorem InstructionSet.find?_eq_keyed (isa : InstructionSet) (name : String) :
    isa.find? name = isa.keyed.find? (textKey name) := by
  rw [keyed, KeyTree.find?_ofItems, List.find?_map, Option.map_map, find?]
  simp only [Function.comp_def, Table.beq_textKey]
  exact Option.map_id'.symm

/-- Whether there is an instruction with this name, by the search tree. -/
def InstructionSet.knows (isa : InstructionSet) (name : String) : Bool :=
  (isa.keyed.find? (textKey name)).isSome

theorem InstructionSet.knows_eq_has (isa : InstructionSet) (name : String) :
    isa.knows name = isa.has name := by
  rw [knows, has, find?_eq_keyed]

def Bootstrap.passes (b : Bootstrap) : Bool :=
  match CallSpec.checkArgs b with
  | .ok _ => true
  | .error _ => false

-- The parts are separated by matching, so that a bootstrap that many calls share is checked once.
/-- Whether a description of a call passes its check. -/
def CallSpec.passes (style : Option SignatureStyle) : CallSpec → Bool
  | ⟨_, none, bootstrap⟩ => bootstrap.passes
  | ⟨_, some template, bootstrap⟩ => (resolve? style template).isSome && bootstrap.passes

theorem CallSpec.check_of_passes {style : Option SignatureStyle} {spec : CallSpec}
    (h : spec.passes style = true) : spec.check style = .ok () := by
  have hargs : ∀ b : Bootstrap, b.passes = true → checkArgs b = .ok () := by
    intro b hb
    unfold Bootstrap.passes at hb
    split at hb
    · assumption
    · cases hb
  obtain ⟨name, descriptor, bootstrap⟩ := spec
  cases descriptor with
  | none => exact hargs bootstrap h
  | some template =>
    simp only [passes, Bool.and_eq_true] at h
    simp only [check, h.1, if_true]
    exact hargs bootstrap h.2

namespace Table

/-- Whether a step of the entry at position `i` is sound and calls an earlier entry. -/
def stepPasses (t : Table) (i : Nat) : Step → Bool
  | .act (.emit opcode) => t.isa.knows opcode
  | .act (.emitByType opcodes) => opcodes.toList.all t.isa.knows
  | .act (.dynCall spec) => spec.passes t.style
  | .act _ => true
  | .call name =>
    match t.locate? name with
    | some (_, j) => Nat.blt j i
    | none => false

/-- The roles of the actions among the steps, and the declared roles of the entries that they call,
by the search tree. -/
def locatedRoles (t : Table) (steps : List Step) : List IndentRole :=
  steps.flatMap fun
    | .act a => [a.role]
    | .call name =>
      match t.locate? name with
      | some (e, _) => [e.role]
      | none => []

/-- Whether the entry at position `i` has a name of its own, sound steps and a fitting role. -/
def entryPasses (t : Table) (e : Entry) (i : Nat) : Bool :=
  (match t.locate? e.name with
    | some (_, j) => Nat.beq j i
    | none => false) &&
  (steps e.body).all (t.stepPasses i) &&
  decide (commonRole? (t.locatedRoles (steps e.body)) = some e.role)

/-- Whether every entry passes, and some entry is external. -/
def passes (t : Table) : Bool :=
  t.entries.zipIdx.all (fun p => t.entryPasses p.1 p.2) &&
    t.entries.any fun e => decide (e.visibility = .external)

theorem stepFault?_of_passes {t : Table} {i : Nat} {step : Step} (h : t.stepPasses i step = true)
    (name : String) : t.stepFault? name step = none := by
  cases step with
  | call callee => rfl
  | act a =>
    cases a with
    | emit opcode =>
      have hhas : t.isa.has opcode = true := by rw [← InstructionSet.knows_eq_has]; exact h
      simp [stepFault?, hhas]
    | emitByType opcodes =>
      have hhas : ∀ opcode ∈ opcodes.toList, t.isa.has opcode = true := by
        intro opcode hopcode
        rw [← InstructionSet.knows_eq_has]
        exact List.all_eq_true.mp h opcode hopcode
      simpa [stepFault?] using hhas
    | dynCall spec =>
      have hcheck := CallSpec.check_of_passes h
      simp [stepFault?, hcheck]
    | _ => rfl

theorem locate?_of_stepPasses {t : Table} {i : Nat} {name : String}
    (h : t.stepPasses i (.call name) = true) : ∃ e j, t.locate? name = some (e, j) ∧ j < i := by
  simp only [stepPasses] at h
  split at h
  · exact ⟨_, _, ‹_›, by simpa [Nat.blt_eq] using h⟩
  · cases h

theorem locatedRoles_eq (t : Table) (steps : List Step) :
    t.locatedRoles steps = t.declaredRoles steps := by
  unfold locatedRoles declaredRoles
  congr 1
  funext step
  cases step with
  | act a => rfl
  | call name =>
    simp only [find?_eq_locate?]
    cases t.locate? name <;> rfl

/-- A table that passes is ordered, and so it has no fault. -/
theorem ordered_of_passes {t : Table} (h : t.passes = true) : t.Ordered := by
  simp only [passes, Bool.and_eq_true, List.all_eq_true, List.any_eq_true, decide_eq_true_eq] at h
  obtain ⟨hentries, hexternal⟩ := h
  have hpasses : ∀ (i : Nat) (e : Entry), t.entries[i]? = some e → t.entryPasses e i = true :=
    fun i e he => hentries (e, i) (List.mk_mem_zipIdx_iff_getElem?.mpr he)
  simp only [entryPasses, Bool.and_eq_true, decide_eq_true_eq, List.all_eq_true] at hpasses
  have hposition : ∀ (i : Nat) (e : Entry), t.entries[i]? = some e →
      ∃ e', t.locate? e.name = some (e', i) := by
    intro i e he
    have hat := (hpasses i e he).1.1
    split at hat
    · rename_i e' j hlocate
      exact ⟨e', by rw [hlocate, Nat.eq_of_beq_eq_true hat]⟩
    · cases hat
  refine ⟨?_, ?_, ?_, ?_, hexternal⟩
  · rw [List.nodup_iff_getElem?_ne_getElem?]
    intro i j hij hj heq
    have hj' : j < t.entries.length := by simpa [names] using hj
    have hi' : i < t.entries.length := Nat.lt_trans hij hj'
    have hname : t.entries[i].name = t.entries[j].name := by simpa [names, hi', hj'] using heq
    obtain ⟨e, he⟩ := hposition i _ (List.getElem?_eq_getElem hi')
    obtain ⟨e', he'⟩ := hposition j _ (List.getElem?_eq_getElem hj')
    rw [hname, he'] at he
    cases he
    exact Nat.lt_irrefl _ hij
  · intro i e he callee hcallee
    obtain ⟨step, hstep, hcall⟩ := List.mem_filterMap.mp hcallee
    cases step with
    | act a => cases hcall
    | call name =>
      cases hcall
      obtain ⟨e', j, hlocate, hj⟩ := locate?_of_stepPasses ((hpasses i e he).1.2 _ hstep)
      obtain ⟨he', hname⟩ := locate?_eq_some hlocate
      exact ⟨j, e', hj, he', hname⟩
  · intro e he step hstep
    obtain ⟨i, hi⟩ := List.mem_iff_getElem?.mp he
    exact stepFault?_of_passes ((hpasses i e hi).1.2 step hstep) e.name
  · intro e he
    obtain ⟨i, hi⟩ := List.mem_iff_getElem?.mp he
    rw [← locatedRoles_eq]
    exact (hpasses i e hi).2

end Table

end Lowering
