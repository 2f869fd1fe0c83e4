-- SUMMARY: The labels of a whole unit: none is lost, placed twice or jumped to without being placed.
import Lowering.Proofs.LabelCount
import Lowering.Proofs.Shipped

/-!
# Labels of a unit

A unit is a sequence of instructions, of which some fail and leave no trace. The labels that it has taken
for constructs are, at every moment, those placed in its output and those that its open constructs owe.
In a table whose entries place the label of an invocation where they take it, this holds for all labels
of the unit. All of it ends when the counter of the labels overflows.
-/

namespace Lowering

/-! ## Entries that place the label they take -/

/-- Whether the step has nothing to do with the label of the invocation, unless by a call. -/
def Step.isQuiet : Step → Bool
  | .act .localLabel | .act .placeLabel => false
  | _ => true

/-- Whether no step of the body has to do with the label of the invocation, unless by a call. -/
def isQuiet (body : List Op) : Bool := (steps body).all Step.isQuiet

/-- The action has nothing to do with the label of the invocation. -/
def Action.Quiet (a : Action) : Prop := Step.isQuiet (.act a) = true

theorem Action.Quiet.ne {a : Action} (h : a.Quiet) : a ≠ .localLabel ∧ a ≠ .placeLabel := by
  constructor <;> rintro rfl <;> cases h

/-- The entry with the name, if there is one, is quiet. -/
def Table.QuietNamed (t : Table) (name : String) : Prop :=
  ∀ e, t.find? name = some e → isQuiet e.body = true

/-- The body takes the label of the invocation, uses it in `middle`, and places it. -/
def placingOwn (before middle after : List Op) : List Op :=
  before ++ .act .localLabel :: (middle ++ .act .localLabel :: .act .placeLabel :: after)

/-- Every entry that has to do with the label of its invocation takes it and places it once, and is
not called by others. -/
structure Table.PlacesOwn (t : Table) : Prop where
  shapes : ∀ e ∈ t.entries, isQuiet e.body = true ∨ ∃ before middle after,
    isQuiet before = true ∧ isQuiet middle = true ∧ isQuiet after = true ∧
      e.body = placingOwn before middle after
  callees : ∀ e ∈ t.entries, ∀ callee ∈ e.calls, t.QuietNamed callee

theorem Table.PlacesOwn.among {t : Table} (h : t.PlacesOwn) {e : Entry} (he : e ∈ t.entries)
    {ops : List Op} (hquiet : isQuiet ops = true) (hops : steps ops ⊆ steps e.body) :
    ∀ step ∈ steps ops, step.Among Action.Quiet t.QuietNamed := by
  intro step hstep
  cases step with
  | act a => exact List.all_eq_true.mp hquiet _ hstep
  | call callee =>
    exact h.callees e he callee (List.mem_filterMap.mpr ⟨.call callee, hops hstep, rfl⟩)

/-- The parts of a body around its first insertion of the label of the invocation. -/
def splitLocal? : List Op → Option (List Op × List Op)
  | [] => none
  | .act .localLabel :: rest => some ([], rest)
  | op :: rest => (splitLocal? rest).map fun (before, after) => (op :: before, after)

theorem splitLocal?_eq_some {body before after : List Op} (h : splitLocal? body = some (before, after)) :
    body = before ++ .act .localLabel :: after := by
  induction body using splitLocal?.induct generalizing before with
  | case1 => cases h
  | case2 rest =>
    cases h
    rfl
  | case3 op rest _ ih =>
    rw [splitLocal?] at h
    · obtain ⟨⟨inner, _⟩, hsplit, heq⟩ := Option.map_eq_some_iff.mp h
      cases heq
      rw [ih hsplit, List.cons_append]
    · assumption

/-- Whether the body takes the label of the invocation and places it once. -/
def isPlacingOwn (body : List Op) : Bool :=
  match splitLocal? body with
  | some (before, rest) =>
    match splitLocal? rest with
    | some (middle, .act .placeLabel :: after) => isQuiet before && isQuiet middle && isQuiet after
    | _ => false
  | none => false

/-- Whether the entries place the labels that they take. -/
def Table.placesOwn (t : Table) : Bool :=
  let loud := (t.entries.filter fun e => !isQuiet e.body).map fun e => textKey e.name
  t.entries.all fun e => (isQuiet e.body || isPlacingOwn e.body) &&
    e.calls.all fun callee => loud.all fun key => !Nat.beq (textKey callee) key

theorem Table.PlacesOwn.of_eval {t : Table} (h : t.placesOwn = true) : t.PlacesOwn := by
  simp only [Table.placesOwn, List.all_eq_true, Bool.and_eq_true, Bool.or_eq_true] at h
  refine ⟨fun e he => ?_, fun e he callee hcallee e' hfind => ?_⟩
  · refine (h e he).1.imp_right fun hplaces => ?_
    unfold isPlacingOwn at hplaces
    split at hplaces
    · rename_i before rest hbefore
      split at hplaces
      · rename_i middle after hmiddle
        simp only [Bool.and_eq_true] at hplaces
        refine ⟨before, middle, after, hplaces.1.1, hplaces.1.2, hplaces.2, ?_⟩
        rw [placingOwn, ← splitLocal?_eq_some hmiddle, ← splitLocal?_eq_some hbefore]
      · cases hplaces
    · cases hplaces
  · by_contra hloud
    have hkey : textKey e'.name ∈
        (t.entries.filter fun e => !isQuiet e.body).map fun e => textKey e.name :=
      List.mem_map.mpr ⟨e', List.mem_filter.mpr ⟨Table.find?_mem hfind, by simpa using hloud⟩, rfl⟩
    have hother := (h e he).2 callee hcallee _ hkey
    rw [Table.find?_name hfind] at hother
    simp at hother

/-- Since a state with `first` as the next label and labels held as in `base`, every label is held as
often as before, and once more if it has been supplied since, except for the labels in `debt`, which are
still to be placed. -/
structure Invocation.Settled (first : Nat) (base : Label → Nat) (own : Option Label)
    (debt : List Label) (inv : Invocation) : Prop where
  next_le : first ≤ inv.next
  own : inv.localLabel = own
  held : ∀ l, inv.held l + debt.count l = base l + supplied first inv.next l

namespace Invocation.Settled

variable {first : Nat} {base : Label → Nat} {own : Option Label} {debt : List Label} {scope : Scope}
  {inv inv' : Invocation}

theorem effect {role : IndentRole} (h : inv.Settled first base own debt)
    (heffect : Effect scope inv role inv') (hcounts : inv'.nesting.overflowed = false) :
    inv'.Settled first base own debt := by
  have hnext : inv.next ≤ inv'.next := heffect.next_le hcounts
  refine ⟨Nat.le_trans h.next_le hnext, heffect.localLabel_eq.trans h.own, fun l => ?_⟩
  have hsum := supplied_add h.next_le hnext l
  have hheld := h.held l
  have hheld' := heffect.held_eq hcounts l
  omega

/-- In a table whose entries place what they take, quiet actions and the entries that are called keep
the account, unless there is an overflow. -/
theorem stable (hplaces : scope.table.PlacesOwn) :
    scope.Stable (fun inv => inv.nesting.overflowed = false → inv.Settled first base own debt)
      Action.Quiet scope.table.QuietNamed :=
  Scope.stable_of_effects (fun _ _ _ h heffect => h.effect heffect)
    (fun hquiet => absurd rfl hquiet.ne.1) (fun hquiet => absurd rfl hquiet.ne.2)
    fun _ e hquiet hfind => hplaces.among (Table.find?_mem hfind) (hquiet e hfind) (List.Subset.refl _)

theorem takeOwn (h : inv.Settled first base none [])
    (hcounts : inv.insertLocalLabel.nesting.overflowed = false) :
    inv.insertLocalLabel.Settled first base (some ⟨inv.next⟩) [⟨inv.next⟩] := by
  rw [Invocation.insertLocalLabel_of_none h.own] at hcounts ⊢
  have hnext := LabelCounter.number_le_advance hcounts
  refine ⟨Nat.le_trans h.next_le hnext, rfl, fun l => ?_⟩
  calc inv.held l + [inv.nesting.counter.next].count l
    _ = base l + supplied first inv.next l +
        supplied inv.next inv.nesting.counter.advance.next.number l := by
      rw [LabelCounter.count_next hcounts, ← h.held l]
      rfl
    _ = base l + supplied first inv.nesting.counter.advance.next.number l := by
      rw [Nat.add_assoc, supplied_add h.next_le hnext]

/-- Inserting the label once more and placing it pays the debt. -/
theorem placeOwn {own : Label} (h : inv.Settled first base (some own) [own])
    (declared : Option ValueType)
    (hplace : scope.perform declared inv.insertLocalLabel .placeLabel = .ok inv') :
    inv'.Settled first base (some own) [] := by
  rw [Invocation.insertLocalLabel_of_some h.own] at hplace
  cases hplace
  refine ⟨h.next_le, h.own, fun l => ?_⟩
  calc Lowering.held (inv.primitives ++ [.label (.generated own)]) inv.nesting l
    _ = inv.held l + [own].count l := by rw [held_append]; rfl
    _ = base l + supplied first inv.next l := h.held l

/-- An entry leaves no debt. -/
theorem run_entry (hplaces : scope.table.PlacesOwn) {e : Entry} (he : e ∈ scope.table.entries)
    {bound : Nat} (h : inv.Settled first base none []) (hrun : scope.runEntry bound e inv = .ok inv')
    (hcounts : inv'.nesting.overflowed = false) :
    ∀ l, inv'.held l = base l + supplied first inv'.next l := by
  rcases hplaces.shapes e he with hquiet | ⟨before, middle, after, hbefore, hmiddle, hafter, hbody⟩
  · exact ((stable hplaces).runAll (hplaces.among he hquiet (List.Subset.refl _)) (fun _ => h) hrun
      hcounts).held
  · have hparts : ∀ ops, ops = before ∨ ops = middle ∨ ops = after → steps ops ⊆ steps e.body := by
      intro ops hops step hstep
      rw [hbody]
      simp only [placingOwn, allSteps_append, Op.allSteps, List.mem_append]
      rcases hops with rfl | rfl | rfl <;> simp [hstep]
    rw [Scope.runEntry, hbody, placingOwn, Op.runAll_append] at hrun
    obtain ⟨inv₁, hrun₁, hrun⟩ := ok_of_bind_ok hrun
    have h₁ : inv₁.nesting.overflowed = false → inv₁.Settled first base none [] :=
      (stable hplaces).runAll (hplaces.among he hbefore (hparts _ (.inl rfl))) (fun _ => h) hrun₁
    rw [Op.runAll_cons] at hrun
    obtain ⟨inv₂, hrun₂, hrun⟩ := ok_of_bind_ok hrun
    cases hrun₂
    have h₂ := fun hcounts₂ =>
      (h₁ (inv₁.since_insertLocalLabel hcounts₂).1).takeOwn hcounts₂
    rw [Op.runAll_append] at hrun
    obtain ⟨inv₃, hrun₃, hrun⟩ := ok_of_bind_ok hrun
    have h₃ := (stable hplaces).runAll (hplaces.among he hmiddle (hparts _ (.inr (.inl rfl)))) h₂ hrun₃
    rw [Op.runAll_cons] at hrun
    obtain ⟨inv₄, hrun₄, hrun⟩ := ok_of_bind_ok hrun
    cases hrun₄
    rw [Op.runAll_cons] at hrun
    obtain ⟨inv₅, hrun₅, hrun⟩ := ok_of_bind_ok hrun
    have hrun₅ := Invocation.orHalt_eq_ok_iff.mp hrun₅
    have h₅ := fun hcounts₅ =>
      have hcounts₄ := (Scope.perform_since hrun₅ hcounts₅).1
      (h₃ (inv₃.since_insertLocalLabel hcounts₄).1).placeOwn e.type hrun₅
    exact ((stable hplaces).runAll (hplaces.among he hafter (hparts _ (.inr (.inr rfl)))) h₅ hrun
      hcounts).held

end Invocation.Settled

/-! ## One instruction -/

namespace UnitState

/-- How often the open constructs owe a label before anything is output. -/
theorem held_start (state : UnitState) (operands : List String) (l : Label) :
    (state.start operands).held l = state.nesting.owes l := Nat.zero_add _

variable {state : UnitState} {scope : Scope} {e : Entry} {operands : List String} {inv : Invocation}

theorem counter_of_invoke {P : LabelCounter → Prop} (hadvance : ∀ c, P c → P c.advance)
    (hcounter : P state.nesting.counter) (h : state.invoke scope e operands = .ok inv) :
    P inv.nesting.counter :=
  invoke_stable (scope.counter_stable hadvance) hcounter h

theorem since_of_invoke (h : state.invoke scope e operands = .ok inv) :
    LabelCounter.Since state.nesting.counter inv.nesting.counter :=
  counter_of_invoke (fun _ => .advance) (LabelCounter.since_self _) h

/-- What advancing a counter keeps, an instruction keeps, whether or not it succeeds. -/
theorem counter_of_expand {P : LabelCounter → Prop} (hadvance : ∀ c, P c → P c.advance)
    (hcounter : P state.nesting.counter) (lib : Library) (className mnemonic : String)
    (operands : List String) :
    P (state.expand lib className mnemonic operands).2.nesting.counter := by
  obtain ⟨⟨result, state'⟩, h⟩ :
      ∃ outcome, state.expand lib className mnemonic operands = outcome := ⟨_, rfl⟩
  rw [h]
  cases result with
  | error failure =>
    cases expand_eq_error h
    exact hcounter
  | ok x =>
    obtain ⟨id, e, inv, -, hinvoke, -, rfl⟩ := expand_eq_ok h
    exact counter_of_invoke hadvance hcounter hinvoke

theorem invoke_accounted (hfresh : ∀ l, state.nesting.nextLabel ≤ l.number → state.nesting.owes l = 0)
    (h : state.invoke scope e operands = .ok inv) (hcounts : inv.nesting.overflowed = false) :
    inv.Accounted state.nesting.nextLabel state.nesting.owes := by
  have hstart : (state.start operands).Accounted state.nesting.nextLabel state.nesting.owes := by
    refine ⟨Nat.le_refl _, nofun, fun l hl => absurd hl (label_notMem_start _ _ _), fun l _ => ?_⟩
    rw [held_start, Invocation.next, start, supplied_self, Nat.add_zero]
  exact invoke_stable (Invocation.Accounted.stable hfresh scope) (fun _ => hstart) h hcounts

theorem invoke_within {first : Nat} (hnesting : state.nesting.Within first)
    (h : state.invoke scope e operands = .ok inv) (hcounts : inv.nesting.overflowed = false) :
    inv.Within first := by
  have hstart : (state.start operands).Within first :=
    ⟨hnesting, nofun, fun l hl => absurd hl (label_notMem_start _ _ _), nofun⟩
  exact invoke_stable (Invocation.Within.stable first scope) (fun _ => hstart) h hcounts

theorem invoke_settled (hplaces : scope.table.PlacesOwn) (he : e ∈ scope.table.entries)
    (h : state.invoke scope e operands = .ok inv) (hcounts : inv.nesting.overflowed = false)
    (l : Label) :
    inv.held l = state.nesting.owes l + supplied state.nesting.nextLabel inv.next l := by
  have hstart : (state.start operands).Settled state.nesting.nextLabel state.nesting.owes none [] := by
    refine ⟨Nat.le_refl _, rfl, fun l => ?_⟩
    rw [held_start, Invocation.next, start, supplied_self]
    rfl
  exact hstart.run_entry hplaces he (invoke_eq_ok_iff.mp h).1 hcounts l

end UnitState

/-! ## Sequences of instructions -/

/-- The label of its own that an instruction takes if it succeeds. -/
def UnitState.ownLabel? (state : UnitState) (lib : Library) (className mnemonic : String)
    (operands : List String) : Option Label :=
  match lib.lookup mnemonic with
  | .error _ => none
  | .ok (_, e) =>
    match state.invoke ⟨lib.table, className, mnemonic⟩ e operands with
    | .error _ => none
    | .ok inv => inv.localLabel

/-- A unit with what its instructions have put out, and the labels that they have taken for themselves
rather than for a construct. -/
structure History where
  /-- The number of the first label. -/
  first : Nat
  state : UnitState
  output : List Primitive := []
  ownLabels : List Label := []

namespace History

/-- A unit without instructions, whose labels are numbered by the counter. -/
def begin (counter : LabelCounter) : History :=
  { first := counter.next.number, state := { nesting := { counter } } }

/-- Expands an instruction. One that fails puts out nothing. -/
def expand (lib : Library) (className : String) (h : History) (call : String × List String) :
    History :=
  match h.state.expand lib className call.1 call.2 with
  | (.error _, state) => { h with state }
  | (.ok x, state) =>
    { h with
      state
      output := h.output ++ x.primitives
      ownLabels := h.ownLabels ++ (h.state.ownLabel? lib className call.1 call.2).toList }

def ofCalls (lib : Library) (className : String) (counter : LabelCounter)
    (calls : List (String × List String)) : History :=
  calls.foldl (expand lib className) (begin counter)

/-- The number of the next label. -/
def next (h : History) : Nat := h.state.nesting.nextLabel

/-- Whether the numbers of the labels have run out. -/
def overflowed (h : History) : Bool := h.state.nesting.overflowed

/-- The labels that the unit has taken, in order. -/
def labels (h : History) : List Label := (List.range' h.first (h.next - h.first)).map Label.mk

/-- The labels that the unit has taken for constructs. -/
def constructLabels (h : History) : List Label := h.labels.filter (· ∉ h.ownLabels)

/-- The generated labels that the output places. -/
def placed (h : History) : List Label := placedLabels h.output

/-- The labels that open constructs have yet to place: their exits, and the labels of other arms. -/
def owed (h : History) : List Label := h.state.nesting.exits ++ h.state.nesting.pending

variable {lib : Library} {className : String}

/-- The unit after an invocation has succeeded. -/
def extend (h : History) (inv : Invocation) : History :=
  { h with
    state := inv.unit
    output := h.output ++ inv.primitives
    ownLabels := h.ownLabels ++ inv.localLabel.toList }

/-- An instruction leaves the unit as it was, or an entry of the library has been invoked. -/
theorem expand_cases (lib : Library) (className : String) (h : History)
    (call : String × List String) :
    h.expand lib className call = h ∨
      ∃ e ∈ lib.table.entries, ∃ inv,
        h.state.invoke ⟨lib.table, className, call.1⟩ e call.2 = .ok inv ∧
        h.expand lib className call = h.extend inv := by
  unfold expand
  split
  · rename_i failure state' hexpand
    cases UnitState.expand_eq_error hexpand
    exact .inl rfl
  · rename_i x state' hexpand
    obtain ⟨id, e, inv, hlookup, hinvoke, hprimitives, rfl⟩ := UnitState.expand_eq_ok hexpand
    have hown : h.state.ownLabel? lib className call.1 call.2 = inv.localLabel := by
      simp only [UnitState.ownLabel?, hlookup, hinvoke]
    refine .inr ⟨e, (Library.lookup_eq_ok hlookup).1, inv, hinvoke, ?_⟩
    rw [hprimitives, hown, extend]

/-- What holds at first, and is kept by every successful invocation, holds of every history. -/
theorem ofCalls_keeps {P : History → Prop} {counter : LabelCounter} (hbegin : P (begin counter))
    (hextend : ∀ h, P h → ∀ e ∈ lib.table.entries, ∀ mnemonic operands inv,
      h.state.invoke ⟨lib.table, className, mnemonic⟩ e operands = .ok inv → P (h.extend inv))
    (calls : List (String × List String)) : P (ofCalls lib className counter calls) := by
  have hfold : ∀ h, P h → P (calls.foldl (expand lib className) h) := by
    induction calls with
    | nil => exact fun h hh => hh
    | cons call calls ih =>
      intro h hh
      refine ih _ ?_
      rcases expand_cases lib className h call with hsame | ⟨e, he, inv, hinvoke, hafter⟩
      · rw [hsame]
        exact hh
      · rw [hafter]
        exact hextend h hh e he call.1 call.2 inv hinvoke
  exact hfold _ hbegin

theorem ofCalls_first (lib : Library) (className : String) (counter : LabelCounter)
    (calls : List (String × List String)) :
    (ofCalls lib className counter calls).first = counter.next.number :=
  ofCalls_keeps (P := fun h => h.first = counter.next.number) rfl (fun _ hh _ _ _ _ _ _ => hh) calls

theorem ofCalls_counter {P : LabelCounter → Prop} (hadvance : ∀ c, P c → P c.advance) (lib : Library)
    (className : String) {counter : LabelCounter} (hcounter : P counter)
    (calls : List (String × List String)) :
    P (ofCalls lib className counter calls).state.nesting.counter := by
  refine ofCalls_keeps (P := fun h => P h.state.nesting.counter) hcounter ?_ calls
  intro h hh e _ mnemonic operands inv hinvoke
  exact UnitState.counter_of_invoke hadvance hh hinvoke

/-- The labels of constructs, jumps and places have been taken by the unit. Those that instructions have taken
for themselves are owed by no construct, and every other label is held once if it has been taken, else
not at all. -/
structure Accounted (h : History) : Prop where
  nesting : h.state.nesting.Within h.first
  mentioned : ∀ p ∈ h.output, ∀ l, .generated l ∈ p.labels → l.Within h.first h.next
  own : ∀ l ∈ h.ownLabels, l.Within h.first h.next ∧ h.state.nesting.owes l = 0
  others : ∀ l ∉ h.ownLabels, held h.output h.state.nesting l = supplied h.first h.next l

theorem begin_accounted (counter : LabelCounter) : (begin counter).Accounted :=
  ⟨⟨Nat.le_refl _, nofun⟩, nofun, nofun, fun l _ => (supplied_self _ l).symm⟩

theorem Accounted.fresh {h : History} (hh : h.Accounted) {l : Label} (hl : h.next ≤ l.number) :
    h.state.nesting.owes l = 0 := by
  have hother : l ∉ h.ownLabels := fun hmem => by
    have hwithin := (hh.own l hmem).1
    exact absurd hwithin.2 (Nat.not_lt.mpr hl)
  have hheld : held h.output h.state.nesting l = 0 := by
    rw [hh.others l hother, supplied]
    exact if_neg fun hrange => absurd hrange.2 (Nat.not_lt.mpr hl)
  exact (Nat.add_eq_zero_iff.mp hheld).2

/-- Labels that an invocation holds beyond those owed before add to the labels of the unit. -/
theorem held_extend {h : History} {inv : Invocation} {l : Label} (hfirst : h.first ≤ h.next)
    (hnext : h.next ≤ inv.next)
    (hinv : inv.held l = h.state.nesting.owes l + supplied h.next inv.next l)
    (hh : held h.output h.state.nesting l = supplied h.first h.next l) :
    held (h.output ++ inv.primitives) inv.nesting l = supplied h.first inv.next l := by
  have hsum := supplied_add hfirst hnext l
  simp only [Invocation.held, held, placedLabels_append, List.count_append] at *
  omega

theorem Accounted.extend {h : History} (hh : h.Accounted) {scope : Scope} {e : Entry}
    {operands : List String} {inv : Invocation}
    (hinvoke : h.state.invoke scope e operands = .ok inv) (hcounts : inv.nesting.overflowed = false) :
    (h.extend inv).Accounted := by
  have haccounted := UnitState.invoke_accounted (fun l => hh.fresh) hinvoke hcounts
  have hwithin := UnitState.invoke_within hh.nesting hinvoke hcounts
  have hnext : h.next ≤ inv.next := haccounted.next_le
  have hfirst : h.first ≤ h.next := hh.nesting.first_le
  refine ⟨hwithin.nesting, ?_, ?_, ?_⟩
  · intro p hp l hl
    rcases List.mem_append.mp hp with hp | hp
    · exact (hh.mentioned p hp l hl).mono hnext
    · exact hwithin.mentioned p hp l hl
  · intro l hl
    by_cases hlocal : inv.localLabel = some l
    · obtain ⟨hrange, howes⟩ := haccounted.own l hlocal
      exact ⟨⟨Nat.le_trans hfirst hrange.1, hrange.2⟩, howes⟩
    · have hold : l ∈ h.ownLabels := (List.mem_append.mp hl).resolve_right (by simp [hlocal])
      obtain ⟨hrange, howes⟩ := hh.own l hold
      have holder : supplied h.next inv.next l = 0 :=
        if_neg fun hlater => absurd hrange.2 (Nat.not_lt.mpr hlater.1)
      have hheld : inv.held l = h.state.nesting.owes l + supplied h.next inv.next l :=
        haccounted.others l hlocal
      rw [howes, holder] at hheld
      exact ⟨hrange.mono hnext, (Nat.add_eq_zero_iff.mp hheld).2⟩
  · intro l hl
    simp only [History.extend, List.mem_append, not_or, Option.mem_toList] at hl
    exact held_extend hfirst hnext (haccounted.others l hl.2) (hh.others l hl.1)

theorem ofCalls_accounted (lib : Library) (className : String) (counter : LabelCounter)
    (calls : List (String × List String))
    (hcounts : (ofCalls lib className counter calls).overflowed = false) :
    (ofCalls lib className counter calls).Accounted := by
  refine ofCalls_keeps (P := fun h => h.overflowed = false → h.Accounted)
    (fun _ => begin_accounted counter) ?_ calls hcounts
  intro h hh e _ mnemonic operands inv hinvoke hcounts
  exact (hh (UnitState.since_of_invoke hinvoke hcounts).1).extend hinvoke hcounts

/-- In a table whose entries place the labels they take, every label is held once if it has been taken,
else not at all. -/
theorem ofCalls_settled (hplaces : lib.table.PlacesOwn) (counter : LabelCounter)
    (calls : List (String × List String))
    (hcounts : (ofCalls lib className counter calls).overflowed = false) (l : Label) :
    let h := ofCalls lib className counter calls
    held h.output h.state.nesting l = supplied h.first h.next l := by
  suffices hkeeps : (ofCalls lib className counter calls).overflowed = false →
      (ofCalls lib className counter calls).Accounted ∧
        held (ofCalls lib className counter calls).output
          (ofCalls lib className counter calls).state.nesting l =
        supplied (ofCalls lib className counter calls).first
          (ofCalls lib className counter calls).next l from (hkeeps hcounts).2
  refine ofCalls_keeps
    (P := fun h => h.overflowed = false →
      h.Accounted ∧ held h.output h.state.nesting l = supplied h.first h.next l)
    (fun _ => ⟨begin_accounted counter, (supplied_self _ l).symm⟩) ?_ calls
  intro h hh e he mnemonic operands inv hinvoke hcounts
  obtain ⟨hh, hheld⟩ := hh (UnitState.since_of_invoke hinvoke hcounts).1
  have hnext := (UnitState.invoke_accounted (fun l => hh.fresh) hinvoke hcounts).next_le
  have hsettled := UnitState.invoke_settled hplaces he hinvoke hcounts l
  exact ⟨hh.extend hinvoke hcounts, held_extend hh.nesting.first_le hnext hsettled hheld⟩

/-! ## Lists of labels -/

theorem labels_nodup (h : History) : h.labels.Nodup :=
  List.Nodup.map (fun _ _ => Label.mk.inj) List.nodup_range'

theorem mem_labels {h : History} (hfirst : h.first ≤ h.next) {l : Label} :
    l ∈ h.labels ↔ l.Within h.first h.next := by
  simp only [labels, List.mem_map, List.mem_range'_1, Label.Within]
  constructor
  · rintro ⟨n, hn, rfl⟩
    simp only
    omega
  · intro hl
    exact ⟨l.number, by omega, rfl⟩

theorem count_labels {h : History} (hfirst : h.first ≤ h.next) (l : Label) :
    h.labels.count l = supplied h.first h.next l := by
  rw [h.labels_nodup.count, supplied]
  simp only [mem_labels hfirst, Label.Within]

theorem held_eq_count (h : History) (l : Label) :
    held h.output h.state.nesting l = (h.placed ++ h.owed).count l := by
  simp only [held, placed, owed, Nesting.owes, List.count_append]

theorem Accounted.constructLabels_perm {h : History} (hh : h.Accounted) :
    h.constructLabels.Perm (h.placed.filter (· ∈ h.constructLabels) ++ h.owed) := by
  have hfirst : h.first ≤ h.next := hh.nesting.first_le
  rw [List.perm_iff_count]
  intro l
  rw [List.count_append]
  by_cases hown : l ∈ h.ownLabels
  · have hnot : l ∉ h.constructLabels := by simp [constructLabels, hown]
    have howed : h.owed.count l = 0 := by
      rw [owed, List.count_append]
      exact (hh.own l hown).2
    rw [List.count_eq_zero.mpr hnot, howed, List.count_eq_zero.mpr (by simp [hnot])]
  · have hheld : (h.placed ++ h.owed).count l = h.labels.count l := by
      rw [← held_eq_count, hh.others l hown, count_labels hfirst]
    have hconstruct : h.constructLabels.count l = h.labels.count l :=
      List.count_filter (by simpa using hown)
    rw [List.count_append] at hheld
    by_cases hmem : l ∈ h.constructLabels
    · rw [List.count_filter (by simpa using hmem), hheld, hconstruct]
    · have hzero := List.count_eq_zero.mpr hmem
      have hplaced : (h.placed.filter (· ∈ h.constructLabels)).count l = 0 :=
        List.count_eq_zero.mpr (by simp [hmem])
      omega

/-- Where every label is held as often as it has been taken, the labels of the unit are the placed and
the owed ones. -/
theorem labels_perm {h : History} (hfirst : h.first ≤ h.next)
    (hheld : ∀ l, held h.output h.state.nesting l = supplied h.first h.next l) :
    h.labels.Perm (h.placed ++ h.owed) := by
  rw [List.perm_iff_count]
  intro l
  rw [count_labels hfirst, ← hheld, held_eq_count]

theorem owed_of_isBalanced {h : History} (hbalanced : h.state.nesting.isBalanced = true) :
    h.owed = [] := by
  simp only [Nesting.isBalanced, Bool.and_eq_true, List.isEmpty_iff] at hbalanced
  simp only [owed, Nesting.exits, Nesting.pending, hbalanced.1, List.map_nil, List.filterMap_nil,
    List.append_nil]

end History

/-! ## Libraries -/

theorem Catalog.placesOwn {lib : Library} (hlib : lib ∈ Catalog.libraries) : lib.table.PlacesOwn := by
  have hwasm32 : wasm32.placesOwn = true := by decide +kernel
  have hwasi : wasi.placesOwn = true := by decide +kernel
  have htextifier : textifier.placesOwn = true := by decide +kernel
  have hextension : extension.placesOwn = true := by decide +kernel
  exact table_of_mem_libraries (.of_eval hwasm32) (.of_eval hwasi) (.of_eval htextifier)
    (.of_eval hextension) hlib

/-- Whatever instructions a unit has been given, the labels that it has taken for constructs are
distinct, each is placed at most once, and together they are those that its output places, the exits of
its open constructs and the labels of the arms that these have not come to. For the libraries of the
catalog this holds for all labels that the unit has taken. So once nothing is open, its output places
these labels, each exactly once, and jumps to no others. All of this is as long as the counter of the
labels, which may start at any number of 32 bits, does not overflow. -/
theorem Library.labels_accounted (lib : Library) (className : String) (first : UInt32)
    (calls : List (String × List String)) :
    let h := History.ofCalls lib className (.word first false) calls
    h.overflowed = false →
    h.first = first.toNat ∧ h.constructLabels.Nodup ∧ (∀ l ∈ h.constructLabels, h.placed.count l ≤ 1) ∧
    h.constructLabels.Perm (h.placed.filter (· ∈ h.constructLabels) ++ h.owed) ∧
    (lib ∈ Catalog.libraries →
      h.labels.Nodup ∧ h.labels.Perm (h.placed ++ h.owed) ∧
      (h.state.nesting.isBalanced = true →
        h.placed.Perm h.labels ∧
        ∀ p ∈ h.output, ∀ l, .generated l ∈ p.targets → h.placed.count l = 1)) := by
  intro h hcounts
  have hh : h.Accounted := History.ofCalls_accounted lib className _ calls hcounts
  have hfirst : h.first ≤ h.next := hh.nesting.first_le
  have hnodup : h.constructLabels.Nodup := h.labels_nodup.filter _
  have hperm := hh.constructLabels_perm
  refine ⟨History.ofCalls_first lib className _ calls, hnodup, fun l hl => ?_, hperm,
    fun hlib => ?_⟩
  · have hcount := hperm.count_eq l
    rw [hnodup.count, if_pos hl, List.count_append, List.count_filter (by simpa using hl)] at hcount
    omega
  · have hlabels : h.labels.Perm (h.placed ++ h.owed) :=
      History.labels_perm hfirst
        (History.ofCalls_settled (Catalog.placesOwn hlib) _ calls hcounts)
    refine ⟨h.labels_nodup, hlabels, fun hbalanced => ?_⟩
    rw [History.owed_of_isBalanced hbalanced, List.append_nil] at hlabels
    refine ⟨hlabels.symm, fun p hp l hl => ?_⟩
    have hmem : l ∈ h.labels := (History.mem_labels hfirst).mpr
      (hh.mentioned p hp l (Primitive.mem_labels_of_mem_targets hl))
    rw [← hlabels.count_eq l, h.labels_nodup.count, if_pos hmem]

/-- A block with a selection in it, which jumps over one exchange, and an arm that belongs nowhere. -/
def selectionInBlock : List (String × List String) :=
  [("BLOCK", []), ("SELECT", ["I32"]), ("ELSE", []), ("END", [])]

theorem selectionInBlock_labels_accounted :
    let h := History.ofCalls Catalog.wasm32Library "Module" (.word 5 false) selectionInBlock
    h.overflowed = false ∧ Catalog.wasm32Library ∈ Catalog.libraries ∧
    h.state.nesting.isBalanced = true ∧ h.placed = [⟨6⟩, ⟨5⟩] ∧ h.placed.Perm h.labels ∧
    .jump "ifne" (.generated ⟨6⟩) ∈ h.output ∧ h.placed.count ⟨6⟩ = 1 := by
  have haccounted := Library.labels_accounted Catalog.wasm32Library "Module" 5 selectionInBlock
  have hlib : Catalog.wasm32Library ∈ Catalog.libraries := List.mem_cons_self
  have hevaluated :
      let h := History.ofCalls Catalog.wasm32Library "Module" (.word 5 false) selectionInBlock
      h.overflowed = false ∧ h.state.nesting.isBalanced = true ∧ h.placed = [⟨6⟩, ⟨5⟩] ∧
        .jump "ifne" (.generated ⟨6⟩) ∈ h.output := by
    decide +kernel
  revert haccounted hevaluated
  generalize History.ofCalls Catalog.wasm32Library "Module" (.word 5 false) selectionInBlock = h
  intro haccounted hevaluated
  obtain ⟨hcounts, hbalanced, hplaced, hjump⟩ := hevaluated
  obtain ⟨hperm, htargets⟩ := ((haccounted hcounts).2.2.2.2 hlib).2.2 hbalanced
  exact ⟨hcounts, hlib, hbalanced, hplaced, hperm, hjump, htargets _ hjump _ List.mem_cons_self⟩

/-- The last number of 32 bits: a block that takes it is closed with its label placed, but the label is
none of those from the first to the next, which is zero again. -/
theorem blockAtLastNumber_labels_unaccounted :
    let h := History.ofCalls Catalog.wasm32Library "Module" (.word 4294967295 false)
      [("BLOCK", []), ("END", [])]
    Catalog.wasm32Library ∈ Catalog.libraries ∧ h.state.nesting.isBalanced = true ∧
    h.placed = [⟨4294967295⟩] ∧ h.first = 4294967295 ∧ h.next = 0 ∧ h.overflowed = true ∧
    ¬ h.placed.Perm h.labels := by
  refine ⟨List.mem_cons_self, ?_⟩
  have hevaluated :
      let h := History.ofCalls Catalog.wasm32Library "Module" (.word 4294967295 false)
        [("BLOCK", []), ("END", [])]
      h.state.nesting.isBalanced = true ∧ h.placed = [⟨4294967295⟩] ∧ h.first = 4294967295 ∧
        h.next = 0 ∧ h.overflowed = true ∧ h.labels = [] := by
    decide +kernel
  obtain ⟨hbalanced, hplaced, hfirst, hnext, hoverflowed, hlabels⟩ := hevaluated
  refine ⟨hbalanced, hplaced, hfirst, hnext, hoverflowed, ?_⟩
  rw [hplaced, hlabels]
  exact fun hperm => List.cons_ne_nil _ _ hperm.eq_nil

end Lowering
