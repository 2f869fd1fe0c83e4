-- SUMMARY: Every label is held once: it is placed, or an open construct still owes it.
import Lowering.Proofs.Effects

/-!
# Counting labels

A label is held by a place in the output, or by an open construct that has yet to place it: as its exit,
or as the label of its other arm. No action changes how often an older label is held, and a label that
an action takes from the supply for a construct is held once from then on. The label of an invocation
is the exception. It is held as often as it is placed. All this is as long as the counter of the labels
does not overflow, since after that the labels repeat.
-/

namespace Lowering

/-! ## Counters -/

namespace LabelCounter

variable {c : LabelCounter}

/-- A counter that has overflowed has done so for good. -/
theorem overflowed_of_advance (h : c.advance.overflowed = false) : c.overflowed = false := by
  cases c with
  | unbounded n => rfl
  | word n overflowed => exact (Bool.or_eq_false_iff.mp h).1

/-- A counter goes up by one unless it overflows. -/
theorem number_advance (h : c.advance.overflowed = false) :
    c.advance.next.number = c.next.number + 1 := by
  cases c with
  | unbounded n => rfl
  | word n overflowed =>
    have hzero : n + 1 ≠ 0 := by simpa using (Bool.or_eq_false_iff.mp h).2
    have hmod : (n + 1).toNat = (n.toNat + 1) % 4294967296 := UInt32.toNat_add n 1
    have hnonzero : (n + 1).toNat ≠ 0 := fun h => hzero (UInt32.toNat_inj.mp h)
    have hword : n.toNat < 4294967296 := n.toNat_lt
    show (n + 1).toNat = n.toNat + 1
    omega

theorem number_advance_two (h : c.advance.advance.overflowed = false) :
    c.advance.next.number = c.next.number + 1 ∧ c.advance.advance.next.number = c.next.number + 2 := by
  have hfirst := number_advance (overflowed_of_advance h)
  exact ⟨hfirst, by rw [number_advance h, hfirst]⟩

theorem number_le_advance (h : c.advance.overflowed = false) :
    c.next.number ≤ c.advance.next.number := by
  rw [number_advance h]
  exact Nat.le_succ _

/-- Unless `c` has overflowed, neither had `start`, and the numbers have gone up from there. -/
def Since (start c : LabelCounter) : Prop :=
  c.overflowed = false → start.overflowed = false ∧ start.next.number ≤ c.next.number

theorem since_self (c : LabelCounter) : Since c c := fun hcounts => ⟨hcounts, Nat.le_refl _⟩

theorem Since.advance {start : LabelCounter} (h : Since start c) : Since start c.advance := by
  intro hcounts
  obtain ⟨hstart, hle⟩ := h (overflowed_of_advance hcounts)
  exact ⟨hstart, Nat.le_trans hle (number_le_advance hcounts)⟩

/-- The counter has no bound. -/
def Unbounded (c : LabelCounter) : Prop := ∃ n, c = .unbounded n

theorem Unbounded.advance (h : c.Unbounded) : c.advance.Unbounded := by
  obtain ⟨n, rfl⟩ := h
  exact ⟨n + 1, rfl⟩

theorem Unbounded.overflowed (h : c.Unbounded) : c.overflowed = false := by
  obtain ⟨n, rfl⟩ := h
  rfl

/-- The counter has the number, or will have it. -/
def Admits : LabelCounter → Nat → Prop
  | unbounded _, _ => True
  | word _ _, n => n < 4294967296

theorem Admits.of_le {n m : Nat} (h : c.Admits m) (hle : n ≤ m) : c.Admits n := by
  cases c with
  | unbounded => trivial
  | word => exact Nat.lt_of_le_of_lt hle h

theorem admits_next (c : LabelCounter) : c.Admits c.next.number := by
  cases c with
  | unbounded => trivial
  | word n _ => exact n.toNat_lt

theorem admits_advance (c : LabelCounter) : c.advance.Admits = c.Admits := by
  cases c <;> rfl

/-- A counter does not overflow as long as it has a next number. -/
theorem Admits.advance_overflowed (h : c.Admits (c.next.number + 1)) (hcounts : c.overflowed = false) :
    c.advance.overflowed = false := by
  cases c with
  | unbounded => rfl
  | word n overflowed =>
    have hlt : n.toNat + 1 < 4294967296 := h
    have hnext : (n + 1).toNat = (n.toNat + 1) % 4294967296 := UInt32.toNat_add n 1
    have hne : n + 1 ≠ 0 := by
      intro hzero
      rw [hzero, Nat.mod_eq_of_lt hlt] at hnext
      exact Nat.succ_ne_zero _ hnext.symm
    exact Bool.or_eq_false_iff.mpr ⟨hcounts, beq_eq_false_iff_ne.mpr hne⟩

end LabelCounter

/-! ## Held labels -/

/-- The generated labels that primitives place, in order. -/
def placedLabels (ps : List Primitive) : List Label := ps.filterMap Primitive.placed?

namespace Nesting

/-- The exit labels of the open constructs. -/
def exits (n : Nesting) : List Label := n.frames.map Frame.exit

/-- The labels of other arms that the open constructs have yet to place. -/
def pending (n : Nesting) : List Label := n.frames.filterMap Frame.pendingElse

/-- How often the open constructs have yet to place a label. -/
def owes (n : Nesting) (l : Label) : Nat := n.exits.count l + n.pending.count l

end Nesting

/-- How often a label is placed by primitives or owed by open constructs. -/
def held (ps : List Primitive) (n : Nesting) (l : Label) : Nat :=
  (placedLabels ps).count l + n.owes l

/-- One for the labels numbered from `first` up to but not including `next`, else zero. -/
def supplied (first next : Nat) (l : Label) : Nat :=
  if first ≤ l.number ∧ l.number < next then 1 else 0

theorem supplied_self (next : Nat) (l : Label) : supplied next next l = 0 := by
  simp only [supplied]
  split <;> omega

theorem supplied_add {first middle next : Nat} (hfirst : first ≤ middle) (hnext : middle ≤ next)
    (l : Label) : supplied first middle l + supplied middle next l = supplied first next l := by
  simp only [supplied]
  split <;> split <;> split <;> omega

theorem count_singleton_label (number : Nat) (l : Label) :
    [Label.mk number].count l = supplied number (number + 1) l := by
  rcases l with ⟨m⟩
  simp only [supplied, List.count_singleton, beq_iff_eq, Label.mk.injEq]
  split <;> split <;> omega

/-- The next label is the one that is supplied by the time the counter has been advanced. -/
theorem LabelCounter.count_next {c : LabelCounter} (h : c.advance.overflowed = false) (l : Label) :
    [c.next].count l = supplied c.next.number c.advance.next.number l := by
  rw [number_advance h]
  exact count_singleton_label c.next.number l

theorem LabelCounter.count_next_two {c : LabelCounter} (h : c.advance.advance.overflowed = false)
    (l : Label) :
    [c.next].count l + [c.advance.next].count l =
      supplied c.next.number c.advance.advance.next.number l := by
  have hfirst := overflowed_of_advance h
  rw [count_next hfirst, count_next h, supplied_add (number_le_advance hfirst) (number_le_advance h)]

theorem placedLabels_append (ps qs : List Primitive) :
    placedLabels (ps ++ qs) = placedLabels ps ++ placedLabels qs := List.filterMap_append

theorem Invocation.Emittable.placedLabels {inv : Invocation} {ps : List Primitive}
    (h : inv.Emittable ps) : placedLabels ps = [] := by
  rw [Lowering.placedLabels, List.filterMap_eq_nil_iff]
  exact h.places

theorem ConditionTest.placedLabels_primitives (test : ConditionTest) (target : LabelRef) :
    placedLabels (test.primitives target) = [] := by
  simp [placedLabels, ConditionTest.primitives, FixedInstruction.primitive, Primitive.placed?]

theorem ConditionTest.labels_primitives {test : ConditionTest} {target r : LabelRef} {p : Primitive}
    (hp : p ∈ test.primitives target) (hr : r ∈ p.labels) : r = target := by
  rcases List.mem_append.mp hp with hp | hp
  · obtain ⟨i, -, rfl⟩ := List.mem_map.mp hp
    cases hr
  · cases List.mem_singleton.mp hp
    exact List.mem_singleton.mp hr

theorem placedLabels_closingLabels (f : Frame) :
    placedLabels (Scope.closingLabels f) = f.pendingElse.toList ++ [f.exit] := by
  simp [placedLabels, Scope.closingLabels, List.filterMap_map, Function.comp_def,
    Primitive.placed?]

/-! ## One action -/

namespace Invocation

/-- How often the invocation holds a label. -/
def held (inv : Invocation) (l : Label) : Nat := Lowering.held inv.primitives inv.nesting l

/-- The number of the next label. -/
def next (inv : Invocation) : Nat := inv.nesting.nextLabel

end Invocation

theorem held_append (ps qs : List Primitive) (n : Nesting) (l : Label) :
    held (ps ++ qs) n l = held ps n l + (placedLabels qs).count l := by
  simp only [held, placedLabels_append, List.count_append]
  omega

/-- What the innermost construct owes comes on top of what the outer ones owe. -/
theorem held_of_frames {n : Nesting} {f : Frame} (outer : Nesting)
    (h : n.frames = f :: outer.frames) (ps : List Primitive) (l : Label) :
    held ps n l = held ps outer l + (f.pendingElse.toList ++ [f.exit]).count l := by
  simp only [held, Nesting.owes, Nesting.exits, Nesting.pending, h, List.map_cons, List.filterMap_cons,
    List.count_append, List.count_cons, List.count_nil]
  cases f.pendingElse <;> simp only [Option.toList, List.count_cons, List.count_nil] <;> omega

namespace Effect

variable {scope : Scope} {role : IndentRole} {inv inv' : Invocation}

/-- The counter is only advanced. -/
theorem counter_keeps {P : LabelCounter → Prop} (hadvance : ∀ c, P c → P c.advance)
    (h : Effect scope inv role inv') (hcounter : P inv.nesting.counter) : P inv'.nesting.counter := by
  cases h with
  | emits | entersElse | closes => exact hcounter
  | opensBlock => exact hadvance _ hcounter
  | opensLoop | opensIf => exact hadvance _ (hadvance _ hcounter)

theorem since (h : Effect scope inv role inv') :
    LabelCounter.Since inv.nesting.counter inv'.nesting.counter :=
  h.counter_keeps (fun _ => .advance) (LabelCounter.since_self _)

theorem next_le (h : Effect scope inv role inv') (hcounts : inv'.nesting.overflowed = false) :
    inv.next ≤ inv'.next := (h.since hcounts).2

/-- A label is held as often as before, and once more if the action has taken it from the supply. -/
theorem held_eq (h : Effect scope inv role inv') (hcounts : inv'.nesting.overflowed = false)
    (l : Label) : inv'.held l = inv.held l + supplied inv.next inv'.next l := by
  cases h with
  | emits hoperands hemits =>
    simp [Invocation.held, held, placedLabels_append, hemits.placedLabels, Invocation.next,
      supplied_self]
  | opensBlock =>
    calc held inv.primitives (inv.nesting.openBlock scope.mnemonic).2 l
      _ = inv.held l + [inv.nesting.counter.next].count l := by
        rw [held_of_frames inv.nesting rfl]
        rfl
      _ = _ := by rw [LabelCounter.count_next hcounts]; rfl
  | opensLoop =>
    calc held (inv.primitives ++ [.label (.generated inv.nesting.counter.advance.next)])
          (inv.nesting.openLoop scope.mnemonic).2 l
      _ = inv.held l + [inv.nesting.counter.next].count l +
          [inv.nesting.counter.advance.next].count l := by
        rw [held_append, held_of_frames inv.nesting rfl]
        rfl
      _ = _ := by rw [Nat.add_assoc, LabelCounter.count_next_two hcounts]; rfl
  | opensIf =>
    rename_i c
    calc held (inv.primitives ++ (scope.table.isa.test c true).primitives _)
          (inv.nesting.openIf scope.mnemonic).2 l
      _ = inv.held l +
          ([inv.nesting.counter.advance.next] ++ [inv.nesting.counter.next]).count l := by
        rw [held_append, ConditionTest.placedLabels_primitives, held_of_frames inv.nesting rfl]
        rfl
      _ = _ := by
        rw [List.count_append, Nat.add_comm (List.count _ _), LabelCounter.count_next_two hcounts]
        rfl
  | entersElse hframes hif hpending =>
    rename_i frame outer pending
    rw [Invocation.next, Invocation.next, Nesting.nextLabel, Nesting.nextLabel, supplied_self,
      Invocation.held, Invocation.held, held_append,
      held_of_frames { inv.nesting with frames := outer } hframes,
      held_of_frames { inv.nesting with frames := outer } rfl, hpending]
    simp only [placedLabels, Primitive.placed?, Option.toList, List.count_append,
      List.filterMap_cons, List.filterMap_nil, List.count_nil]
    omega
  | closes hframes =>
    rename_i frame outer
    rw [Invocation.next, Invocation.next, Nesting.nextLabel, Nesting.nextLabel, supplied_self,
      Invocation.held, Invocation.held, held_append, placedLabels_closingLabels,
      held_of_frames { inv.nesting with frames := outer, indent := frame.indent } hframes]
    rfl

theorem owes_le (h : Effect scope inv role inv') (hcounts : inv'.nesting.overflowed = false)
    (l : Label) : inv'.nesting.owes l ≤ inv.nesting.owes l + supplied inv.next inv'.next l := by
  have hheld : inv'.held l = inv.held l + supplied inv.next inv'.next l := h.held_eq hcounts l
  obtain ⟨ps, hps⟩ : ∃ ps, inv'.primitives = inv.primitives ++ ps := by
    cases h with
    | opensBlock => exact ⟨[], (List.append_nil _).symm⟩
    | _ => exact ⟨_, rfl⟩
  simp only [Invocation.held, held, hps, placedLabels_append, List.count_append] at hheld
  omega

theorem localLabel_eq (h : Effect scope inv role inv') : inv'.localLabel = inv.localLabel := by
  cases h <;> rfl

theorem labelsFrom (h : Effect scope inv role inv') : inv'.operands.LabelsFrom inv.operands := by
  cases h with
  | emits hoperands => exact hoperands
  | _ => exact Operands.LabelsFrom.refl _

end Effect

/-! ## The label of an invocation -/

namespace Invocation

theorem insertLocalLabel_of_some {inv : Invocation} {own : Label} (h : inv.localLabel = some own) :
    inv.insertLocalLabel = { inv with operands := .label own :: inv.operands } := by
  unfold insertLocalLabel
  split
  · rename_i label hlabel
    cases hlabel.symm.trans h
    rfl
  · rename_i hnone
    cases hnone.symm.trans h

theorem insertLocalLabel_of_none {inv : Invocation} (h : inv.localLabel = none) :
    inv.insertLocalLabel =
      { inv with
        operands := .label ⟨inv.next⟩ :: inv.operands
        nesting := { inv.nesting with counter := inv.nesting.counter.advance }
        localLabel := some ⟨inv.next⟩ } := by
  unfold insertLocalLabel
  split
  · rename_i label hlabel
    cases hlabel.symm.trans h
  · rfl

end Invocation

/-- Placing a label takes it from the front of the operands. -/
theorem Scope.perform_placeLabel {scope : Scope} {declared : Option ValueType} {inv inv' : Invocation}
    (h : scope.perform declared inv .placeLabel = .ok inv') :
    ∃ field rest target, inv.operands = field :: rest ∧
      (∀ l, target = .generated l → field = .label l) ∧
      inv' = { inv with operands := rest, primitives := inv.primitives ++ [.label target] } := by
  obtain ⟨⟨target, inv₁⟩, htake, h⟩ := ok_of_bind_ok h
  obtain ⟨field, rest, hops, rfl, hfield⟩ := Scope.takeLabel_eq_ok htake
  cases h
  exact ⟨field, rest, target, hops, hfield, rfl⟩

theorem Invocation.counter_insertLocalLabel {P : LabelCounter → Prop}
    (hadvance : ∀ c, P c → P c.advance) {inv : Invocation} (h : P inv.nesting.counter) :
    P inv.insertLocalLabel.nesting.counter := by
  cases hlocal : inv.localLabel with
  | some own =>
    rw [Invocation.insertLocalLabel_of_some hlocal]
    exact h
  | none =>
    rw [Invocation.insertLocalLabel_of_none hlocal]
    exact hadvance _ h

theorem Invocation.since_insertLocalLabel (inv : Invocation) :
    LabelCounter.Since inv.nesting.counter inv.insertLocalLabel.nesting.counter :=
  counter_insertLocalLabel (fun _ => .advance) (LabelCounter.since_self _)

/-- What advancing a counter keeps, every run of operations keeps. -/
theorem Scope.counter_stable (scope : Scope) {P : LabelCounter → Prop}
    (hadvance : ∀ c, P c → P c.advance) :
    scope.Stable (fun inv => P inv.nesting.counter) (fun _ => True) (fun _ => True) where
  types inv inv' _ _ h htype := (@Invocation.valueType_effect scope _ _ _ _ htype).counter_keeps hadvance h
  acts declared a _ inv inv' h hrun := by
    by_cases hlocal : a = .localLabel
    · subst hlocal
      cases hrun
      exact Invocation.counter_insertLocalLabel hadvance h
    by_cases hplace : a = .placeLabel
    · subst hplace
      obtain ⟨field, rest, target, -, -, rfl⟩ := Scope.perform_placeLabel hrun
      exact h
    exact (Scope.perform_effect hlocal hplace hrun).counter_keeps hadvance h
  closed _ _ _ _ step _ := step.among_all

theorem Scope.perform_since {scope : Scope} {declared : Option ValueType} {inv inv' : Invocation}
    {a : Action} (h : scope.perform declared inv a = .ok inv') :
    LabelCounter.Since inv.nesting.counter inv'.nesting.counter :=
  (scope.counter_stable (fun _ => .advance)).acts declared a trivial
    (LabelCounter.since_self inv.nesting.counter) h

/-- What the effects of actions keep without an overflow, and the actions about the label of the
invocation if they may occur, a run keeps that ends without an overflow. -/
theorem Scope.stable_of_effects {scope : Scope} {P : Invocation → Prop} {A : Action → Prop}
    {C : String → Prop}
    (heffect : ∀ ⦃role inv inv'⦄, P inv → Effect scope inv role inv' →
      inv'.nesting.overflowed = false → P inv')
    (hinsert : A .localLabel → ∀ ⦃inv⦄, P inv → inv.insertLocalLabel.nesting.overflowed = false →
      P inv.insertLocalLabel)
    (hplace : A .placeLabel → ∀ ⦃declared inv inv'⦄, P inv →
      scope.perform declared inv .placeLabel = .ok inv' → P inv')
    (hclosed : ∀ name e, C name → scope.table.find? name = some e →
      ∀ step ∈ steps e.body, step.Among A C) :
    scope.Stable (fun inv => inv.nesting.overflowed = false → P inv) A C where
  types inv inv' _ _ h htype hcounts := by
    have hreads := @Invocation.valueType_effect scope _ _ _ _ htype
    exact heffect (h (hreads.since hcounts).1) hreads hcounts
  acts declared a ha inv inv' h hrun hcounts := by
    have hinv : P inv := h (Scope.perform_since hrun hcounts).1
    by_cases hlocal : a = .localLabel
    · subst hlocal
      cases hrun
      exact hinsert ha hinv hcounts
    by_cases hplaces : a = .placeLabel
    · subst hplaces
      exact hplace ha hinv hrun
    exact heffect hinv (Scope.perform_effect hlocal hplaces hrun) hcounts
  closed := hclosed

theorem placedLabels_label (target : LabelRef) (l : Label) :
    (placedLabels [.label target]).count l = if target = .generated l then 1 else 0 := by
  cases target with
  | generated own => simp [placedLabels, Primitive.placed?, List.count_singleton]
  | named name => simp only [reduceCtorEq, if_false]; rfl

/-! ## The labels of constructs -/

/-- Since a state with `first` as the next label and labels held as in `base`, the label operands are
the label of the invocation, which no construct owes, and every other label is held as often as
before, and once more if it has been supplied since. -/
structure Invocation.Accounted (first : Nat) (base : Label → Nat) (inv : Invocation) : Prop where
  next_le : first ≤ inv.next
  own : ∀ l, inv.localLabel = some l →
    (first ≤ l.number ∧ l.number < inv.next) ∧ inv.nesting.owes l = 0
  operands : ∀ l, .label l ∈ inv.operands → inv.localLabel = some l
  others : ∀ l, inv.localLabel ≠ some l → inv.held l = base l + supplied first inv.next l

namespace Invocation.Accounted

variable {first : Nat} {base : Label → Nat} {scope : Scope} {inv inv' : Invocation}

theorem effect {role : IndentRole} (h : inv.Accounted first base)
    (heffect : Effect scope inv role inv') (hcounts : inv'.nesting.overflowed = false) :
    inv'.Accounted first base := by
  have hnext : inv.next ≤ inv'.next := heffect.next_le hcounts
  refine ⟨Nat.le_trans h.next_le hnext, ?_, ?_, ?_⟩
  · intro l hl
    obtain ⟨hrange, howes⟩ := h.own l (heffect.localLabel_eq ▸ hl)
    have holder : supplied inv.next inv'.next l = 0 := if_neg (by omega)
    have howes' := heffect.owes_le hcounts l
    exact ⟨⟨hrange.1, Nat.lt_of_lt_of_le hrange.2 hnext⟩, by omega⟩
  · intro l hl
    rw [heffect.localLabel_eq]
    exact h.operands l (heffect.labelsFrom l hl)
  · intro l hl
    rw [heffect.held_eq hcounts, h.others l (heffect.localLabel_eq ▸ hl), Nat.add_assoc,
      supplied_add h.next_le hnext]

theorem insertLocalLabel (hbase : ∀ l, first ≤ l.number → base l = 0) (h : inv.Accounted first base)
    (hcounts : inv.insertLocalLabel.nesting.overflowed = false) :
    inv.insertLocalLabel.Accounted first base := by
  cases hlocal : inv.localLabel with
  | some own =>
    rw [Invocation.insertLocalLabel_of_some hlocal]
    refine ⟨h.next_le, h.own, ?_, h.others⟩
    intro l hl
    rcases List.mem_cons.mp hl with hl | hl
    · cases hl
      exact hlocal
    · exact h.operands l hl
  | none =>
    rw [Invocation.insertLocalLabel_of_none hlocal] at hcounts ⊢
    have hnext : inv.nesting.counter.advance.next.number = inv.next + 1 :=
      LabelCounter.number_advance hcounts
    refine ⟨?_, ?_, ?_, ?_⟩
    · exact Nat.le_trans h.next_le (LabelCounter.number_le_advance hcounts)
    · rintro l ⟨⟩
      have hunheld : inv.held ⟨inv.next⟩ = 0 := by
        rw [h.others _ (by simp [hlocal]), hbase ⟨inv.next⟩ h.next_le, Nat.zero_add, supplied]
        exact if_neg fun hlt => Nat.lt_irrefl _ hlt.2
      have howes : inv.nesting.owes ⟨inv.next⟩ = 0 := (Nat.add_eq_zero_iff.mp hunheld).2
      exact ⟨⟨h.next_le, Nat.lt_of_lt_of_eq (Nat.lt_succ_self _) hnext.symm⟩, howes⟩
    · intro l hl
      rcases List.mem_cons.mp hl with hl | hl
      · cases hl
        rfl
      · cases hlocal.symm.trans (h.operands l hl)
    · intro l hl
      have hother : supplied inv.next inv.nesting.counter.advance.next.number l = 0 := by
        rw [hnext, ← count_singleton_label, List.count_eq_zero, List.mem_singleton]
        exact fun hl' => hl (congrArg some hl'.symm)
      calc inv.held l
        _ = base l + supplied first inv.next l := h.others l (by simp [hlocal])
        _ = base l + (supplied first inv.next l +
            supplied inv.next inv.nesting.counter.advance.next.number l) := by
          rw [hother, Nat.add_zero]
        _ = base l + supplied first inv.nesting.counter.advance.next.number l := by
          rw [supplied_add h.next_le (LabelCounter.number_le_advance hcounts)]

theorem placeLabel {declared : Option ValueType} (h : inv.Accounted first base)
    (hplace : scope.perform declared inv .placeLabel = .ok inv') : inv'.Accounted first base := by
  obtain ⟨field, rest, target, hops, hfield, rfl⟩ := Scope.perform_placeLabel hplace
  refine ⟨h.next_le, h.own, fun l hl => h.operands l (hops ▸ List.mem_cons_of_mem _ hl), ?_⟩
  intro l hl
  have hother : target ≠ .generated l := by
    intro htarget
    refine hl (h.operands l ?_)
    rw [hops, hfield l htarget]
    exact List.mem_cons_self
  calc Lowering.held (inv.primitives ++ [.label target]) inv.nesting l
    _ = inv.held l := by rw [held_append, placedLabels_label, if_neg hother]; rfl
    _ = base l + supplied first inv.next l := h.others l hl

/-- Every run of operations without an overflow keeps the account. -/
theorem stable {first : Nat} {base : Label → Nat} (hbase : ∀ l, first ≤ l.number → base l = 0)
    (scope : Scope) :
    scope.Stable (fun inv => inv.nesting.overflowed = false → inv.Accounted first base)
      (fun _ => True) (fun _ => True) :=
  Scope.stable_of_effects (fun _ _ _ h heffect => h.effect heffect)
    (fun _ _ h => h.insertLocalLabel hbase) (fun _ _ _ _ h => h.placeLabel)
    (fun _ _ _ _ step _ => step.among_all)

end Invocation.Accounted

/-! ## The labels of jumps -/

/-- The label is numbered from `first` up to but not including `next`. -/
def Label.Within (first next : Nat) (l : Label) : Prop := first ≤ l.number ∧ l.number < next

theorem Label.Within.mono {first next next' : Nat} {l : Label} (h : l.Within first next)
    (hnext : next ≤ next') : l.Within first next' := ⟨h.1, Nat.lt_of_lt_of_le h.2 hnext⟩

/-- The labels that a frame holds. -/
def Frame.labels (f : Frame) : List Label := f.exit :: (f.pendingElse.toList ++ f.entry.toList)

theorem Frame.branchTarget_mem_labels (f : Frame) : f.branchTarget ∈ f.labels := by
  unfold branchTarget labels
  split
  · rename_i entry hentry
    split
    · simp [hentry]
    · exact List.mem_cons_self
  · exact List.mem_cons_self

/-- Every label that an open construct holds has been supplied since `first`. -/
structure Nesting.Within (first : Nat) (n : Nesting) : Prop where
  first_le : first ≤ n.nextLabel
  labels : ∀ f ∈ n.frames, ∀ l ∈ f.labels, l.Within first n.nextLabel

/-- Every label that occurs in the invocation has been supplied since `first`. -/
structure Invocation.Within (first : Nat) (inv : Invocation) : Prop where
  nesting : inv.nesting.Within first
  own : ∀ l, inv.localLabel = some l → l.Within first inv.next
  operands : ∀ l, .label l ∈ inv.operands → l.Within first inv.next
  mentioned : ∀ p ∈ inv.primitives, ∀ l, .generated l ∈ p.labels → l.Within first inv.next

namespace Nesting.Within

variable {first : Nat} {n n' : Nesting} {f : Frame}

/-- A construct may be opened with labels that have been supplied by then. -/
theorem opened (h : n.Within first) (hframes : n'.frames = f :: n.frames)
    (hnext : n.nextLabel ≤ n'.nextLabel) (hlabels : ∀ l ∈ f.labels, l.Within first n'.nextLabel) :
    n'.Within first := by
  refine ⟨Nat.le_trans h.first_le hnext, ?_⟩
  rw [hframes]
  intro g hg l hl
  rcases List.mem_cons.mp hg with rfl | hg
  · exact hlabels l hl
  · exact (h.labels g hg l hl).mono hnext

/-- A construct that takes two labels takes the next two. -/
theorem opened_two (h : n.Within first) (hframes : n'.frames = f :: n.frames)
    (hcounter : n'.counter = n.counter.advance.advance)
    (hlabels : f.labels = [n.counter.next, n.counter.advance.next])
    (hcounts : n'.overflowed = false) : n'.Within first := by
  rw [overflowed, hcounter] at hcounts
  obtain ⟨hsecond, hnext⟩ := LabelCounter.number_advance_two hcounts
  rw [← hcounter] at hnext
  have hfirst : first ≤ n.counter.next.number := h.first_le
  refine h.opened hframes (by unfold nextLabel; omega) ?_
  rw [hlabels]
  simp only [List.mem_cons, List.not_mem_nil, or_false, forall_eq_or_imp, forall_eq, Label.Within,
    nextLabel]
  omega

end Nesting.Within

/-- A label that is taken has been supplied from then on. -/
theorem LabelCounter.next_within {c : LabelCounter} {first : Nat} (hfirst : first ≤ c.next.number)
    (h : c.advance.overflowed = false) : c.next.Within first c.advance.next.number :=
  ⟨hfirst, number_advance h ▸ Nat.lt_succ_self _⟩

namespace Invocation.Within

variable {first : Nat} {scope : Scope} {inv inv' : Invocation}

/-- The invocation after a step that only adds primitives and may open, switch or close constructs. -/
theorem extend (h : inv.Within first) {nesting : Nesting} {ps : List Primitive}
    (hnesting : nesting.Within first) (hnext : inv.next ≤ nesting.nextLabel)
    (hps : ∀ p ∈ ps, ∀ l, .generated l ∈ p.labels → l.Within first nesting.nextLabel) :
    Invocation.Within first { inv with nesting, primitives := inv.primitives ++ ps } where
  nesting := hnesting
  own l hl := (h.own l hl).mono hnext
  operands l hl := (h.operands l hl).mono hnext
  mentioned p hp l hl := by
    rcases List.mem_append.mp hp with hp | hp
    · exact (h.mentioned p hp l hl).mono hnext
    · exact hps p hp l hl

theorem effect {role : IndentRole} (h : inv.Within first) (heffect : Effect scope inv role inv')
    (hcounts : inv'.nesting.overflowed = false) : inv'.Within first := by
  have hfirst : first ≤ inv.next := h.nesting.first_le
  have hnext : inv.next ≤ inv'.next := heffect.next_le hcounts
  cases heffect with
  | emits hoperands hemits =>
    refine ⟨h.nesting, h.own, fun l hl => h.operands l (hoperands l hl), fun p hp l hl => ?_⟩
    rcases List.mem_append.mp hp with hp | hp
    · exact h.mentioned p hp l hl
    · rcases Primitive.mem_labels_generated hl with hplaced | htarget
      · cases (hemits.places p hp).symm.trans hplaced
      · rcases hemits.targets p hp l htarget with hoperand | ⟨f, hf, rfl⟩
        · exact h.operands l hoperand
        · exact h.nesting.labels f hf _ f.branchTarget_mem_labels
  | opensBlock =>
    have hopened : (inv.nesting.openBlock scope.mnemonic).2.Within first := by
      refine h.nesting.opened rfl hnext fun l hl => ?_
      cases List.mem_singleton.mp hl
      exact LabelCounter.next_within hfirst hcounts
    exact ⟨hopened, fun l hl => (h.own l hl).mono hnext, fun l hl => (h.operands l hl).mono hnext,
      fun p hp l hl => (h.mentioned p hp l hl).mono hnext⟩
  | opensLoop =>
    have hopened := @Nesting.Within.opened_two first _ (inv.nesting.openLoop scope.mnemonic).2 _
      h.nesting rfl rfl rfl hcounts
    refine h.extend hopened hnext fun p hp l hl => ?_
    cases List.mem_singleton.mp hp
    cases List.mem_singleton.mp hl
    exact hopened.labels _ List.mem_cons_self _ (List.mem_cons_of_mem _ List.mem_cons_self)
  | opensIf =>
    have hopened := @Nesting.Within.opened_two first _ (inv.nesting.openIf scope.mnemonic).2 _
      h.nesting rfl rfl rfl hcounts
    refine h.extend hopened hnext fun p hp l hl => ?_
    cases ConditionTest.labels_primitives hp hl
    exact hopened.labels _ List.mem_cons_self _ (List.mem_cons_of_mem _ List.mem_cons_self)
  | entersElse hframes hif hpending =>
    rename_i frame outer pending
    have hframe := h.nesting.labels frame (by simp [hframes])
    refine h.extend ⟨hfirst, ?_⟩ (Nat.le_refl _) ?_
    · intro f hf l hl
      rcases List.mem_cons.mp hf with rfl | hf
      · refine hframe l ?_
        rcases List.mem_cons.mp hl with rfl | hl
        · exact List.mem_cons_self
        · exact List.mem_cons_of_mem _ (List.mem_append_right _ hl)
      · exact h.nesting.labels f (by simp [hframes, hf]) l hl
    · have hexit : frame.exit.Within first inv.next := hframe _ List.mem_cons_self
      have hstart : pending.Within first inv.next := hframe _ (by simp [Frame.labels, hpending])
      simp only [List.mem_cons, List.not_mem_nil, or_false, forall_eq_or_imp, forall_eq,
        Primitive.labels, LabelRef.generated.injEq]
      exact ⟨hexit, hstart⟩
  | closes hframes =>
    rename_i frame outer
    refine h.extend ⟨hfirst, fun f hf => h.nesting.labels f (by simp [hframes, hf])⟩ (Nat.le_refl _) ?_
    intro p hp l hl
    obtain ⟨label, hlabel, rfl⟩ := List.mem_map.mp hp
    cases List.mem_singleton.mp hl
    refine h.nesting.labels frame (by simp [hframes]) _ ?_
    rcases List.mem_append.mp hlabel with hpending | hexit
    · exact List.mem_cons_of_mem _ (List.mem_append_left _ hpending)
    · rw [List.mem_singleton.mp hexit]
      exact List.mem_cons_self

theorem insertLocalLabel (h : inv.Within first)
    (hcounts : inv.insertLocalLabel.nesting.overflowed = false) : inv.insertLocalLabel.Within first := by
  cases hlocal : inv.localLabel with
  | some own =>
    rw [Invocation.insertLocalLabel_of_some hlocal]
    refine ⟨h.nesting, h.own, fun l hl => ?_, h.mentioned⟩
    rcases List.mem_cons.mp hl with hl | hl
    · cases hl
      exact h.own own hlocal
    · exact h.operands l hl
  | none =>
    rw [Invocation.insertLocalLabel_of_none hlocal] at hcounts ⊢
    have hnext : inv.next ≤ inv.nesting.counter.advance.next.number :=
      LabelCounter.number_le_advance hcounts
    have hown : (Label.mk inv.next).Within first inv.nesting.counter.advance.next.number :=
      LabelCounter.next_within h.nesting.first_le hcounts
    refine ⟨⟨Nat.le_trans h.nesting.first_le hnext, fun f hf l hl =>
      (h.nesting.labels f hf l hl).mono hnext⟩, ?_, ?_,
      fun p hp l hl => (h.mentioned p hp l hl).mono hnext⟩
    · rintro l ⟨⟩
      exact hown
    · intro l hl
      rcases List.mem_cons.mp hl with hl | hl
      · cases hl
        exact hown
      · exact (h.operands l hl).mono hnext

theorem placeLabel {declared : Option ValueType} (h : inv.Within first)
    (hplace : scope.perform declared inv .placeLabel = .ok inv') : inv'.Within first := by
  obtain ⟨field, rest, target, hops, hfield, rfl⟩ := Scope.perform_placeLabel hplace
  refine ⟨h.nesting, h.own, fun l hl => h.operands l (by simp [hops, hl]), fun p hp l hl => ?_⟩
  rcases List.mem_append.mp hp with hp | hp
  · exact h.mentioned p hp l hl
  · cases List.mem_singleton.mp hp
    refine h.operands l ?_
    rw [hops, hfield l (List.mem_singleton.mp hl).symm]
    exact List.mem_cons_self

/-- Every run of operations without an overflow stays within the supply. -/
theorem stable (first : Nat) (scope : Scope) :
    scope.Stable (fun inv => inv.nesting.overflowed = false → inv.Within first)
      (fun _ => True) (fun _ => True) :=
  Scope.stable_of_effects (fun _ _ _ h heffect => h.effect heffect)
    (fun _ _ h => h.insertLocalLabel) (fun _ _ _ _ h => h.placeLabel)
    (fun _ _ _ _ step _ => step.among_all)

end Invocation.Within

end Lowering
