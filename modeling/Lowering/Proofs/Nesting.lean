-- SUMMARY: The nesting of every unit is consistent: its frames, its labels and its indentation agree.
import Mathlib.Data.List.Nodup
import Lowering.Proofs.LabelCount
import Lowering.Proofs.LineResults
import Lowering.Proofs.Shipped

/-!
# Consistent nestings

The nesting of a unit is a stack of frames, a supply of labels and an indentation, and the operations on
it change all three. Whatever operations are called, and whether they succeed, the indentation is the
number of frames, each frame has the labels that its kind needs, and, as long as the numbers of the labels
have not run out, all these labels are distinct. The instructions of a unit reach its nesting through
these operations only, so this holds in every state of every unit.
-/

namespace Lowering

/-! ## Labels of frames -/

/-- The frame has a label of another arm exactly if it is an `if`, and an entry exactly if it is a
loop. -/
structure Frame.Fitted (f : Frame) : Prop where
  pending : f.pendingElse.isSome = true ↔ f.kind = .ifThen
  entry : f.entry.isSome = true ↔ f.kind = .loop

namespace Nesting

/-- The labels that the open constructs hold. -/
def labels (n : Nesting) : List Label := n.frames.flatMap Frame.labels

/-! ## Operations -/

/-- An operation on a nesting. -/
inductive Call where
  | allocate
  | openBlock (opener : String)
  | openLoop (opener : String)
  | openIf (opener : String)
  | enterElse
  | close
  | branchTarget (depth : Nat)
  | finish
  deriving DecidableEq, Repr

/-- The nesting after an operation. One that fails leaves it as it was. -/
def after (n : Nesting) : Call → Nesting
  | .allocate => n.allocate.2
  | .openBlock opener => (n.openBlock opener).2
  | .openLoop opener => (n.openLoop opener).2
  | .openIf opener => (n.openIf opener).2
  | .enterElse =>
    match n.enterElse with
    | .ok (_, n') => n'
    | .error _ => n
  | .close =>
    match n.close with
    | .ok (_, n') => n'
    | .error _ => n
  | .branchTarget _ | .finish => n

/-- The nesting after operations in order. -/
def afterAll (n : Nesting) (calls : List Call) : Nesting := calls.foldl after n

theorem after_enterElse (n : Nesting) :
    n.after .enterElse = n ∨ ∃ frame outer, n.frames = frame :: outer ∧ frame.kind = .ifThen ∧
      n.after .enterElse =
        { n with frames := { frame with kind := .elseArm, pendingElse := none } :: outer
                 indent := frame.indent + 1 } := by
  simp only [after]
  split
  · rename_i helse
    obtain ⟨frame, outer, pending, hframes, hif, -, -, rfl⟩ := enterElse_eq_ok helse
    exact .inr ⟨frame, outer, hframes, hif, rfl⟩
  · exact .inl rfl

theorem after_close (n : Nesting) :
    n.after .close = n ∨ ∃ frame outer, n.frames = frame :: outer ∧
      n.after .close = { n with frames := outer, indent := frame.indent } := by
  simp only [after]
  split
  · rename_i frame _ hclose
    obtain ⟨outer, hframes, rfl⟩ := close_eq_ok hclose
    exact .inr ⟨frame, outer, hframes, rfl⟩
  · exact .inl rfl

/-- No operation takes an overflow back. -/
theorem overflowed_of_after {n : Nesting} {call : Call} (h : (n.after call).overflowed = false) :
    n.overflowed = false := by
  cases call with
  | allocate | openBlock => exact LabelCounter.overflowed_of_advance h
  | openLoop | openIf => exact LabelCounter.overflowed_of_advance (LabelCounter.overflowed_of_advance h)
  | enterElse =>
    rcases n.after_enterElse with hafter | ⟨frame, outer, -, -, hafter⟩ <;> rwa [hafter] at h
  | close =>
    rcases n.after_close with hafter | ⟨frame, outer, -, hafter⟩ <;> rwa [hafter] at h
  | branchTarget | finish => exact h

/-! ## Consistency -/

/-- The indentation is the number of open constructs, each of them knows how many are around it, and each
has the labels that its kind needs. -/
structure Consistent (n : Nesting) : Prop where
  indent : n.indent = n.depth
  levels : n.frames.reverse.map Frame.indent = List.range n.depth
  fitted : ∀ f ∈ n.frames, f.Fitted

namespace Consistent

variable {n : Nesting}

theorem empty (counter : LabelCounter) : Nesting.Consistent { counter } where
  indent := rfl
  levels := rfl
  fitted := nofun

/-- A construct may be opened that has the labels of its kind. -/
theorem opened {n' : Nesting} {frame : Frame} (h : n.Consistent) (hframes : n'.frames = frame :: n.frames)
    (hindent : n'.indent = n.indent + 1) (hlevel : frame.indent = n.indent) (hfitted : frame.Fitted) :
    n'.Consistent where
  indent := by rw [hindent, h.indent, depth, depth, hframes, List.length_cons]
  levels := by
    rw [depth, hframes, List.reverse_cons, List.map_append, h.levels, List.length_cons,
      List.range_succ, List.map_singleton, hlevel, h.indent]
    rfl
  fitted f hf := by
    rcases List.mem_cons.mp (hframes ▸ hf) with rfl | hf
    · exact hfitted
    · exact h.fitted f hf

/-- The innermost construct knows how many are around it, and these are levelled among themselves. -/
theorem levels_cons {frame : Frame} {outer : List Frame} (h : n.Consistent)
    (hframes : n.frames = frame :: outer) :
    outer.reverse.map Frame.indent = List.range outer.length ∧ frame.indent = outer.length := by
  have hlevels : outer.reverse.map Frame.indent ++ [frame.indent] =
      List.range outer.length ++ [outer.length] := by
    simpa [hframes, depth, List.range_succ] using h.levels
  obtain ⟨houter, hframe⟩ := List.append_inj' hlevels rfl
  exact ⟨houter, by simpa using hframe⟩

/-- The innermost construct may be closed. -/
theorem pop {frame : Frame} {outer : List Frame} (h : n.Consistent)
    (hframes : n.frames = frame :: outer) :
    Nesting.Consistent { n with frames := outer, indent := frame.indent } where
  indent := (h.levels_cons hframes).2
  levels := (h.levels_cons hframes).1
  fitted f hf := h.fitted f (hframes ▸ List.mem_cons_of_mem _ hf)

/-- The innermost construct may be put in its other arm, if it is an `if`. -/
theorem switch {frame : Frame} {outer : List Frame} (h : n.Consistent)
    (hframes : n.frames = frame :: outer) (hif : frame.kind = .ifThen) :
    Nesting.Consistent
      { n with frames := { frame with kind := .elseArm, pendingElse := none } :: outer
               indent := frame.indent + 1 } := by
  have hentry : frame.entry.isSome = true ↔ frame.kind = .loop :=
    (h.fitted frame (hframes ▸ List.mem_cons_self)).entry
  exact (h.pop hframes).opened rfl rfl rfl ⟨by simp, by simpa [hif] using hentry⟩

/-- Every operation keeps a nesting consistent, also one that fails. -/
theorem after (h : n.Consistent) (call : Call) : (n.after call).Consistent := by
  cases call with
  | allocate => exact ⟨h.indent, h.levels, h.fitted⟩
  | openBlock opener | openLoop opener | openIf opener =>
    exact h.opened rfl rfl rfl ⟨by simp, by simp⟩
  | enterElse =>
    rcases n.after_enterElse with hafter | ⟨frame, outer, hframes, hif, hafter⟩ <;> rw [hafter]
    · exact h
    · exact h.switch hframes hif
  | close =>
    rcases n.after_close with hafter | ⟨frame, outer, hframes, hafter⟩ <;> rw [hafter]
    · exact h
    · exact h.pop hframes
  | branchTarget | finish => exact h

theorem afterAll (h : n.Consistent) (calls : List Call) : (n.afterAll calls).Consistent := by
  induction calls generalizing n with
  | nil => exact h
  | cons call calls ih => exact ih (h.after call)

end Consistent

/-! ## Numbering -/

/-- The labels of the open constructs are distinct, and they have been supplied since `first`. -/
structure Numbered (first : Nat) (n : Nesting) : Prop where
  distinct : n.labels.Nodup
  within : ∀ l ∈ n.labels, l.Within first n.nextLabel
  first_le : first ≤ n.nextLabel

namespace Numbered

variable {first : Nat} {n : Nesting}

theorem empty (counter : LabelCounter) : Nesting.Numbered counter.next.number { counter } where
  distinct := List.nodup_nil
  within := nofun
  first_le := Nat.le_refl _

/-- A construct may be opened with any labels that are distinct and come next. -/
theorem opened {n' : Nesting} {frame : Frame} (h : n.Numbered first)
    (hframes : n'.frames = frame :: n.frames) (hnext : n.nextLabel ≤ n'.nextLabel)
    (hdistinct : frame.labels.Nodup) (hnew : ∀ l ∈ frame.labels, l.Within n.nextLabel n'.nextLabel) :
    n'.Numbered first := by
  have hlabels : n'.labels = frame.labels ++ n.labels := by
    rw [labels, hframes, List.flatMap_cons, labels]
  refine ⟨?_, fun l hl => ?_, Nat.le_trans h.first_le hnext⟩
  · rw [hlabels]
    refine hdistinct.append h.distinct fun l hl hold => ?_
    have holder : l.number < n.nextLabel := (h.within l hold).2
    exact absurd (hnew l hl).1 (Nat.not_le.mpr holder)
  · rw [hlabels] at hl
    rcases List.mem_append.mp hl with hl | hold
    · exact ⟨Nat.le_trans h.first_le (hnew l hl).1, (hnew l hl).2⟩
    · exact (h.within l hold).mono hnext

/-- Labels may be given up. -/
theorem sublist {n' : Nesting} (h : n.Numbered first) (hlabels : n'.labels.Sublist n.labels)
    (hnext : n.nextLabel ≤ n'.nextLabel) : n'.Numbered first where
  distinct := h.distinct.sublist hlabels
  within l hl := (h.within l (hlabels.subset hl)).mono hnext
  first_le := Nat.le_trans h.first_le hnext

/-- A construct that takes two labels takes the next two. -/
theorem opened_two {n' : Nesting} {frame : Frame} (h : n.Numbered first)
    (hframes : n'.frames = frame :: n.frames) (hcounter : n'.counter = n.counter.advance.advance)
    (hlabels : frame.labels = [n.counter.next, n.counter.advance.next])
    (hcounts : n'.overflowed = false) : n'.Numbered first := by
  rw [overflowed, hcounter] at hcounts
  obtain ⟨hsecond, hnext⟩ := LabelCounter.number_advance_two hcounts
  rw [← hcounter] at hnext
  refine h.opened hframes (by unfold nextLabel; omega) ?_ ?_
  · rw [hlabels, List.nodup_cons]
    refine ⟨fun hmem => ?_, List.nodup_singleton _⟩
    have hsame := congrArg Label.number (List.mem_singleton.mp hmem)
    omega
  · rw [hlabels]
    simp only [List.mem_cons, List.not_mem_nil, or_false, forall_eq_or_imp, forall_eq, Label.Within,
      nextLabel]
    omega

/-- Every operation that does not overflow keeps the labels distinct and supplied. -/
theorem after (h : n.Numbered first) {call : Call} (hcounts : (n.after call).overflowed = false) :
    (n.after call).Numbered first := by
  cases call with
  | allocate => exact h.sublist (List.Sublist.refl _) (LabelCounter.number_le_advance hcounts)
  | openBlock opener =>
    refine h.opened rfl (LabelCounter.number_le_advance hcounts) (List.nodup_singleton _) ?_
    intro l hl
    cases List.mem_singleton.mp hl
    exact LabelCounter.next_within (Nat.le_refl _) hcounts
  | openLoop opener | openIf opener => exact h.opened_two rfl rfl rfl hcounts
  | enterElse =>
    rcases n.after_enterElse with hafter | ⟨frame, outer, hframes, -, hafter⟩ <;> rw [hafter]
    · exact h
    · refine h.sublist ?_ (Nat.le_refl _)
      simp only [labels, hframes, List.flatMap_cons, Frame.labels, List.cons_append, Option.toList_none,
        List.nil_append, List.append_assoc]
      exact (List.sublist_append_right _ _).cons_cons _
  | close =>
    rcases n.after_close with hafter | ⟨frame, outer, hframes, hafter⟩ <;> rw [hafter]
    · exact h
    · refine h.sublist ?_ (Nat.le_refl _)
      simp only [labels, hframes, List.flatMap_cons]
      exact List.sublist_append_right _ _
  | branchTarget | finish => exact h

theorem afterAll (h : n.overflowed = false → n.Numbered first) (calls : List Call)
    (hcounts : (n.afterAll calls).overflowed = false) : (n.afterAll calls).Numbered first := by
  induction calls generalizing n with
  | nil => exact h hcounts
  | cons call calls ih =>
    exact ih (fun hcounts => (h (overflowed_of_after hcounts)).after hcounts) hcounts

end Numbered

/-! ## What a consistent nesting answers -/

/-- Which operations succeed, and what the end of the unit reports, by the open constructs alone. No `if`
is found that has lost the label of its other arm. -/
structure Answers (n : Nesting) : Prop where
  branchTarget : ∀ depth, (∃ label, n.branchTarget depth = .ok label) ↔ depth < n.depth
  enterElse : (∃ entered, n.enterElse = .ok entered) ↔
    ∃ frame outer, n.frames = frame :: outer ∧ frame.kind = .ifThen
  enterElse_ne : n.enterElse ≠ .error .elseTwice
  finish_nil : n.finish = [] ↔ n.frames = []
  finish : n.finish = n.frames.reverse.map fun f =>
    { cause := .neverClosed f.kind, mnemonic := some f.opener }

theorem branchTarget_succeeds_iff (n : Nesting) (depth : Nat) :
    (∃ label, n.branchTarget depth = .ok label) ↔ depth < n.depth := by
  unfold branchTarget Nesting.depth
  split
  · rename_i frame hframe
    exact iff_of_true ⟨_, rfl⟩ (List.getElem?_eq_some_iff.mp hframe).1
  · rename_i hnone
    exact iff_of_false (by simp) (Nat.not_lt.mpr (List.getElem?_eq_none_iff.mp hnone))

/-- The innermost construct, if it is an `if`, can be put in its other arm. -/
theorem Consistent.enterElse_eq {n : Nesting} (h : n.Consistent) {frame : Frame} {outer : List Frame}
    (hframes : n.frames = frame :: outer) (hif : frame.kind = .ifThen) :
    ∃ entered, n.enterElse = .ok entered := by
  have hfitted := h.fitted frame (hframes ▸ List.mem_cons_self)
  obtain ⟨pending, hpending⟩ := Option.isSome_iff_exists.mp (hfitted.pending.mpr hif)
  simp [enterElse, hframes, hif, hpending]

/-- In a consistent nesting, only open constructs are reported at the end. -/
theorem Consistent.finish_eq {n : Nesting} (h : n.Consistent) :
    n.finish = n.frames.reverse.map fun f =>
      { cause := .neverClosed f.kind, mnemonic := some f.opener } := by
  unfold Nesting.finish
  cases hframes : n.frames with
  | nil =>
    have hindent : n.indent = 0 := by simpa [depth, hframes] using h.indent
    simp [isBalanced, hframes, hindent]
  | cons frame outer => simp [isBalanced, hframes]

theorem Consistent.answers {n : Nesting} (h : n.Consistent) : n.Answers where
  branchTarget := n.branchTarget_succeeds_iff
  enterElse := by
    constructor
    · rintro ⟨⟨labels, n'⟩, helse⟩
      obtain ⟨frame, outer, pending, hframes, hif, -⟩ := enterElse_eq_ok helse
      exact ⟨frame, outer, hframes, hif⟩
    · rintro ⟨frame, outer, hframes, hif⟩
      exact h.enterElse_eq hframes hif
  enterElse_ne := by
    intro htwice
    cases hframes : n.frames with
    | nil => simp [Nesting.enterElse, hframes] at htwice
    | cons frame outer =>
      by_cases hif : frame.kind = .ifThen
      · obtain ⟨entered, helse⟩ := h.enterElse_eq hframes hif
        cases helse.symm.trans htwice
      · simp [Nesting.enterElse, hframes, hif] at htwice
  finish_nil := by simp [h.finish_eq]
  finish := h.finish_eq

end Nesting

/-! ## Expansion -/

/-- An effect changes the nesting by an operation, if at all. -/
theorem Effect.moves {scope : Scope} {role : IndentRole} {inv inv' : Invocation}
    (h : Effect scope inv role inv') : ∃ calls, inv'.nesting = inv.nesting.afterAll calls := by
  cases h with
  | emits => exact ⟨[], rfl⟩
  | opensBlock => exact ⟨[.openBlock scope.mnemonic], rfl⟩
  | opensLoop => exact ⟨[.openLoop scope.mnemonic], rfl⟩
  | opensIf => exact ⟨[.openIf scope.mnemonic], rfl⟩
  | entersElse hframes hif hpending =>
    refine ⟨[.enterElse], ?_⟩
    simp [Nesting.afterAll, Nesting.after, Nesting.enterElse, hframes, hif, hpending]
  | closes hframes =>
    refine ⟨[.close], ?_⟩
    simp [Nesting.afterAll, Nesting.after, Nesting.close, hframes]

theorem Scope.perform_moves {scope : Scope} {declared : Option ValueType} {inv inv' : Invocation}
    {a : Action} (h : scope.perform declared inv a = .ok inv') :
    ∃ calls, inv'.nesting = inv.nesting.afterAll calls := by
  by_cases hlocal : a = .localLabel
  · subst hlocal
    cases h
    cases hown : inv.localLabel with
    | some own => exact ⟨[], by rw [Invocation.insertLocalLabel_of_some hown]; rfl⟩
    | none => exact ⟨[.allocate], by rw [Invocation.insertLocalLabel_of_none hown]; rfl⟩
  by_cases hplace : a = .placeLabel
  · subst hplace
    obtain ⟨field, rest, target, -, -, rfl⟩ := Scope.perform_placeLabel h
    exact ⟨[], rfl⟩
  exact (Scope.perform_effect hlocal hplace h).moves

/-- The nesting has come from `n` by operations. -/
def Invocation.MovedFrom (n : Nesting) (inv : Invocation) : Prop :=
  ∃ calls, inv.nesting = n.afterAll calls

theorem Invocation.MovedFrom.step {n : Nesting} {inv inv' : Invocation} (h : inv.MovedFrom n)
    (hstep : ∃ calls, inv'.nesting = inv.nesting.afterAll calls) : inv'.MovedFrom n := by
  obtain ⟨calls, hcalls⟩ := h
  obtain ⟨calls', hcalls'⟩ := hstep
  refine ⟨calls ++ calls', ?_⟩
  rw [hcalls', hcalls, Nesting.afterAll, Nesting.afterAll, Nesting.afterAll, List.foldl_append]

theorem Invocation.MovedFrom.stable (n : Nesting) (scope : Scope) :
    scope.Stable (MovedFrom n) (fun _ => True) (fun _ => True) where
  types _ _ _ _ h htype := h.step (@Invocation.valueType_effect scope _ _ _ _ htype).moves
  acts _ _ _ _ _ h hrun := h.step (Scope.perform_moves hrun)
  closed _ _ _ _ step _ := step.among_all

/-- An instruction changes the nesting of its unit by operations only. -/
theorem UnitState.expand_moves {state state' : UnitState} {lib : Library}
    {className mnemonic : String} {operands : List String} {x : Expansion}
    (h : state.expand lib className mnemonic operands = (.ok x, state')) :
    ∃ calls, state'.nesting = state.nesting.afterAll calls := by
  obtain ⟨id, e, inv, -, hinvoke, -, rfl⟩ := expand_eq_ok h
  have hstart : (state.start operands).MovedFrom state.nesting := ⟨[], rfl⟩
  exact invoke_stable (Invocation.MovedFrom.stable state.nesting _) hstart hinvoke

/-! ## Units -/

namespace Session

/-- A call on a unit. Each may have a sink of its own, in any state. -/
inductive Call : Type 1 where
  | expand (mnemonic : String) (operands : List String)
  | lower {σ : Type} (sink : Sink σ) (received : σ) (mnemonic : String) (operands : List String)
  | finish

/-- The unit after a call, whether or not the call has stopped it. -/
def after (s : Session) : Call → Session
  | .expand mnemonic operands =>
    { s with state := (s.state.expand s.library s.config.className mnemonic operands).2 }
  | .lower sink received mnemonic operands => (s.lower sink received mnemonic operands).session
  | .finish => s.finish.1

/-- The unit after calls in order. -/
def afterAll (s : Session) (calls : List Call) : Session := calls.foldl after s

theorem report_state (s : Session) (ds : List Diagnostic) : (s.report ds).1.state = s.state := by
  rw [report_eq]

/-- An instruction changes the nesting of its unit by operations only, also if it fails. -/
theorem expand_moves (s : Session) (mnemonic : String) (operands : List String) :
    ∃ calls, (s.state.expand s.library s.config.className mnemonic operands).2.nesting =
      s.state.nesting.afterAll calls := by
  obtain ⟨⟨result, state⟩, hexpand⟩ :
      ∃ r, s.state.expand s.library s.config.className mnemonic operands = r := ⟨_, rfl⟩
  rw [hexpand]
  cases result with
  | ok x => exact UnitState.expand_moves hexpand
  | error failure =>
    cases UnitState.expand_eq_error hexpand
    exact ⟨[], rfl⟩

/-- An attempt leaves the unit as the expansion does, whatever the sink makes of it. -/
theorem attempt_session {σ : Type} (s : Session) (sink : Sink σ) (received : σ) (mnemonic : String)
    (operands : List String) :
    (s.attempt sink received mnemonic operands).2.1 =
      { s with state := (s.state.expand s.library s.config.className mnemonic operands).2 } := by
  unfold attempt
  split
  · rename_i hexpand
    rw [hexpand]
  · rename_i hexpand
    rw [hexpand]
    split <;> rfl

/-- A call changes the nesting of the unit by operations only. -/
theorem after_moves (s : Session) (call : Call) :
    ∃ calls, (s.after call).state.nesting = s.state.nesting.afterAll calls := by
  cases call with
  | expand mnemonic operands => exact s.expand_moves mnemonic operands
  | lower sink received mnemonic operands =>
    have hsession := s.attempt_session sink received mnemonic operands
    simp only [after, lower]
    split
    · rename_i hattempt
      rw [hattempt] at hsession
      cases hsession
      rw [report_state]
      exact s.expand_moves mnemonic operands
    · simp only [report_state, UnitState.restore_eq]
      exact ⟨[], rfl⟩
  | finish => exact ⟨[], congrArg UnitState.nesting (report_state s _)⟩

theorem afterAll_moves (s : Session) (calls : List Call) :
    ∃ moves, (s.afterAll calls).state.nesting = s.state.nesting.afterAll moves := by
  induction calls generalizing s with
  | nil => exact ⟨[], rfl⟩
  | cons call calls ih =>
    obtain ⟨moves, hmoves⟩ := s.after_moves call
    obtain ⟨moves', hmoves'⟩ := ih (s.after call)
    refine ⟨moves ++ moves', ?_⟩
    rw [Nesting.afterAll, List.foldl_append, ← Nesting.afterAll, ← Nesting.afterAll, ← hmoves, ← hmoves']
    rfl

/-- A nesting that started empty is consistent after any operations. If a unit of any library starts with
it, the nesting of the unit is consistent after any calls, with any sinks. So the open constructs alone
decide which operations succeed, and the end of the unit reports each of them. As long as the counter of
the labels, which may start at any number of 32 bits, does not overflow, the labels of the open constructs
are distinct, and they are numbered from the first up to but not including the next. -/
theorem nesting_consistent (lib : Library) (config : UnitConfig) (first : UInt32)
    (moves : List Nesting.Call) (calls : List Call) :
    let n := (Nesting.startingAtWord first).afterAll moves
    let s : Session := { library := lib, config, state := { nesting := n } }
    let n' := (s.afterAll calls).state.nesting
    (n.Consistent ∧ n.Answers ∧ (n.overflowed = false → n.Numbered first.toNat)) ∧
      (n'.Consistent ∧ n'.Answers ∧ (n'.overflowed = false → n'.Numbered first.toNat)) := by
  intro n s n'
  have hn : n.Consistent := (Nesting.Consistent.empty (.word first false)).afterAll moves
  have hnumbered : n.overflowed = false → n.Numbered first.toNat :=
    Nesting.Numbered.afterAll (fun _ => Nesting.Numbered.empty (.word first false)) moves
  obtain ⟨moves', hmoves'⟩ : ∃ moves', n' = n.afterAll moves' := s.afterAll_moves calls
  have hn' : n'.Consistent := hmoves' ▸ hn.afterAll moves'
  have hnumbered' : n'.overflowed = false → n'.Numbered first.toNat :=
    hmoves' ▸ Nesting.Numbered.afterAll hnumbered moves'
  exact ⟨⟨hn, hn.answers, hnumbered⟩, hn', hn'.answers, hnumbered'⟩

/-- An `if` in a loop, with a label in between that no construct holds. The counter still has a number after
them. -/
theorem ifInLoop_nesting_consistent :
    let n := (Nesting.startingAtWord 4294967289).afterAll
      [.openLoop "LOOP", .allocate, .openIf "IF", .branchTarget 2]
    n.overflowed = false ∧ n.nextLabel = 4294967294 ∧
    n.labels = [⟨4294967292⟩, ⟨4294967293⟩, ⟨4294967289⟩, ⟨4294967290⟩] ∧
    n.Consistent ∧ n.Numbered 4294967289 := by
  intro n
  have hcounts : n.overflowed = false := by decide
  obtain ⟨hconsistent, -, hnumbered⟩ := (nesting_consistent Catalog.wasm32Library {} 4294967289
    [.openLoop "LOOP", .allocate, .openIf "IF", .branchTarget 2] []).1
  exact ⟨hcounts, by decide, by decide, hconsistent, hnumbered hcounts⟩

/-- The last number of 32 bits: the exit of a block that takes it does not lie between the first label
and the next, which is zero again. -/
theorem blockAtLastNumber_not_numbered :
    let n := (Nesting.startingAtWord 4294967295).afterAll [.openBlock "BLOCK"]
    n.labels = [⟨4294967295⟩] ∧ n.nextLabel = 0 ∧ n.overflowed = true ∧ ¬ n.Numbered 4294967295 := by
  refine ⟨by decide, by decide, by decide, fun h => ?_⟩
  have hwithin := h.within ⟨4294967295⟩ (by decide)
  exact absurd hwithin.2 (by decide)

end Session

end Lowering
