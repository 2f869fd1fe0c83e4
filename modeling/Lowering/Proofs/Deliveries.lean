-- SUMMARY: What a sink has accepted places a label twice only if it refused an instruction after one of its labels.
import Mathlib.Data.List.Nodup
import Lowering.Proofs.Control.Lowering
import Lowering.Proofs.Nesting
import Lowering.Proofs.TargetCode

/-!
# Deliveries to a sink

A sink receives the primitives of each instruction one by one and may refuse any of them. Then the unit
goes back to its state before the instruction, but what the sink has accepted stays with it. The labels
that it has accepted in this way are free or still owed in the restored state, so the unit places them
again sooner or later. All other labels are placed once.
-/

namespace Lowering

variable {σ : Type}

/-! ## Sinks that keep a record -/

/-- The sink, with a record of what it has accepted. -/
def Sink.keeping (sink : Sink σ) : Sink (σ × List Primitive) where
  offer s p :=
    match sink.offer s.1 p with
    | (received, none) => ((received, s.2 ++ [p]), none)
    | (received, some reason) => ((received, s.2), some reason)

/-- The record adds up to the primitives that were offered, or to a front of them if one was refused.
Keeping it makes no difference to the sink. -/
theorem Sink.offerAll_keeping (sink : Sink σ) (received : σ) (record ps : List Primitive) :
    ∃ taken, sink.keeping.offerAll (received, record) ps =
        (((sink.offerAll received ps).1, record ++ taken), (sink.offerAll received ps).2) ∧
      taken <+: ps ∧ ((sink.offerAll received ps).2 = none → taken = ps) := by
  induction ps generalizing received record with
  | nil => exact ⟨[], by rw [List.append_nil]; rfl, List.prefix_rfl, fun _ => rfl⟩
  | cons p ps ih =>
    rcases hoffer : sink.offer received p with ⟨received', _ | reason⟩
    · obtain ⟨taken, heq, hprefix, hall⟩ := ih received' (record ++ [p])
      refine ⟨p :: taken, ?_, List.cons_prefix_cons.mpr ⟨rfl, hprefix⟩, fun hnone => ?_⟩
      · have hkeeping : sink.keeping.offer (received, record) p =
            ((received', record ++ [p]), none) := by
          simp only [keeping, hoffer]
        simp only [offerAll, hkeeping, hoffer]
        rw [heq, List.append_assoc]
        rfl
      · simp only [offerAll, hoffer] at hnone
        rw [hall hnone]
    · refine ⟨[], ?_, List.nil_prefix, ?_⟩
      · simp only [offerAll, keeping, hoffer, List.append_nil]
      · simp [offerAll, hoffer]

/-! ## Deliveries -/

/-- What the sink has accepted of one instruction, and whether the instruction went through. -/
structure Delivery where
  taken : List Primitive
  complete : Bool

/-- A unit with a sink, and what the sink has accepted of each instruction. -/
structure Transfer (σ : Type) where
  session : Session
  received : σ
  deliveries : List Delivery := []

namespace Transfer

/-- Lowers one instruction into the sink. -/
def step (sink : Sink σ) (t : Transfer σ) (call : String × List String) : Transfer σ :=
  let outcome := t.session.lower sink.keeping (t.received, []) call.1 call.2
  let complete :=
    match outcome.result with
    | .ok (some _) => true
    | _ => false
  { session := outcome.session
    received := outcome.sink.1
    deliveries := t.deliveries ++ [⟨outcome.sink.2, complete⟩] }

/-- Lowers instructions in order. None of them stops the transfer. -/
def run (sink : Sink σ) (t : Transfer σ) (calls : List (String × List String)) : Transfer σ :=
  calls.foldl (step sink) t

/-- All that the sink has accepted. -/
def accepted (t : Transfer σ) : List Primitive := t.deliveries.flatMap Delivery.taken

/-- What the sink has accepted of instructions that went through. -/
def kept (t : Transfer σ) : List Primitive :=
  (t.deliveries.filter Delivery.complete).flatMap Delivery.taken

/-- What the sink has accepted of instructions that did not go through. -/
def dropped (t : Transfer σ) : List Primitive :=
  (t.deliveries.filter (!·.complete)).flatMap Delivery.taken

/-- The unit with a sink that accepts everything from now on. -/
def resumed (t : Transfer σ) : Transfer Unit where
  session := t.session
  received := ()

/-- What a sink that accepts everything gets when the unit goes on with further instructions. -/
def continued (t : Transfer σ) (more : List (String × List String)) : List Primitive :=
  (run Sink.accepting t.resumed more).accepted

theorem accepted_perm (t : Transfer σ) : t.accepted.Perm (t.dropped ++ t.kept) := by
  rw [accepted, dropped, kept, ← List.flatMap_append]
  refine List.Perm.flatMap_right _ ?_
  exact (List.perm_append_comm.trans (List.filter_append_perm _ _)).symm

/-- What one instruction leads to: it goes through, the sink refuses one of its primitives, or it has no
expansion. -/
inductive Leads (sink : Sink σ) (t : Transfer σ) (call : String × List String) (t' : Transfer σ) : Prop
  | passes {x : Expansion} {state : UnitState}
      (hexpand : t.session.state.expand t.session.library t.session.config.className call.1 call.2 =
        (.ok x, state))
      (hstate : t'.session.state = state)
      (hdeliveries : t'.deliveries = t.deliveries ++ [⟨x.primitives, true⟩])
  | refused {x : Expansion} {state : UnitState} {taken : List Primitive}
      (hexpand : t.session.state.expand t.session.library t.session.config.className call.1 call.2 =
        (.ok x, state))
      (hrefused : (sink.offerAll t.received x.primitives).2 ≠ none) (htaken : taken <+: x.primitives)
      (hstate : t'.session.state = t.session.state)
      (hdeliveries : t'.deliveries = t.deliveries ++ [⟨taken, false⟩])
  | fails {failure : Failure}
      (hexpand : t.session.state.expand t.session.library t.session.config.className call.1 call.2 =
        (.error failure, t.session.state))
      (hstate : t'.session.state = t.session.state)
      (hdeliveries : t'.deliveries = t.deliveries ++ [⟨[], false⟩])

theorem step_leads (sink : Sink σ) (t : Transfer σ) (call : String × List String) :
    t.Leads sink call (t.step sink call) := by
  obtain ⟨⟨result, state⟩, hexpand⟩ : ∃ outcome, t.session.state.expand t.session.library
    t.session.config.className call.1 call.2 = outcome := ⟨_, rfl⟩
  cases result with
  | error failure =>
    cases UnitState.expand_eq_error hexpand
    refine .fails hexpand ?_ ?_
    · simp only [step, Session.lower, Session.attempt, hexpand, Session.report_state,
        UnitState.restore_eq]
    · simp only [step, Session.lower, Session.attempt, hexpand]
      cases Session.stops _ _ <;> rfl
  | ok x =>
    obtain ⟨taken, hoffer, htaken, hall⟩ := sink.offerAll_keeping t.received [] x.primitives
    cases hreason : (sink.offerAll t.received x.primitives).2 with
    | none =>
      rw [hreason, hall hreason] at hoffer
      refine .passes hexpand ?_ ?_
      · simp only [step, Session.lower, Session.attempt, hexpand, hoffer, Session.report_state]
      · simp only [step, Session.lower, Session.attempt, hexpand, hoffer, List.nil_append]
    | some reason =>
      rw [hreason] at hoffer
      refine .refused hexpand (by simp [hreason]) htaken ?_ ?_
      · simp only [step, Session.lower, Session.attempt, hexpand, hoffer, Session.report_state,
          UnitState.restore_eq]
      · simp only [step, Session.lower, Session.attempt, hexpand, hoffer, List.nil_append]
        cases Session.stops _ _ <;> rfl

theorem step_session (sink : Sink σ) (t : Transfer σ) (call : String × List String) :
    (t.step sink call).session.library = t.session.library ∧
      (t.step sink call).session.config = t.session.config := by
  have hsession := t.session.attempt_session sink.keeping (t.received, []) call.1 call.2
  simp only [step, Session.lower]
  split <;> rename_i hattempt
  all_goals
    rw [hattempt] at hsession
    cases hsession
    simp only [Session.report_eq, and_self]

end Transfer

/-! ## What has gone through -/

namespace History

variable {lib : Library} {className : String}

theorem expand_of_ok {h : History} {call : String × List String} {x : Expansion} {state : UnitState}
    (hexpand : h.state.expand lib className call.1 call.2 = (.ok x, state)) :
    (h.expand lib className call).state = state ∧
      (h.expand lib className call).output = h.output ++ x.primitives := by
  constructor <;> simp only [expand, hexpand]

theorem expand_of_error {h : History} {call : String × List String} {failure : Failure}
    (hexpand : h.state.expand lib className call.1 call.2 = (.error failure, h.state)) :
    h.expand lib className call = h := by
  simp only [expand, hexpand]

theorem ofCalls_append (counter : LabelCounter) (calls more : List (String × List String)) :
    ofCalls lib className counter (calls ++ more) =
      more.foldl (expand lib className) (ofCalls lib className counter calls) :=
  List.foldl_append

section

variable (hplaces : lib.table.PlacesOwn) {counter : LabelCounter} {calls : List (String × List String)}
  (hcounts : (ofCalls lib className counter calls).overflowed = false)

include hplaces hcounts

theorem ofCalls_labels_perm :
    (ofCalls lib className counter calls).labels.Perm
      ((ofCalls lib className counter calls).placed ++ (ofCalls lib className counter calls).owed) :=
  labels_perm (ofCalls_accounted lib className counter calls hcounts).nesting.first_le
    (ofCalls_settled hplaces counter calls hcounts)

/-- In a table whose entries place the labels they take, the output places no label twice. -/
theorem placed_nodup : (ofCalls lib className counter calls).placed.Nodup :=
  ((ofCalls_labels_perm hplaces hcounts).nodup_iff.mp (labels_nodup _)).of_append_left

theorem placed_within {l : Label} (hl : l ∈ (ofCalls lib className counter calls).placed) :
    l.Within counter.next.number (ofCalls lib className counter calls).next := by
  have hfirst := (ofCalls_accounted lib className counter calls hcounts).nesting.first_le
  have hmem := (ofCalls_labels_perm hplaces hcounts).mem_iff.mpr (List.mem_append_left _ hl)
  have hwithin := (mem_labels hfirst).mp hmem
  rwa [ofCalls_first] at hwithin

end

theorem ofCalls_admits (lib : Library) (className : String) (counter : LabelCounter)
    (calls : List (String × List String)) :
    (ofCalls lib className counter calls).state.nesting.counter.Admits = counter.Admits :=
  ofCalls_counter (P := fun c => c.Admits = counter.Admits) (fun c h => c.admits_advance.trans h) lib
    className rfl calls

end History

namespace Transfer

variable {lib : Library} {className : String} {counter : LabelCounter} {before : List Primitive}
  {calls : List (String × List String)} {t : Transfer σ} {sink : Sink σ}

/-- Whether the numbers of the labels have run out. -/
def overflowed (t : Transfer σ) : Bool := t.session.state.nesting.overflowed

/-- The numbers of the labels do not run out in any of the instructions, also not in one that the sink
refuses. -/
def InRange (sink : Sink σ) : Transfer σ → List (String × List String) → Prop
  | _, [] => True
  | t, call :: calls =>
    (t.session.state.expand t.session.library t.session.config.className
      call.1 call.2).2.nesting.overflowed = false ∧ InRange sink (t.step sink call) calls

/-- The unit is as after these calls, and what they have put out is what went through after `before`. -/
structure Follows (lib : Library) (className : String) (counter : LabelCounter)
    (before : List Primitive) (calls : List (String × List String)) (t : Transfer σ) : Prop where
  library_eq : t.session.library = lib
  className_eq : t.session.config.className = className
  state_eq : t.session.state = (History.ofCalls lib className counter calls).state
  output_eq : (History.ofCalls lib className counter calls).output = before ++ t.kept

namespace Follows

variable {call : String × List String}

theorem expand_eq (h : Follows lib className counter before calls t) :
    t.session.state.expand t.session.library t.session.config.className call.1 call.2 =
      (History.ofCalls lib className counter calls).state.expand lib className call.1 call.2 := by
  rw [h.library_eq, h.className_eq, h.state_eq]

/-- A call that goes through takes its place in the sequence of calls. -/
theorem passes (h : Follows lib className counter before calls t) {x : Expansion} {state : UnitState}
    (hexpand : t.session.state.expand t.session.library t.session.config.className call.1 call.2 =
      (.ok x, state))
    (hstate : (t.step sink call).session.state = state)
    (hdeliveries : (t.step sink call).deliveries = t.deliveries ++ [⟨x.primitives, true⟩]) :
    Follows lib className counter before (calls ++ [call]) (t.step sink call) := by
  obtain ⟨hlibrary, hconfig⟩ := step_session sink t call
  obtain ⟨hafter, houtput⟩ := History.expand_of_ok (h.expand_eq.symm.trans hexpand)
  refine ⟨hlibrary.trans h.library_eq, hconfig ▸ h.className_eq, ?_, ?_⟩
  · rw [hstate, History.ofCalls_append]
    exact hafter.symm
  · rw [History.ofCalls_append, kept, hdeliveries, List.filter_append, List.flatMap_append,
      ← List.append_assoc]
    refine houtput.trans ?_
    rw [h.output_eq]
    simp [kept]

/-- A call that does not go through leaves no trace in the unit. -/
theorem rejected (h : Follows lib className counter before calls t) {taken : List Primitive}
    (hstate : (t.step sink call).session.state = t.session.state)
    (hdeliveries : (t.step sink call).deliveries = t.deliveries ++ [⟨taken, false⟩]) :
    Follows lib className counter before calls (t.step sink call) := by
  obtain ⟨hlibrary, hconfig⟩ := step_session sink t call
  refine ⟨hlibrary.trans h.library_eq, hconfig ▸ h.className_eq, hstate.trans h.state_eq, ?_⟩
  rw [h.output_eq, kept, kept, hdeliveries, List.filter_append]
  simp

theorem step (h : Follows lib className counter before calls t) (sink : Sink σ)
    (call : String × List String) :
    ∃ calls', Follows lib className counter before calls' (t.step sink call) := by
  cases step_leads sink t call with
  | passes hexpand hstate hdeliveries => exact ⟨_, h.passes hexpand hstate hdeliveries⟩
  | refused _ _ _ hstate hdeliveries => exact ⟨_, h.rejected hstate hdeliveries⟩
  | fails _ hstate hdeliveries => exact ⟨_, h.rejected hstate hdeliveries⟩

end Follows

/-! ## The counter of a transfer -/

theorem step_counter {P : LabelCounter → Prop} (hadvance : ∀ c, P c → P c.advance) (sink : Sink σ)
    (hcounter : P t.session.state.nesting.counter) (call : String × List String) :
    P (t.step sink call).session.state.nesting.counter := by
  cases step_leads sink t call with
  | passes hexpand hstate _ =>
    have hafter := UnitState.counter_of_expand hadvance hcounter t.session.library
      t.session.config.className call.1 call.2
    rwa [hexpand, ← hstate] at hafter
  | refused _ _ _ hstate _ | fails _ hstate _ =>
    rw [hstate]
    exact hcounter

theorem run_counter {P : LabelCounter → Prop} (hadvance : ∀ c, P c → P c.advance) (sink : Sink σ)
    (hcounter : P t.session.state.nesting.counter) (calls : List (String × List String)) :
    P (run sink t calls).session.state.nesting.counter := by
  induction calls generalizing t with
  | nil => exact hcounter
  | cons call calls ih => exact ih (step_counter hadvance sink hcounter call)

theorem inRange_of_unbounded (sink : Sink σ) (hcounter : t.session.state.nesting.counter.Unbounded)
    (calls : List (String × List String)) : InRange sink t calls := by
  induction calls generalizing t with
  | nil => trivial
  | cons call calls ih =>
    have hadvance : ∀ c : LabelCounter, c.Unbounded → c.advance.Unbounded := fun _ => .advance
    exact ⟨(UnitState.counter_of_expand hadvance hcounter ..).overflowed,
      ih (step_counter hadvance sink hcounter call)⟩

/-! ## Sinks that accept everything -/

/-- With a sink that accepts everything, the unit is as after all calls, and nothing is left of those that
did not go through. -/
theorem Follows.run_accepting {t : Transfer Unit} (h : Follows lib className counter before calls t)
    (hdropped : t.dropped = []) (more : List (String × List String)) :
    Follows lib className counter before (calls ++ more) (run Sink.accepting t more) ∧
      (run Sink.accepting t more).dropped = [] := by
  induction more generalizing t calls with
  | nil => exact ⟨by rwa [List.append_nil], hdropped⟩
  | cons call more ih =>
    rw [List.append_cons]
    cases step_leads Sink.accepting t call with
    | passes hexpand hstate hdeliveries =>
      refine ih (h.passes hexpand hstate hdeliveries) ?_
      rw [dropped, hdeliveries, List.filter_append, List.flatMap_append]
      simpa [dropped] using hdropped
    | refused _ hrefused => exact absurd (congrArg Prod.snd (Sink.offerAll_accepting _)) hrefused
    | fails hexpand hstate hdeliveries =>
      have hfails := h.expand_eq.symm.trans hexpand
      rw [h.state_eq] at hfails
      have hsame : History.ofCalls lib className counter (calls ++ [call]) =
          History.ofCalls lib className counter calls :=
        (History.ofCalls_append ..).trans (History.expand_of_error hfails)
      have hrejected := h.rejected hstate hdeliveries
      refine ih ⟨hrejected.library_eq, hrejected.className_eq, hsame ▸ hrejected.state_eq, ?_⟩ ?_
      · rw [hsame, hrejected.output_eq]
      · rw [dropped, hdeliveries, List.filter_append, List.flatMap_append]
        simpa [dropped] using hdropped

/-! ## Labels of deliveries -/

namespace Follows

variable {call : String × List String}

theorem overflowed_eq (h : Follows lib className counter before calls t) :
    (History.ofCalls lib className counter calls).overflowed = t.overflowed :=
  congrArg (·.nesting.overflowed) h.state_eq.symm

theorem kept_nodup (h : Follows lib className counter before calls t) (hplaces : lib.table.PlacesOwn)
    (hcounts : t.overflowed = false) : (placedLabels (before ++ t.kept)).Nodup :=
  h.output_eq ▸ History.placed_nodup hplaces (h.overflowed_eq.trans hcounts)

/-- An instruction places labels that nothing before it has placed, if it goes through. Their numbers are
among those that the counter gives, and so are the next ones. -/
theorem offered (h : Follows lib className counter before calls t) (hplaces : lib.table.PlacesOwn)
    {x : Expansion} {state : UnitState}
    (hexpand : t.session.state.expand t.session.library t.session.config.className call.1 call.2 =
      (.ok x, state)) (hcounts : state.nesting.overflowed = false) :
    (placedLabels (before ++ t.kept ++ x.primitives)).Nodup ∧
      ∀ l ∈ placedLabels x.primitives,
        counter.next.number ≤ l.number ∧ counter.Admits (l.number + 1) := by
  obtain ⟨hstate, houtput⟩ := History.expand_of_ok (h.expand_eq.symm.trans hexpand)
  have happend := @History.ofCalls_append lib className counter calls [call]
  have hafter : (History.ofCalls lib className counter (calls ++ [call])).output =
      before ++ t.kept ++ x.primitives := by
    rw [happend, ← h.output_eq]
    exact houtput
  have hcounts' : (History.ofCalls lib className counter (calls ++ [call])).overflowed = false := by
    rw [History.overflowed, happend]
    exact (congrArg (·.nesting.overflowed) hstate).trans hcounts
  refine ⟨hafter ▸ History.placed_nodup hplaces hcounts', fun l hl => ?_⟩
  have hplaced : l ∈ (History.ofCalls lib className counter (calls ++ [call])).placed := by
    rw [History.placed, hafter, placedLabels_append]
    exact List.mem_append_right _ hl
  have hwithin := History.placed_within hplaces hcounts' hplaced
  refine ⟨hwithin.1, ?_⟩
  rw [← History.ofCalls_admits lib className counter (calls ++ [call])]
  exact (LabelCounter.admits_next _).of_le hwithin.2

end Follows

/-- No instruction places a label twice or one that has gone through before it, and all labels have
numbers that the counter gives, after which it has a next one. -/
structure Distinct (counter : LabelCounter) (t : Transfer σ) : Prop where
  nodup : ∀ d ∈ t.deliveries, (placedLabels d.taken).Nodup
  later : t.deliveries.Pairwise fun d d' =>
    d.complete = true → (placedLabels d.taken).Disjoint (placedLabels d'.taken)
  within : ∀ d ∈ t.deliveries, ∀ l ∈ placedLabels d.taken,
    counter.next.number ≤ l.number ∧ counter.Admits (l.number + 1)

theorem taken_subset_kept {d : Delivery} (hd : d ∈ t.deliveries) (hcomplete : d.complete = true) :
    placedLabels d.taken ⊆ placedLabels t.kept := by
  have hsubset : d.taken ⊆ t.kept := fun p hp =>
    List.mem_flatMap.mpr ⟨d, List.mem_filter.mpr ⟨hd, hcomplete⟩, hp⟩
  exact List.filterMap_subset _ hsubset

theorem Distinct.add (h : Distinct counter t) {taken : List Primitive} {complete : Bool}
    {t' : Transfer σ} (hdeliveries : t'.deliveries = t.deliveries ++ [⟨taken, complete⟩])
    (hnodup : (placedLabels (t.kept ++ taken)).Nodup)
    (hwithin : ∀ l ∈ placedLabels taken,
      counter.next.number ≤ l.number ∧ counter.Admits (l.number + 1)) : Distinct counter t' := by
  rw [placedLabels_append] at hnodup
  constructor <;> rw [hdeliveries]
  · exact List.forall_mem_append.mpr ⟨h.nodup, by simpa using hnodup.of_append_right⟩
  · refine List.pairwise_append.mpr ⟨h.later, List.pairwise_singleton _ _, ?_⟩
    intro d hd d' hd' hcomplete
    rw [List.mem_singleton.mp hd']
    exact List.disjoint_of_subset_left (taken_subset_kept hd hcomplete)
      (List.disjoint_of_nodup_append hnodup)
  · exact List.forall_mem_append.mpr ⟨h.within, by simpa using hwithin⟩

/-- Whatever the sink refuses, the unit is as after some of the calls, and its deliveries are distinct. -/
theorem run_distinct (hplaces : lib.table.PlacesOwn) (h : Follows lib className counter [] calls t)
    (hdistinct : Distinct counter t) (hcounts : t.overflowed = false) (sink : Sink σ)
    {more : List (String × List String)} (hrange : InRange sink t more) :
    (∃ calls', Follows lib className counter [] calls' (run sink t more)) ∧
      Distinct counter (run sink t more) ∧ (run sink t more).overflowed = false := by
  induction more generalizing t calls with
  | nil => exact ⟨⟨calls, h⟩, hdistinct, hcounts⟩
  | cons call more ih =>
    obtain ⟨hcall, hrest⟩ := hrange
    have hnext : Distinct counter (t.step sink call) ∧ (t.step sink call).overflowed = false := by
      cases step_leads sink t call with
      | passes hexpand hstate hdeliveries =>
        rw [hexpand] at hcall
        obtain ⟨hnodup, hwithin⟩ := h.offered hplaces hexpand hcall
        exact ⟨hdistinct.add hdeliveries hnodup hwithin, by rw [overflowed, hstate]; exact hcall⟩
      | refused hexpand _ htaken hstate hdeliveries =>
        -- What was taken is a front of what would have gone through.
        rw [hexpand] at hcall
        obtain ⟨hnodup, hwithin⟩ := h.offered hplaces hexpand hcall
        refine ⟨hdistinct.add hdeliveries ?_ ?_, by rw [overflowed, hstate]; exact hcounts⟩
        · exact hnodup.sublist ((htaken.sublist.append_left t.kept).filterMap _)
        · exact fun l hl => hwithin l ((htaken.sublist.filterMap _).subset hl)
      | fails _ hstate hdeliveries =>
        refine ⟨hdistinct.add hdeliveries ?_ nofun, by rw [overflowed, hstate]; exact hcounts⟩
        rw [List.append_nil]
        exact h.kept_nodup hplaces hcounts
    obtain ⟨calls', hfollows⟩ := h.step sink call
    exact ih hfollows hnext.1 hnext.2 hrest

end Transfer

/-! ## Closing what is open -/

namespace History

variable {lib : Library}

theorem next_blocks (hlib : lib.Structured) (className : String) {n : Nat} {h : History}
    (hcounts : h.overflowed = false) (hadmits : h.state.nesting.counter.Admits (h.next + n)) :
    let h' := (List.replicate n ("BLOCK", [])).foldl (expand lib className) h
    h'.next = h.next + n ∧ h'.overflowed = false := by
  induction n generalizing h with
  | zero => exact ⟨rfl, hcounts⟩
  | succ n ih =>
    obtain ⟨x, hexpand, -⟩ := hlib.block.block className h.state
    obtain ⟨hstate, -⟩ := @expand_of_ok lib className h ("BLOCK", []) _ _ hexpand
    have hone : h.state.nesting.counter.Admits (h.state.nesting.counter.next.number + 1) :=
      hadmits.of_le (Nat.add_le_add_left (Nat.le_add_left 1 n) _)
    have hcounts' := hone.advance_overflowed hcounts
    have hnext : (h.expand lib className ("BLOCK", [])).next = h.next + 1 := by
      rw [next, hstate]
      exact LabelCounter.number_advance hcounts'
    have hopened : (h.expand lib className ("BLOCK", [])).overflowed = false := by
      rw [overflowed, hstate]
      exact hcounts'
    have hadmits' : (h.expand lib className ("BLOCK", [])).state.nesting.counter.Admits
        (h.next + 1 + n) := by
      rw [hstate, Nat.add_right_comm]
      exact (LabelCounter.admits_advance _).symm ▸ hadmits
    have hrest := ih hopened (hnext ▸ hadmits')
    rw [List.replicate_succ, List.foldl_cons]
    rwa [hnext, Nat.add_right_comm] at hrest

theorem frames_ends (hlib : lib.Structured) (className : String) {frames : List Frame} {h : History}
    (hframes : h.state.nesting.frames = frames) :
    let h' := (List.replicate frames.length ("END", [])).foldl (expand lib className) h
    h'.state.nesting.frames = [] ∧ h'.state.nesting.counter = h.state.nesting.counter := by
  induction frames generalizing h with
  | nil => exact ⟨hframes, rfl⟩
  | cons frame outer ih =>
    obtain ⟨x, hexpand, -⟩ := hlib.close.close className hframes
    obtain ⟨hstate, -⟩ := @expand_of_ok lib className h ("END", []) _ _ hexpand
    rw [List.length_cons, List.replicate_succ, List.foldl_cons]
    obtain ⟨hclosed, hcounter⟩ := @ih (h.expand lib className ("END", [])) (by rw [hstate])
    refine ⟨hclosed, hcounter.trans ?_⟩
    rw [hstate]

/-- Further instructions take labels up to any number that the counter has and close all that is open. -/
theorem closes (hlib : lib.Structured) (className : String) {h : History} {number : Nat}
    (hcounts : h.overflowed = false) (hadmits : h.state.nesting.counter.Admits number) :
    ∃ more : List (String × List String), let h' := more.foldl (expand lib className) h
      h'.state.nesting.frames = [] ∧ number ≤ h'.next ∧ h'.overflowed = false := by
  have hreached : h.state.nesting.counter.Admits (h.next + (number - h.next)) := by
    rcases Nat.le_total h.next number with hle | hle
    · rwa [Nat.add_sub_cancel' hle]
    · rw [Nat.sub_eq_zero_of_le hle]
      exact LabelCounter.admits_next _
  obtain ⟨hnext, hcounts'⟩ := next_blocks hlib className hcounts hreached
  generalize hopened : (List.replicate (number - h.next) ("BLOCK", [])).foldl (expand lib className) h =
    opened at hnext hcounts'
  obtain ⟨hclosed, hcounter⟩ := @frames_ends _ hlib className _ opened rfl
  refine ⟨List.replicate (number - h.next) ("BLOCK", []) ++
    List.replicate opened.state.nesting.frames.length ("END", []), ?_⟩
  rw [List.foldl_append, hopened]
  refine ⟨hclosed, ?_, (congrArg LabelCounter.overflowed hcounter).trans hcounts'⟩
  rw [next, Nesting.nextLabel, hcounter]
  exact Nat.le_trans (by omega) (Nat.le_of_eq hnext.symm)

/-- Once nothing is open, every label that was taken is placed. -/
theorem mem_placed_of_closed {className : String} {counter : LabelCounter}
    {calls : List (String × List String)} (hplaces : lib.table.PlacesOwn)
    (hcounts : (ofCalls lib className counter calls).overflowed = false)
    (hclosed : (ofCalls lib className counter calls).state.nesting.frames = []) {l : Label}
    (hl : l.Within counter.next.number (ofCalls lib className counter calls).next) :
    l ∈ (ofCalls lib className counter calls).placed := by
  have hfirst := (ofCalls_accounted lib className counter calls hcounts).nesting.first_le
  have hperm := ofCalls_labels_perm hplaces hcounts
  have howed : (ofCalls lib className counter calls).owed = [] := by
    simp [owed, Nesting.exits, Nesting.pending, hclosed]
  rw [howed, List.append_nil] at hperm
  refine hperm.mem_iff.mp ((mem_labels hfirst).mpr ?_)
  rwa [ofCalls_first]

end History

/-! ## Labels that are placed again -/

namespace Transfer

variable {lib : Library} {className : String} {counter : LabelCounter}
  {calls : List (String × List String)} {t : Transfer σ}

theorem placedLabels_accepted (t : Transfer σ) :
    placedLabels t.accepted = t.deliveries.flatMap fun d => placedLabels d.taken := by
  rw [accepted, placedLabels, List.filterMap_flatMap]
  rfl

/-- A label is placed twice just if it was accepted of an instruction that did not go through, and
again later. -/
theorem Distinct.nodup_iff (h : Distinct counter t) :
    (placedLabels t.accepted).Nodup ↔ t.deliveries.Pairwise fun d d' =>
      d.complete = false → (placedLabels d.taken).Disjoint (placedLabels d'.taken) := by
  rw [placedLabels_accepted, List.nodup_flatMap]
  constructor
  · rintro ⟨-, hdisjoint⟩
    refine hdisjoint.imp ?_
    intro d d' hd _
    exact hd
  · intro hrefused
    refine ⟨h.nodup, (h.later.and hrefused).imp fun {d d'} hd => ?_⟩
    cases hcomplete : d.complete with
    | true => exact hd.1 hcomplete
    | false => exact hd.2 hcomplete

/-- The unit has the same history when it goes on with another sink. -/
theorem Follows.resumed (h : Follows lib className counter [] calls t) :
    Follows lib className counter t.kept calls t.resumed :=
  ⟨h.library_eq, h.className_eq, h.state_eq, h.output_eq.trans (List.append_nil t.kept).symm⟩

/-- What was dropped may be looked at apart from what went through and what follows. -/
theorem nodup_accepted_append_iff (t : Transfer σ) (ps : List Primitive) :
    (placedLabels (t.accepted ++ ps)).Nodup ↔
      (placedLabels t.dropped ++ placedLabels (t.kept ++ ps)).Nodup := by
  have hperm : (t.accepted ++ ps).Perm (t.dropped ++ (t.kept ++ ps)) := by
    rw [← List.append_assoc]
    exact t.accepted_perm.append_right ps
  rw [← placedLabels_append]
  exact (hperm.filterMap _).nodup_iff

/-- The unit can go on with these instructions, and the numbers of the labels do not run out. -/
def Continues (t : Transfer σ) (more : List (String × List String)) : Prop :=
  (run Sink.accepting t.resumed more).overflowed = false

/-- If nothing that was dropped places a label, no label is placed twice, however the unit goes on. -/
theorem Follows.nodup_continued (h : Follows lib className counter [] calls t)
    (hplaces : lib.table.PlacesOwn) (hdropped : placedLabels t.dropped = [])
    {more : List (String × List String)} (hmore : t.Continues more) :
    (placedLabels (t.accepted ++ t.continued more)).Nodup := by
  obtain ⟨hfollows, hnone⟩ := h.resumed.run_accepting rfl more
  have hcontinued := accepted_perm (run Sink.accepting t.resumed more)
  rw [hnone, List.nil_append] at hcontinued
  rw [nodup_accepted_append_iff, hdropped, List.nil_append]
  exact ((hcontinued.append_left t.kept).filterMap _).nodup_iff.mpr
    (hfollows.kept_nodup hplaces hmore)

/-- A label that was dropped is placed when the unit has gone on and closed all that is open. -/
theorem Follows.exists_again (h : Follows lib className counter [] calls t)
    (hplaces : lib.table.PlacesOwn) (hlib : lib.Structured) (hcounts : t.overflowed = false) {l : Label}
    (hfirst : counter.next.number ≤ l.number) (hadmits : counter.Admits (l.number + 1)) :
    ∃ more, t.Continues more ∧ l ∈ placedLabels (t.kept ++ t.continued more) := by
  -- Blocks take labels up to this one, and then all that is open is closed.
  rw [← History.ofCalls_admits lib className counter calls] at hadmits
  obtain ⟨more, hclosed, hnext, hcounts'⟩ :=
    History.closes hlib className (h.overflowed_eq.trans hcounts) hadmits
  rw [← History.ofCalls_append] at hclosed hnext hcounts'
  have hplaced := History.mem_placed_of_closed hplaces hcounts' hclosed ⟨hfirst, hnext⟩
  obtain ⟨hfollows, -⟩ := h.resumed.run_accepting rfl more
  rw [History.placed, hfollows.output_eq] at hplaced
  have hkept : (run Sink.accepting t.resumed more).kept ⊆
      t.continued more := fun p hp => (accepted_perm _).symm.subset (List.mem_append_right _ hp)
  refine ⟨more, hfollows.overflowed_eq.symm.trans hcounts', ?_⟩
  rw [placedLabels_append] at hplaced ⊢
  exact (List.mem_append.mp hplaced).elim (List.mem_append_left _) fun hl =>
    List.mem_append_right _ (List.filterMap_subset _ hkept hl)

theorem mem_placedLabels_dropped {l : Label} :
    l ∈ placedLabels t.dropped ↔
      ∃ d ∈ t.deliveries, d.complete = false ∧ l ∈ placedLabels d.taken := by
  rw [dropped, placedLabels, List.filterMap_flatMap, List.mem_flatMap]
  simp only [List.mem_filter, Bool.not_eq_true', and_assoc]
  rfl

theorem placedLabels_dropped_eq_nil_iff :
    placedLabels t.dropped = [] ↔ ∀ d ∈ t.deliveries, d.complete = false → placedLabels d.taken = [] := by
  rw [List.eq_nil_iff_forall_not_mem]
  simp only [mem_placedLabels_dropped, List.eq_nil_iff_forall_not_mem]
  grind

/-- However the unit goes on, no label is placed twice exactly if no label has been dropped. -/
theorem Follows.nodup_continued_iff (h : Follows lib className counter [] calls t)
    (hplaces : lib.table.PlacesOwn) (hlib : lib.Structured) (hdistinct : Distinct counter t)
    (hcounts : t.overflowed = false) :
    (∀ more, t.Continues more → (placedLabels (t.accepted ++ t.continued more)).Nodup) ↔
      placedLabels t.dropped = [] := by
  refine ⟨fun honce => List.eq_nil_iff_forall_not_mem.mpr fun l hl => ?_,
    fun hdropped more => h.nodup_continued hplaces hdropped⟩
  obtain ⟨d, hd, -, hlabel⟩ := mem_placedLabels_dropped.mp hl
  obtain ⟨hfirst, hadmits⟩ := hdistinct.within d hd l hlabel
  obtain ⟨more, hmore, hagain⟩ := h.exists_again hplaces hlib hcounts hfirst hadmits
  -- The label is among those that were dropped and among those of what went through.
  exact List.disjoint_of_nodup_append ((t.nodup_accepted_append_iff _).mp (honce more hmore)) hl hagain

/-- In a new unit whose labels do not run out of numbers, labels that were accepted of instructions that
did not go through decide whether labels are placed twice. -/
theorem places_once_iff (hplaces : lib.table.PlacesOwn) (hlib : lib.Structured) (config : UnitConfig)
    (hcounts : counter.overflowed = false) (sink : Sink σ) (received : σ)
    {calls : List (String × List String)} :
    let start : Transfer σ :=
      { session := { library := lib, config, state := { nesting := { counter } } }, received }
    let t := run sink start calls
    InRange sink start calls →
      ((placedLabels t.accepted).Nodup ↔ t.deliveries.Pairwise fun d d' =>
        d.complete = false → (placedLabels d.taken).Disjoint (placedLabels d'.taken)) ∧
      ((∀ more, t.Continues more → (placedLabels (t.accepted ++ t.continued more)).Nodup) ↔
        ∀ d ∈ t.deliveries, d.complete = false → placedLabels d.taken = []) := by
  intro start t hrange
  have hstart : Follows lib config.className counter [] [] start := ⟨rfl, rfl, rfl, rfl⟩
  have hempty : Distinct counter start := ⟨nofun, List.Pairwise.nil, nofun⟩
  obtain ⟨⟨calls', hfollows⟩, hdistinct, hcounts'⟩ :=
    run_distinct hplaces hstart hempty hcounts sink hrange
  refine ⟨hdistinct.nodup_iff, ?_⟩
  rw [hfollows.nodup_continued_iff hplaces hlib hdistinct hcounts', placedLabels_dropped_eq_nil_iff]

end Transfer

/-- What a sink accepts of a unit places a label twice just if it accepted the label of an instruction
that it then refused, and again later. So no label is placed twice, however the unit goes on with a sink
that accepts everything, exactly if the sink has accepted no label of an instruction that it refused. So
it is for labels that are counted in 32 bits, as long as the counter does not overflow. -/
theorem Catalog.wasm32_places_once_iff (config : UnitConfig) (sink : Sink σ) (received : σ)
    (calls : List (String × List String)) :
    let start := fun nesting =>
      ({ session := { library := wasm32Library, config, state := { nesting } }, received } : Transfer σ)
    (∀ first : Nat,
      let t := Transfer.run sink (start (.startingAt first)) calls
      ((placedLabels t.accepted).Nodup ↔ t.deliveries.Pairwise fun d d' =>
        d.complete = false → (placedLabels d.taken).Disjoint (placedLabels d'.taken)) ∧
      ((∀ more, (placedLabels (t.accepted ++ t.continued more)).Nodup) ↔
        ∀ d ∈ t.deliveries, d.complete = false → placedLabels d.taken = [])) ∧
    ∀ first : UInt32, Transfer.InRange sink (start (.startingAtWord first)) calls →
      let t := Transfer.run sink (start (.startingAtWord first)) calls
      ((placedLabels t.accepted).Nodup ↔ t.deliveries.Pairwise fun d d' =>
        d.complete = false → (placedLabels d.taken).Disjoint (placedLabels d'.taken)) ∧
      ((∀ more, t.Continues more → (placedLabels (t.accepted ++ t.continued more)).Nodup) ↔
        ∀ d ∈ t.deliveries, d.complete = false → placedLabels d.taken = []) := by
  intro start
  have hplaces : wasm32Library.table.PlacesOwn := placesOwn List.mem_cons_self
  refine ⟨fun first => ?_, fun first =>
    Transfer.places_once_iff hplaces wasm32_structured config rfl sink received⟩
  intro t
  have hadvance : ∀ c : LabelCounter, c.Unbounded → c.advance.Unbounded := fun _ => .advance
  have hunbounded : (start (.startingAt first)).session.state.nesting.counter.Unbounded := ⟨first, rfl⟩
  obtain ⟨hsofar, hever⟩ := Transfer.places_once_iff hplaces wasm32_structured config rfl sink received
    (Transfer.inRange_of_unbounded sink hunbounded calls)
  refine ⟨hsofar, Iff.trans ⟨fun honce more _ => honce more, fun honce more => honce more ?_⟩ hever⟩
  have hcounter : t.resumed.session.state.nesting.counter.Unbounded :=
    Transfer.run_counter hadvance sink hunbounded calls
  exact (Transfer.run_counter hadvance Sink.accepting hcounter more).overflowed

/-- A sink that refuses one of the offers that it gets. -/
def refusingOnce (position : Nat) : Sink Nat where
  offer n _ := (n + 1, if n = position then some "full" else none)

/-- Of a selection that is refused before its label, nothing is placed again. -/
theorem Catalog.refusedSelection_places_once_iff :
    let start : Transfer Nat :=
      { session := { library := wasm32Library, state := { nesting := .startingAtWord 4294967290 } }
        received := 0 }
    let calls := [("SELECT", ["I32"]), ("SELECT", ["I32"])]
    let t := Transfer.run (refusingOnce 2) start calls
    Transfer.InRange (refusingOnce 2) start calls ∧
    (∀ d ∈ t.deliveries, d.complete = false → placedLabels d.taken = []) ∧
    ∀ more, t.Continues more → (placedLabels (t.accepted ++ t.continued more)).Nodup := by
  intro start calls t
  have hrange : Transfer.InRange (refusingOnce 2) start calls :=
    ⟨by decide +kernel, by decide +kernel, trivial⟩
  have hunplaced : (t.deliveries.all fun d => d.complete || (placedLabels d.taken).isEmpty) = true := by
    decide +kernel
  have hdropped : ∀ d ∈ t.deliveries, d.complete = false → placedLabels d.taken = [] := by
    intro d hd hcomplete
    have hempty := List.all_eq_true.mp hunplaced d hd
    simpa [hcomplete] using hempty
  have hiff := (wasm32_places_once_iff {} (refusingOnce 2) 0 calls).2 4294967290 hrange
  exact ⟨hrange, hdropped, hiff.2.mpr hdropped⟩

/-- The last primitive of a selection comes after its label. If it is refused, the next selection places
the same label again. -/
theorem Catalog.wasm32_places_again :
    ¬∀ (config : UnitConfig) (sink : Sink Nat) (received : Nat) (calls : List (String × List String)),
      config.policy = .keepGoing →
        let session : Session := { library := wasm32Library, config }
        (placedLabels (Transfer.run sink { session, received } calls).accepted).Nodup := by
  intro halways
  have htwice : placedLabels (Transfer.run (refusingOnce 4)
      { session := { library := wasm32Library }, received := 0 }
      [("SELECT", ["I32"]), ("SELECT", ["I32"])]).accepted = [⟨0⟩, ⟨0⟩] := by
    decide +kernel
  have honce := halways {} (refusingOnce 4) 0 [("SELECT", ["I32"]), ("SELECT", ["I32"])] rfl
  simp only [htwice] at honce
  exact absurd honce (by decide)

end Lowering
