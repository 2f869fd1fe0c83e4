-- SUMMARY: Resolved calls agree with calls by name, and resolution finds the fault that the check finds.
import Lowering.Linked
import Lowering.Proofs.CallDepth
import Lowering.Proofs.Runs

/-!
# Resolved calls

Resolution keeps the operations of an entry and adds to each call the position of the entry that has the
name called. So an expansion that follows the positions does what one does that looks up the names. A table
that cannot be resolved is one whose check finds a call to a name that is no entry, and both report the
same call.
-/

namespace Lowering

/-! ## Positions -/

namespace Table

variable {t : Table} {name : String} {id : Nat}

/-- The position of a name is that of the entry that the name finds. -/
theorem find?_of_position? (h : t.position? name = some id) : t.find? name = t.entries[id]? := by
  obtain ⟨-, hindex⟩ := List.findIdx?_eq_some_iff_findIdx_eq.mp h
  rw [find?, List.find?_eq_getElem?_findIdx, hindex]

theorem getElem?_of_position? (h : t.position? name = some id) :
    ∃ e, t.entries[id]? = some e ∧ e.name = name := by
  obtain ⟨hid, hname, -⟩ := List.findIdx?_eq_some_iff_getElem.mp h
  exact ⟨_, List.getElem?_eq_getElem hid, by simpa using hname⟩

/-- Where names are distinct, each has the position of its entry. -/
theorem position?_eq_some (hdistinct : t.names.Nodup) {e : Entry} (h : t.entries[id]? = some e) :
    t.position? e.name = some id := by
  obtain ⟨hid, rfl⟩ := List.getElem?_eq_some_iff.mp h
  refine List.findIdx?_eq_some_iff_getElem.mpr ⟨hid, by simp, fun i hi hname => ?_⟩
  have hlength : i < t.names.length := by
    rw [names, List.length_map]
    exact Nat.lt_trans hi hid
  have hnames : t.names[i]? = t.names[id]? := by
    simpa [names, Nat.lt_trans hi hid, hid] using hname
  exact Nat.ne_of_lt hi ((List.getElem?_inj hlength hdistinct).mp hnames)

theorem position?_isSome_iff : (t.position? name).isSome = true ↔ name ∈ t.names := by
  simp [position?, names]

end Table

/-! ## Resolved operations -/

-- The induction is on the syntax of operations, whose calls keep their order.
mutual

/-- Resolution keeps the names of calls, and adds the positions of these. -/
theorem Op.calls_resolve {position? : String → Option Nat} {op : Op} {op' : LinkedOp}
    (h : Op.resolve position? op = .ok op') :
    op'.calls.map Prod.fst = op.steps.filterMap Step.callee? ∧
      ∀ call ∈ op'.calls, position? call.1 = some call.2 := by
  match op with
  | .act a =>
    rw [Op.resolve] at h
    cases h
    simp [LinkedOp.calls, Op.steps, Step.callee?]
  | .call name =>
    rw [Op.resolve] at h
    split at h
    · rename_i target hposition
      cases h
      simp [LinkedOp.calls, Op.steps, Step.callee?, hposition]
    · cases h
  | .select single double =>
    rw [Op.resolve] at h
    obtain ⟨single', hsingle, h⟩ := ok_of_bind_ok h
    obtain ⟨double', hdouble, h⟩ := ok_of_bind_ok h
    cases h
    obtain ⟨hnames, hpositions⟩ := Op.allCalls_resolve hsingle
    obtain ⟨hnames', hpositions'⟩ := Op.allCalls_resolve hdouble
    rw [LinkedOp.calls, Op.steps, List.map_append, List.filterMap_append, hnames, hnames']
    exact ⟨rfl, List.forall_mem_append.mpr ⟨hpositions, hpositions'⟩⟩
  | .seq ops =>
    rw [Op.resolve] at h
    obtain ⟨ops', hops, h⟩ := ok_of_bind_ok h
    cases h
    rw [LinkedOp.calls, Op.steps]
    exact Op.allCalls_resolve hops

theorem Op.allCalls_resolve {position? : String → Option Nat} {ops : List Op} {ops' : List LinkedOp}
    (h : Op.resolveAll position? ops = .ok ops') :
    (LinkedOp.allCalls ops').map Prod.fst = (Op.allSteps ops).filterMap Step.callee? ∧
      ∀ call ∈ LinkedOp.allCalls ops', position? call.1 = some call.2 := by
  match ops with
  | [] =>
    cases h
    exact ⟨rfl, nofun⟩
  | op :: ops =>
    rw [Op.resolveAll] at h
    obtain ⟨op', hop, h⟩ := ok_of_bind_ok h
    obtain ⟨ops', hops, h⟩ := ok_of_bind_ok h
    cases h
    obtain ⟨hnames, hpositions⟩ := Op.calls_resolve hop
    obtain ⟨hnames', hpositions'⟩ := Op.allCalls_resolve hops
    rw [LinkedOp.allCalls, Op.allSteps, List.map_append, List.filterMap_append, hnames, hnames']
    exact ⟨rfl, List.forall_mem_append.mpr ⟨hpositions, hpositions'⟩⟩

end

-- The induction is on the syntax of operations; calls are left to the handlers, which agree.
mutual

theorem Op.run_resolve {position? : String → Option Nat} {scope : Scope} {onCall : CallHandler}
    {onLinked : LinkedHandler} {declared : Option ValueType}
    (hcall : ∀ name target, position? name = some target →
      onLinked name target declared = onCall name declared)
    {op : Op} {op' : LinkedOp} (h : Op.resolve position? op = .ok op') (inv : Invocation) :
    LinkedOp.run scope onLinked declared inv op' = Op.run scope onCall declared inv op := by
  match op with
  | .act a =>
    rw [Op.resolve] at h
    cases h
    rw [LinkedOp.run, Op.run]
  | .call name =>
    rw [Op.resolve] at h
    split at h
    · rename_i target hposition
      cases h
      rw [LinkedOp.run, Op.run, hcall name target hposition]
    · cases h
  | .select single double =>
    rw [Op.resolve] at h
    obtain ⟨single', hsingle, h⟩ := ok_of_bind_ok h
    obtain ⟨double', hdouble, h⟩ := ok_of_bind_ok h
    cases h
    rw [LinkedOp.run, Op.run]
    cases inv.valueType declared with
    | error cause => rfl
    | ok typed =>
      dsimp only
      cases typed.1.width with
      | single => exact Op.runAll_resolve hcall hsingle typed.2
      | double => exact Op.runAll_resolve hcall hdouble typed.2
  | .seq ops =>
    rw [Op.resolve] at h
    obtain ⟨ops', hops, h⟩ := ok_of_bind_ok h
    cases h
    rw [LinkedOp.run, Op.run, Op.runAll_resolve hcall hops]

theorem Op.runAll_resolve {position? : String → Option Nat} {scope : Scope} {onCall : CallHandler}
    {onLinked : LinkedHandler} {declared : Option ValueType}
    (hcall : ∀ name target, position? name = some target →
      onLinked name target declared = onCall name declared)
    {ops : List Op} {ops' : List LinkedOp} (h : Op.resolveAll position? ops = .ok ops')
    (inv : Invocation) :
    LinkedOp.runAll scope onLinked declared inv ops' = Op.runAll scope onCall declared inv ops := by
  match ops with
  | [] =>
    cases h
    rw [LinkedOp.runAll, Op.runAll]
  | op :: ops =>
    rw [Op.resolveAll] at h
    obtain ⟨op', hop, h⟩ := ok_of_bind_ok h
    obtain ⟨ops', hops, h⟩ := ok_of_bind_ok h
    cases h
    rw [LinkedOp.runAll, Op.runAll, Op.run_resolve hcall hop]
    cases Op.run scope onCall declared inv op with
    | error halt => rfl
    | ok inv => exact Op.runAll_resolve hcall hops inv

end

/-! ## Resolved tables -/

theorem Entry.resolve_eq_ok {position? : String → Option Nat} {e : Entry} {linked : LinkedEntry}
    (h : e.resolve position? = .ok linked) :
    linked.entry = e ∧ Op.resolveAll position? linked.entry.body = .ok linked.body := by
  unfold Entry.resolve at h
  split at h
  · rename_i hbody
    cases h
    exact ⟨rfl, hbody⟩
  · cases h

/-- The entries are resolved one by one, and stay at their positions. -/
theorem Table.resolve_eq_ok {t : Table} {entries : List LinkedEntry} (h : t.resolve = .ok entries) :
    entries.map LinkedEntry.entry = t.entries ∧
      ∀ linked ∈ entries, Op.resolveAll t.position? linked.entry.body = .ok linked.body := by
  unfold resolve at h
  generalize t.position? = position? at h ⊢
  generalize t.entries = es at h ⊢
  induction es generalizing entries with
  | nil =>
    cases h
    exact ⟨rfl, nofun⟩
  | cons e es ih =>
    rw [List.mapM_cons] at h
    obtain ⟨first, hfirst, h⟩ := ok_of_bind_ok h
    obtain ⟨rest, hrest, h⟩ := ok_of_bind_ok h
    cases h
    obtain ⟨rfl, hbody⟩ := Entry.resolve_eq_ok hfirst
    obtain ⟨hentries, hbodies⟩ := ih hrest
    exact ⟨by rw [List.map_cons, hentries], List.forall_mem_cons.mpr ⟨hbody, hbodies⟩⟩

/-! ## The first call that is not resolved -/

/-- The failure of a result. -/
def failed? {ε α : Type} : Except ε α → Option ε
  | .ok _ => none
  | .error e => some e

theorem failed?_pair {ε α β γ : Type} (x : Except ε α) (y : Except ε β) (f : α → β → γ) :
    failed? (x >>= fun a => y >>= fun b => pure (f a b)) = (failed? x).or (failed? y) := by
  cases x <;> cases y <;> rfl

-- The induction is on the syntax of operations, whose steps are resolved in order.
mutual

theorem Op.failed?_resolve (position? : String → Option Nat) (op : Op) :
    failed? (Op.resolve position? op) =
      (op.steps.filterMap Step.callee?).find? fun name => (position? name).isNone := by
  match op with
  | .act a => simp [Op.resolve, Op.steps, Step.callee?, failed?]
  | .call name =>
    cases hposition : position? name <;>
      simp [Op.resolve, Op.steps, Step.callee?, failed?, hposition]
  | .select single double =>
    rw [Op.resolve, failed?_pair, Op.failed?_resolveAll, Op.failed?_resolveAll, Op.steps,
      List.filterMap_append, List.find?_append]
  | .seq ops =>
    rw [Op.resolve, Op.steps, ← Op.failed?_resolveAll]
    cases Op.resolveAll position? ops <;> rfl

theorem Op.failed?_resolveAll (position? : String → Option Nat) (ops : List Op) :
    failed? (Op.resolveAll position? ops) =
      ((Op.allSteps ops).filterMap Step.callee?).find? fun name => (position? name).isNone := by
  match ops with
  | [] => rfl
  | op :: ops =>
    rw [Op.resolveAll, failed?_pair, Op.failed?_resolve, Op.failed?_resolveAll, Op.allSteps,
      List.filterMap_append, List.find?_append]

end

theorem Entry.failed?_resolve (t : Table) (e : Entry) :
    failed? (e.resolve t.position?) = Table.unresolvedIn? t.names e := by
  have hnames : (fun name => (t.position? name).isNone) = fun name => !t.names.contains name := by
    funext name
    rw [← Option.not_isSome, Bool.not_inj_iff, Bool.eq_iff_iff, Table.position?_isSome_iff,
      List.contains_iff_mem]
  have hbody := Op.failed?_resolveAll t.position? e.body
  rw [Table.unresolvedIn?, Entry.calls, ← hnames, ← hbody, Entry.resolve]
  cases Op.resolveAll t.position? e.body <;> rfl

/-- Resolving a table fails with the fault that its check finds for calls. -/
theorem Table.failed?_resolve (t : Table) : failed? t.resolve = t.unresolvedFault? := by
  unfold resolve unresolvedFault?
  generalize t.entries = es
  induction es with
  | nil => rfl
  | cons e es ih =>
    rw [List.mapM_cons, failed?_pair, ih, Entry.failed?_resolve, List.findSome?_cons]
    cases unresolvedIn? t.names e <;> rfl

/-- The calls of a library are all resolved. -/
theorem Library.resolve_eq (lib : Library) : lib.table.resolve = .ok lib.linked := by
  have hchecked := lib.checked
  simp only [Table.fault?, Option.or_eq_none_iff, ← Table.failed?_resolve] at hchecked
  have hresolve := hchecked.2.1
  unfold Library.linked
  cases h : lib.table.resolve with
  | ok entries => rfl
  | error fault =>
    rw [h] at hresolve
    cases hresolve

/-! ## Expansion along positions -/

/-- In a resolved table, carrying out a call at its position is carrying it out by its name. -/
theorem Scope.callAt_eq (scope : Scope) {entries : List LinkedEntry}
    (h : scope.table.resolve = .ok entries) (bound : Nat) {name : String} {target : Nat}
    (hposition : scope.table.position? name = some target) (declared : Option ValueType) :
    scope.callAt entries bound name target declared = scope.call bound name declared := by
  induction bound generalizing name target declared with
  | zero => rfl
  | succ bound ih =>
    funext inv
    obtain ⟨hentries, hbodies⟩ := Table.resolve_eq_ok h
    rw [callAt, call, Table.find?_of_position? hposition, ← hentries, List.getElem?_map]
    cases hlinked : entries[target]? with
    | none => rfl
    | some linked =>
      have hbody := hbodies linked (List.mem_of_getElem? hlinked)
      exact Op.runAll_resolve (fun name target hposition => ih hposition _) hbody inv

theorem UnitState.invokeAt_eq (state : UnitState) (lib : Library) (className mnemonic : String)
    (operands : List String) {id : Nat} {e : Entry} (h : lib.entries[id]? = some e) :
    state.invokeAt ⟨lib.table, className, mnemonic⟩ lib.linked operands id e =
      state.invoke ⟨lib.table, className, mnemonic⟩ e operands := by
  have hlength : lib.linked.length = lib.table.entries.length := by
    rw [← (Table.resolve_eq_ok lib.resolve_eq).1, List.length_map]
  have hfind : lib.table.find? e.name = some e :=
    Table.find?_eq_some_of_mem lib.table_checked.distinct (List.mem_of_getElem? h)
  unfold invokeAt invoke
  rw [Scope.callAt_eq ⟨lib.table, className, mnemonic⟩ lib.resolve_eq _
    (Table.position?_eq_some lib.table_checked.distinct h), hlength, Scope.call]
  simp only [hfind, Option.or_none]
  rfl

/-- Every call of a library goes to a position with an entry of the name called. -/
theorem Library.linked_calls (lib : Library) {linked : LinkedEntry} (h : linked ∈ lib.linked) :
    linked.calls.map Prod.fst = linked.entry.calls ∧
      ∀ call ∈ linked.calls, ∃ callee, lib.linked[call.2]? = some callee ∧ callee.entry.name = call.1 := by
  obtain ⟨hentries, hbodies⟩ := Table.resolve_eq_ok lib.resolve_eq
  obtain ⟨hnames, hpositions⟩ := Op.allCalls_resolve (hbodies linked h)
  refine ⟨hnames, fun call hcall => ?_⟩
  obtain ⟨e, he, hname⟩ := Table.getElem?_of_position? (hpositions call hcall)
  rw [← hentries, List.getElem?_map] at he
  obtain ⟨callee, hcallee, rfl⟩ := Option.map_eq_some_iff.mp he
  exact ⟨callee, hcallee, hname⟩

/-- An expansion that follows the positions of calls does what one does that looks up their names. -/
theorem UnitState.expandLinked_eq (state : UnitState) (lib : Library) (className mnemonic : String)
    (operands : List String) :
    state.expandLinked lib className mnemonic operands =
      state.expand lib className mnemonic operands := by
  unfold expandLinked expand expandBy
  split
  · rfl
  · rename_i id e hlookup
    rw [state.invokeAt_eq lib className mnemonic operands (Library.getElem?_of_lookup hlookup).1]

end Lowering
