-- SUMMARY: The search for cycles is exact: what it finds is a cycle of calls, and it misses none.
import Mathlib.Data.List.TakeWhile
import Mathlib.Logic.Relation
import Lowering.Jvm.InstructionSet
import Lowering.Proofs.CallGraph

/-!
# Cycles of calls

The names on the path of the search lead from call to call. A call back to one of them closes a path,
which is what the search gives. Where there is a rank that every call lowers there is no such path, and
a search that finds none gives a rank. So the search finds a cycle exactly if the calls in the bodies of
the entries have one.
-/

namespace Lowering

/-! ## Closed paths -/

/-- A path of at least one step that comes back to where it starts and passes nothing else twice. -/
structure ClosedPath {α : Type} (step : α → α → Prop) (path : List α) : Prop where
  length : 2 ≤ path.length
  closed : path.head? = path.getLast?
  simple : path.dropLast.Nodup
  steps : path.IsChain step

namespace ClosedPath

variable {α : Type} {step step' : α → α → Prop} {path : List α}

theorem imp (h : ClosedPath step path) (hstep : ∀ ⦃a b⦄, step a b → step' a b) :
    ClosedPath step' path where
  length := h.length
  closed := h.closed
  simple := h.simple
  steps := h.steps.imp hstep

theorem exists_transGen (h : ClosedPath step path) : ∃ a, Relation.TransGen step a a := by
  have hlength := h.length
  have hclosed := h.closed
  have hchain := h.steps.imp fun _ _ => Relation.TransGen.single
  match path with
  | first :: second :: rest =>
    rw [List.head?_cons, List.getLast?_cons_cons] at hclosed
    have hlast : first ∈ second :: rest := List.mem_of_getLast? hclosed.symm
    exact ⟨first, hchain.rel_cons hlast⟩

end ClosedPath

/-- Where every step lowers a rank, no sequence of steps comes back. -/
theorem not_transGen_of_rank {α : Type} {step : α → α → Prop} {rank : α → Nat}
    (hrank : ∀ ⦃a b⦄, step a b → rank b < rank a) (a : α) : ¬ Relation.TransGen step a a := by
  intro hcycle
  have hlower : ∀ b, Relation.TransGen step a b → rank b < rank a := by
    intro b hsteps
    induction hsteps with
    | single hstep => exact hrank hstep
    | tail _ hstep ih => exact Nat.lt_trans (hrank hstep) ih
  exact Nat.lt_irrefl _ (hlower a hcycle)

/-! ## What the search finds -/

namespace Table

/-- A step back to something on a path, which has its last step first, closes the path. -/
theorem cycleFrom_closedPath {step : String → String → Prop} {name : String} {path : List String}
    (hmem : name ∈ path) (hnodup : path.Nodup)
    (hchain : (name :: path).IsChain fun inner outer => step outer inner) :
    ClosedPath step (cycleFrom name path) := by
  obtain ⟨before, rest, rfl⟩ := List.append_of_mem hmem
  have hbefore : name ∉ before := by
    intro hname
    exact (List.nodup_append.mp hnodup).2.2 name hname name List.mem_cons_self rfl
  have hcut : (before ++ name :: rest).takeWhile (· ≠ name) = before := by
    rw [List.takeWhile_append_of_pos]
    · simp
    · intro other hother
      exact decide_eq_true fun heq => hbefore (heq ▸ hother)
  rw [cycleFrom, hcut]
  refine ⟨by simp, List.getLast?_concat.symm, ?_, ?_⟩
  · have hsimple : before.Nodup := (List.nodup_append.mp hnodup).1
    rw [List.dropLast_concat, List.nodup_cons, List.mem_reverse, List.nodup_reverse]
    exact ⟨hbefore, hsimple⟩
  · have hreversed : name :: before.reverse ++ [name] = (name :: before ++ [name]).reverse := by simp
    rw [hreversed, List.isChain_reverse]
    apply hchain.prefix
    exact ⟨rest, by simp⟩

theorem foldlM_eq_error {ε : Type} {visit : List String → String → Except ε (List String)}
    {names done : List String} {cycle : ε} (h : names.foldlM visit done = .error cycle) :
    ∃ name ∈ names, ∃ done, visit done name = .error cycle := by
  induction names generalizing done with
  | nil => cases h
  | cons name names ih =>
    rw [List.foldlM_cons] at h
    cases hfirst : visit done name with
    | error found =>
      rw [hfirst] at h
      cases h
      exact ⟨name, List.mem_cons_self, done, hfirst⟩
    | ok middle =>
      rw [hfirst] at h
      obtain ⟨other, hother, done', hvisit⟩ := ih h
      exact ⟨other, List.mem_cons_of_mem _ hother, done', hvisit⟩

/-- Below a path of distinct names, each called by the next, a search finds only closed paths. -/
theorem search_closedPath {t : Table} {bound : Nat} {path done cycle : List String} {name : String}
    (h : t.search bound path done name = .error cycle) (hnodup : (name :: path).Nodup)
    (hchain : (name :: path).IsChain fun callee caller => callee ∈ t.callsOf caller) :
    ClosedPath (fun caller callee => callee ∈ t.callsOf caller) cycle := by
  induction bound generalizing path done name with
  | zero => cases h
  | succ bound ih =>
    rw [search_succ] at h
    cases hfold : (t.callsOf name).foldlM (t.visit bound (name :: path)) done with
    | ok below =>
      rw [hfold] at h
      cases h
    | error found =>
      rw [hfold] at h
      cases h
      obtain ⟨callee, hcallee, done', hvisit⟩ := foldlM_eq_error hfold
      have hextended : (callee :: name :: path).IsChain fun callee caller => callee ∈ t.callsOf caller :=
        hchain.cons_cons hcallee
      unfold visit at hvisit
      split at hvisit
      · rename_i hmem
        cases hvisit
        exact cycleFrom_closedPath hmem hnodup hextended
      · rename_i hnew
        split at hvisit
        · cases hvisit
        · exact ih hvisit (List.nodup_cons.mpr ⟨hnew, hnodup⟩) hextended

theorem cycle?_closedPath {t : Table} {cycle : List String} (h : t.cycle? = some cycle) :
    ClosedPath (fun caller callee => callee ∈ t.callsOf caller) cycle := by
  unfold cycle? at h
  split at h
  · cases h
  · rename_i found hall
    cases h
    obtain ⟨name, -, done, hvisit⟩ := foldlM_eq_error hall
    split at hvisit
    · cases hvisit
    · exact search_closedPath hvisit (List.nodup_singleton name) (.singleton name)

/-- Where calls descend, the search finds no cycle. -/
theorem cycle?_eq_none_of_rank {t : Table} {rank : String → Nat}
    (hrank : ∀ caller, ∀ callee ∈ t.callsOf caller, rank callee < rank caller) :
    t.cycle? = none := by
  rw [Option.eq_none_iff_forall_ne_some]
  intro cycle hcycle
  obtain ⟨name, hback⟩ := (cycle?_closedPath hcycle).exists_transGen
  exact not_transGen_of_rank hrank name hback

end Table

/-! ## Calls in bodies -/

/-- The operation calls the entry with this name, or an operation in it does: one that it groups or one
of either body that it chooses from. -/
inductive Op.Calls (callee : String) : Op → Prop where
  | call : Op.Calls callee (.call callee)
  | single {single double : List Op} {op : Op} (hop : op ∈ single) (hcall : Op.Calls callee op) :
      Op.Calls callee (.select single double)
  | double {single double : List Op} {op : Op} (hop : op ∈ double) (hcall : Op.Calls callee op) :
      Op.Calls callee (.select single double)
  | seq {ops : List Op} {op : Op} (hop : op ∈ ops) (hcall : Op.Calls callee op) :
      Op.Calls callee (.seq ops)

mutual

theorem Op.call_mem_steps_iff {callee : String} (op : Op) :
    .call callee ∈ op.steps ↔ op.Calls callee := by
  match op with
  | .act a =>
    have hnone : Step.call callee ∉ (Op.act a).steps := by simp [Op.steps]
    constructor
    · intro h
      exact absurd h hnone
    · intro h
      cases h
  | .call name =>
    rw [Op.steps, List.mem_singleton, Step.call.injEq]
    constructor
    · rintro rfl
      exact .call
    · intro h
      cases h
      rfl
  | .select single double =>
    rw [Op.steps, List.mem_append, Op.call_mem_allSteps_iff single, Op.call_mem_allSteps_iff double]
    constructor
    · rintro (⟨op, hop, hcall⟩ | ⟨op, hop, hcall⟩)
      · exact .single hop hcall
      · exact .double hop hcall
    · intro h
      cases h with
      | single hop hcall => exact .inl ⟨_, hop, hcall⟩
      | double hop hcall => exact .inr ⟨_, hop, hcall⟩
  | .seq ops =>
    rw [Op.steps, Op.call_mem_allSteps_iff ops]
    constructor
    · rintro ⟨op, hop, hcall⟩
      exact .seq hop hcall
    · intro h
      cases h with
      | seq hop hcall => exact ⟨_, hop, hcall⟩

theorem Op.call_mem_allSteps_iff {callee : String} (ops : List Op) :
    .call callee ∈ Op.allSteps ops ↔ ∃ op ∈ ops, op.Calls callee := by
  match ops with
  | [] => simp [Op.allSteps]
  | op :: ops =>
    rw [Op.allSteps, List.mem_append, Op.call_mem_steps_iff op, Op.call_mem_allSteps_iff ops,
      List.exists_mem_cons_iff]

end

theorem Entry.mem_calls_iff {e : Entry} {callee : String} :
    callee ∈ e.calls ↔ ∃ op ∈ e.body, op.Calls callee := by
  rw [← Op.call_mem_allSteps_iff, calls, List.mem_filterMap]
  constructor
  · rintro ⟨step, hstep, hcallee⟩
    cases step with
    | act a => cases hcallee
    | call name =>
      cases hcallee
      exact hstep
  · intro hstep
    exact ⟨_, hstep, rfl⟩

namespace Table

/-- The entry with the one name calls the entry with the other, somewhere in its body. -/
def Calls (t : Table) (caller callee : String) : Prop :=
  ∃ e ∈ t.entries, e.name = caller ∧ ∃ op ∈ e.body, op.Calls callee

/-- Every call is to the name of an entry. -/
def Resolved (t : Table) : Prop := ∀ caller callee, t.Calls caller callee → callee ∈ t.names

theorem calls_of_mem_callsOf {t : Table} {caller callee : String} (h : callee ∈ t.callsOf caller) :
    t.Calls caller callee := by
  obtain ⟨e, hfind, hcall⟩ := mem_callsOf_iff.mp h
  exact ⟨e, find?_mem hfind, find?_name hfind, Entry.mem_calls_iff.mp hcall⟩

theorem Calls.mem_callsOf {t : Table} (hdistinct : t.names.Nodup) {caller callee : String}
    (h : t.Calls caller callee) : callee ∈ t.callsOf caller := by
  obtain ⟨e, he, rfl, hcall⟩ := h
  exact mem_callsOf_iff.mpr ⟨e, find?_eq_some_of_mem hdistinct he, Entry.mem_calls_iff.mpr hcall⟩

theorem resolved_of_unresolvedFault? {t : Table} (h : t.unresolvedFault? = none) : t.Resolved := by
  rintro caller callee ⟨e, he, -, hcall⟩
  exact unresolvedFault?_eq_none_iff.mp h e he callee (Entry.mem_calls_iff.mpr hcall)

/-- Of entries with distinct names whose calls all resolve, the search finds no cycle exactly if there is
no sequence of calls from an entry back to itself. What it finds is such a sequence, which passes each
other entry at most once. -/
theorem search_finds_cycles {t : Table} (hdistinct : t.names.Nodup) (hresolved : t.Resolved) :
    (t.cycle? = none ↔ ∀ name, ¬ Relation.TransGen t.Calls name name) ∧
    ∀ path, t.cycle? = some path → ClosedPath t.Calls path := by
  have hfound : ∀ path, t.cycle? = some path → ClosedPath t.Calls path := by
    intro path hpath
    exact (cycle?_closedPath hpath).imp fun _ _ => calls_of_mem_callsOf
  refine ⟨⟨?_, ?_⟩, hfound⟩
  · intro hnone
    have hcalls : ∀ caller, t.callsOf caller ⊆ t.names :=
      fun caller callee hcallee => hresolved caller callee (calls_of_mem_callsOf hcallee)
    obtain ⟨rank, hrank⟩ := exists_rank hcalls hnone
    exact not_transGen_of_rank fun caller callee hcall => hrank caller callee (hcall.mem_callsOf hdistinct)
  · intro hacyclic
    rw [Option.eq_none_iff_forall_ne_some]
    intro path hpath
    obtain ⟨name, hback⟩ := (hfound path hpath).exists_transGen
    exact hacyclic name hback

/-- Entries that call each other through a group and one body of a choice, behind others that do not. -/
def crossingCalls : Table where
  name := "crossing"
  isa := jvm
  entries :=
    [{ name := "OUTER", body := [.emit "nop", .call "left", .call "right"] },
     { name := "left", body := [.call "shared"] },
     { name := "right", body := [.select [.call "left"] [.call "shared", .call "middle"]] },
     { name := "shared", body := [] },
     { name := "middle", body := [.seq [.call "shared", .seq [.call "right"]]] }]

theorem crossingCalls_search_finds_cycles :
    crossingCalls.names.Nodup ∧ crossingCalls.Resolved ∧
    crossingCalls.cycle? = some ["right", "middle", "right"] ∧
    ClosedPath crossingCalls.Calls ["right", "middle", "right"] := by
  have hdistinct : crossingCalls.names.Nodup := by decide
  have hresolved : crossingCalls.Resolved := resolved_of_unresolvedFault? (by decide +kernel)
  have hfound : crossingCalls.cycle? = some ["right", "middle", "right"] := by decide +kernel
  exact ⟨hdistinct, hresolved, hfound, (search_finds_cycles hdistinct hresolved).2 _ hfound⟩

end Table

end Lowering
