-- SUMMARY: The search for cycles is exhaustive: when it finds none, calls descend along a rank.
import Mathlib.Data.List.Chain
import Mathlib.Data.List.Perm.Subperm
import Lowering.Proofs.Checks

/-!
# Calls descend

The search lists the names it has finished so that each one calls only names behind it. When it finds
no cycle, all names are in one such list, and the distance from its end is a rank that every call
lowers. Hence a stack of nested calls never holds a name twice.
-/

namespace Lowering.Table

/-! ## Finished names -/

theorem mem_callsOf_iff {t : Table} {caller callee : String} :
    callee ∈ t.callsOf caller ↔ ∃ e, t.find? caller = some e ∧ callee ∈ e.calls := by
  cases hfind : t.find? caller with
  | none => simp [callsOf, hfind]
  | some e => simp [callsOf, hfind]

theorem mem_callsOf_of_step {t : Table} {caller callee : String} {e : Entry}
    (hfind : t.find? caller = some e) (hstep : .call callee ∈ steps e.body) :
    callee ∈ t.callsOf caller :=
  mem_callsOf_iff.mpr ⟨e, hfind, List.mem_filterMap.mpr ⟨_, hstep, rfl⟩⟩

theorem Checked.callee_mem_names {t : Table} (ht : t.Checked) {caller callee : String}
    (hcallee : callee ∈ t.callsOf caller) : callee ∈ t.names := by
  obtain ⟨e, hfind, hcall⟩ := mem_callsOf_iff.mp hcallee
  exact ht.resolved e (find?_mem hfind) callee hcall

/-- Every name of the list calls only names behind it. -/
def Layered (t : Table) : List String → Prop
  | [] => True
  | name :: names => t.callsOf name ⊆ names ∧ t.Layered names

/-- A fold whose visits keep `P`, keep what is listed and list what they visit does so for all. -/
theorem foldlM_lists {ε : Type} {P : List String → Prop}
    {visit : List String → String → Except ε (List String)} {names done done' : List String}
    (hvisit : ∀ done name done', name ∈ names → P done → visit done name = .ok done' →
      P done' ∧ name ∈ done' ∧ done ⊆ done')
    (hdone : P done) (h : names.foldlM visit done = .ok done') :
    P done' ∧ names ⊆ done' ∧ done ⊆ done' := by
  induction names generalizing done with
  | nil =>
    cases h
    exact ⟨hdone, List.nil_subset _, List.Subset.refl _⟩
  | cons name names ih =>
    rw [List.foldlM_cons] at h
    cases hfirst : visit done name with
    | error cycle =>
      rw [hfirst] at h
      cases h
    | ok middle =>
      rw [hfirst] at h
      obtain ⟨hmiddle, hname, hkept⟩ := hvisit done name middle (by simp) hdone hfirst
      obtain ⟨hlast, hnames, hkept'⟩ :=
        ih (fun done n done' hn => hvisit done n done' (by simp [hn])) hmiddle h
      exact ⟨hlast, List.cons_subset.mpr ⟨hkept' hname, hnames⟩, List.Subset.trans hkept hkept'⟩

/-- Distinct names of the table that are open on a path are at most as many as there are entries. -/
theorem path_length_le {t : Table} {path : List String} (hnodup : path.Nodup)
    (hnames : path ⊆ t.names) : path.length ≤ t.entries.length := by
  have hle := (hnodup.subperm hnames).length_le
  simpa [names] using hle

/-- What a search below a path does with one of the callees. -/
def visit (t : Table) (bound : Nat) (path done : List String) (callee : String) :
    Except (List String) (List String) :=
  if callee ∈ path then .error (cycleFrom callee path)
  else if callee ∈ done then .ok done
  else t.search bound path done callee

theorem search_succ (t : Table) (bound : Nat) (path done : List String) (name : String) :
    t.search (bound + 1) path done name =
      ((t.callsOf name).foldlM (t.visit bound (name :: path)) done).map (name :: ·) := by
  simp only [search]
  unfold visit
  generalize (List.foldlM _ done (t.callsOf name) : Except (List String) (List String)) = searched
  cases searched <;> rfl

/-- A search that finds no cycle adds its name and keeps the list layered. The bound suffices for the
entries that are not on the path. -/
theorem search_layered {t : Table} (hcalls : ∀ caller, t.callsOf caller ⊆ t.names) {bound : Nat}
    {path done done' : List String} {name : String} (h : t.search bound path done name = .ok done')
    (hnodup : (name :: path).Nodup) (hnames : name :: path ⊆ t.names)
    (hbound : t.entries.length ≤ bound + path.length) (hdone : t.Layered done) :
    t.Layered done' ∧ name ∈ done' ∧ done ⊆ done' := by
  induction bound generalizing path done done' name with
  | zero =>
    have hlen := path_length_le hnodup hnames
    simp only [List.length_cons] at hlen
    omega
  | succ bound ih =>
    rw [search_succ] at h
    cases hfold : (t.callsOf name).foldlM (t.visit bound (name :: path)) done with
    | error cycle =>
      rw [hfold] at h
      cases h
    | ok below =>
      rw [hfold] at h
      cases h
      have hbelow : t.Layered below ∧ t.callsOf name ⊆ below ∧ done ⊆ below := by
        refine foldlM_lists ?_ hdone hfold
        intro done callee done' hcallee hdone hvisit
        unfold visit at hvisit
        split at hvisit
        · cases hvisit
        · rename_i hpath
          split at hvisit
          · rename_i hmem
            cases hvisit
            exact ⟨hdone, hmem, List.Subset.refl _⟩
          · have hnames' := List.cons_subset.mpr ⟨hcalls name hcallee, hnames⟩
            refine ih hvisit (List.nodup_cons.mpr ⟨hpath, hnodup⟩) hnames' ?_ hdone
            simp only [List.length_cons]
            omega
      obtain ⟨hlayered, hcallees, hkept⟩ := hbelow
      exact ⟨⟨hcallees, hlayered⟩, List.mem_cons_self, List.subset_cons_of_subset _ hkept⟩

/-- When the search finds no cycle, all names can be listed so that each calls only names behind it. -/
theorem exists_layered {t : Table} (hcalls : ∀ caller, t.callsOf caller ⊆ t.names)
    (hacyclic : t.cycle? = none) : ∃ order, t.Layered order ∧ t.names ⊆ order := by
  unfold cycle? at hacyclic
  cases hall : t.searchAll with
  | error cycle => simp [hall] at hacyclic
  | ok order =>
    have hsearched : t.Layered order ∧ t.names ⊆ order ∧ [] ⊆ order := by
      refine foldlM_lists ?_ (show t.Layered [] from trivial) hall
      intro done name done' hname hdone hvisit
      split at hvisit
      · rename_i hmem
        cases hvisit
        exact ⟨hdone, hmem, List.Subset.refl _⟩
      · exact search_layered hcalls hvisit (by simp) (by simpa using hname) (by simp) hdone
    exact ⟨order, hsearched.1, hsearched.2.1⟩

/-! ## Ranks -/

/-- Along a layered list, the distance of the last occurrence from the end descends with every call. -/
theorem Layered.idxOf_lt {t : Table} {order : List String} (h : t.Layered order) {caller callee : String}
    (hcaller : caller ∈ order) (hcallee : callee ∈ t.callsOf caller) :
    order.reverse.idxOf callee < order.reverse.idxOf caller := by
  induction order with
  | nil => cases hcaller
  | cons name names ih =>
    obtain ⟨hcalls, hnames⟩ := h
    rw [List.reverse_cons]
    by_cases hmem : caller ∈ names
    · have hlt := ih hnames hmem
      have hcallee' : callee ∈ names := by
        by_contra hnot
        have hout := List.idxOf_eq_length_iff.mpr (mt List.mem_reverse.mp hnot)
        have hin := List.idxOf_lt_length_iff.mpr (List.mem_reverse.mpr hmem)
        omega
      rw [List.idxOf_append_of_mem (List.mem_reverse.mpr hcallee'),
        List.idxOf_append_of_mem (List.mem_reverse.mpr hmem)]
      exact hlt
    · have hname : caller = name := (List.mem_cons.mp hcaller).resolve_right hmem
      subst hname
      have hin : callee ∈ names.reverse := List.mem_reverse.mpr (hcalls hcallee)
      rw [List.idxOf_append_of_mem hin,
        List.idxOf_append_of_notMem (mt List.mem_reverse.mp hmem)]
      exact Nat.lt_of_lt_of_le (List.idxOf_lt_length_iff.mpr hin) (Nat.le_add_right _ _)

/-- When the search finds no cycle, there is a rank that every call lowers. -/
theorem exists_rank {t : Table} (hcalls : ∀ caller, t.callsOf caller ⊆ t.names)
    (hacyclic : t.cycle? = none) :
    ∃ rank : String → Nat, ∀ caller, ∀ callee ∈ t.callsOf caller, rank callee < rank caller := by
  obtain ⟨order, hlayered, hnames⟩ := exists_layered hcalls hacyclic
  refine ⟨order.reverse.idxOf, fun caller callee hcallee => hlayered.idxOf_lt ?_ hcallee⟩
  obtain ⟨e, hfind, -⟩ := mem_callsOf_iff.mp hcallee
  exact hnames (find?_isSome_iff.mp (by simp [hfind]))

theorem Checked.exists_rank {t : Table} (ht : t.Checked) :
    ∃ rank : String → Nat, ∀ caller, ∀ callee ∈ t.callsOf caller, rank callee < rank caller :=
  Table.exists_rank (fun _ _ => ht.callee_mem_names) ht.acyclic

/-! ## Stacks of calls -/

/-- The names of nested calls, the innermost first, from an entry of the table. -/
inductive CallStack (t : Table) : List String → Prop where
  | entry {e : Entry} (he : e ∈ t.entries) : CallStack t [e.name]
  | call {caller callee : String} {outer : List String} (hstack : CallStack t (caller :: outer))
      (hcall : callee ∈ t.callsOf caller) : CallStack t (callee :: caller :: outer)

namespace CallStack

variable {t : Table} {stack : List String}

theorem subset_names (ht : t.Checked) (h : t.CallStack stack) : stack ⊆ t.names := by
  induction h with
  | entry he => simpa [names] using ⟨_, he, rfl⟩
  | call _ hcall ih => exact List.cons_subset.mpr ⟨ht.callee_mem_names hcall, ih⟩

/-- No name is on the stack twice: ranks descend towards the innermost call. -/
theorem nodup (ht : t.Checked) (h : t.CallStack stack) : stack.Nodup := by
  obtain ⟨rank, hrank⟩ := ht.exists_rank
  have hchain : (stack.map rank).IsChain (· < ·) := by
    induction h with
    | entry => simp
    | call _ hcall ih =>
      rw [List.map_cons, List.map_cons, List.isChain_cons_cons]
      exact ⟨hrank _ _ hcall, ih⟩
  exact (List.isChain_iff_pairwise.mp hchain).nodup.of_map

theorem length_le (ht : t.Checked) (h : t.CallStack stack) : stack.length ≤ t.entries.length :=
  path_length_le (h.nodup ht) (h.subset_names ht)

end CallStack

end Lowering.Table
