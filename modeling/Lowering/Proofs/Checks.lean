-- SUMMARY: What passing the checks gives: distinct names, resolved calls, sound steps and fitting roles.
import Mathlib.Data.List.Nodup
import Lowering.Library

/-!
# What the checks establish

The first fault of a table is found by five searches in a row. A table without a fault passes all of
them, and each search has a plain meaning for the entries, which the properties of expansion rest on.
-/

namespace Lowering.Table

/-! ## The searches -/

theorem repeatedFrom?_eq_none_iff {seen names : List String} :
    repeatedFrom? seen names = none ↔ names.Nodup ∧ ∀ name ∈ names, name ∉ seen := by
  induction names generalizing seen with
  | nil => simp [repeatedFrom?]
  | cons name names ih =>
    by_cases hseen : name ∈ seen
    · simp [repeatedFrom?, hseen]
    · simp only [repeatedFrom?, hseen, if_false, ih, List.nodup_cons, List.mem_cons, not_or,
        forall_eq_or_imp, not_false_eq_true, true_and]
      constructor
      · rintro ⟨hnodup, hfresh⟩
        exact ⟨⟨fun hmem => (hfresh name hmem).1 rfl, hnodup⟩, fun n hn => (hfresh n hn).2⟩
      · rintro ⟨⟨hname, hnodup⟩, hfresh⟩
        exact ⟨hnodup, fun n hn => ⟨fun heq => hname (heq ▸ hn), hfresh n hn⟩⟩

theorem duplicateFault?_eq_none_iff {t : Table} : t.duplicateFault? = none ↔ t.names.Nodup := by
  simp [duplicateFault?, repeatedFrom?_eq_none_iff]

theorem unresolvedFault?_eq_none_iff {t : Table} :
    t.unresolvedFault? = none ↔ ∀ e ∈ t.entries, ∀ callee ∈ e.calls, callee ∈ t.names := by
  simp [unresolvedFault?, unresolvedIn?]

theorem entryFault?_eq_none_iff {t : Table} {e : Entry} :
    t.entryFault? e = none ↔
      (∀ step ∈ steps e.body, t.stepFault? e.name step = none) ∧ t.impliedRole? e = some e.role := by
  simp [entryFault?, roleFault?]

/-- The meaning of the checks for the entries of a table. -/
structure Checked (t : Table) : Prop where
  distinct : t.names.Nodup
  resolved : ∀ e ∈ t.entries, ∀ callee ∈ e.calls, callee ∈ t.names
  acyclic : t.cycle? = none
  sound : ∀ e ∈ t.entries, ∀ step ∈ steps e.body, t.stepFault? e.name step = none
  fitting : ∀ e ∈ t.entries, t.impliedRole? e = some e.role
  external : ∃ e ∈ t.entries, e.visibility = .external

theorem fault?_eq_none_iff {t : Table} : t.fault? = none ↔ t.Checked := by
  have hentries : t.entries.findSome? t.entryFault? = none ↔
      ∀ e ∈ t.entries, (∀ step ∈ steps e.body, t.stepFault? e.name step = none) ∧
        t.impliedRole? e = some e.role := by
    simp only [List.findSome?_eq_none_iff, entryFault?_eq_none_iff]
  have hexternal : t.externalFault? = none ↔ ∃ e ∈ t.entries, e.visibility = .external := by
    simp [externalFault?]
  simp only [fault?, Option.or_eq_none_iff, duplicateFault?_eq_none_iff,
    unresolvedFault?_eq_none_iff, cycleFault?, Option.map_eq_none_iff, hentries, hexternal]
  constructor
  · rintro ⟨hdistinct, hresolved, hacyclic, hsteps, hext⟩
    exact ⟨hdistinct, hresolved, hacyclic, fun e he => (hsteps e he).1, fun e he => (hsteps e he).2,
      hext⟩
  · intro h
    exact ⟨h.distinct, h.resolved, h.acyclic, fun e he => ⟨h.sound e he, h.fitting e he⟩,
      h.external⟩

/-- A table that passes its checks is made into a library. -/
theorem Checked.build_eq {t : Table} (ht : t.Checked) :
    t.build = .ok (.ofTable t (fault?_eq_none_iff.mpr ht)) := by
  unfold build
  split
  · rfl
  · rename_i fault hfault
    cases hfault.symm.trans (fault?_eq_none_iff.mpr ht)

/-! ## Entries by name -/

theorem find?_eq_some_of_mem {t : Table} (hdistinct : t.names.Nodup) {e : Entry}
    (he : e ∈ t.entries) : t.find? e.name = some e := by
  have hsome : (t.find? e.name).isSome := by
    rw [find?, List.find?_isSome]
    exact ⟨e, he, by simp⟩
  obtain ⟨found, hfound⟩ := Option.isSome_iff_exists.mp hsome
  have heq : found = e :=
    List.inj_on_of_nodup_map hdistinct (find?_mem hfound) he (find?_name hfound)
  rw [hfound, heq]

theorem find?_isSome_iff {t : Table} {name : String} : (t.find? name).isSome ↔ name ∈ t.names := by
  rw [find?, List.find?_isSome]
  simp [names]

end Lowering.Table

namespace Lowering.Library

theorem table_checked (lib : Library) : lib.table.Checked :=
  Table.fault?_eq_none_iff.mp lib.checked

end Lowering.Library
