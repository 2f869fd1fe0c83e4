-- SUMMARY: The positions in the index of a library are those of entries with the spelling asked for.
import Mathlib.Data.List.Basic
import Lowering.Library

/-!
# Positions in the index

The index of a library is made from the names of its entries alone. Each spelling that it lists is the
name of the entry at the position listed with it, or the canonical form of that name, which then is no
name itself. The same holds of the positions among which an ambiguous spelling does not decide.
-/

namespace Lowering

/-! ## Groups of positions -/

namespace Index

/-- The position is in a group with the spelling. -/
def InGroup (groups : List (String × List Nat)) (spelling : String) (id : Nat) : Prop :=
  ∃ ids, (spelling, ids) ∈ groups ∧ id ∈ ids

theorem inGroup_cons {group : String × List Nat} {groups : List (String × List Nat)} {spelling : String}
    {id : Nat} :
    InGroup (group :: groups) spelling id ↔
      (spelling = group.1 ∧ id ∈ group.2) ∨ InGroup groups spelling id := by
  obtain ⟨first, members⟩ := group
  simp only [InGroup, List.mem_cons, Prod.mk.injEq]
  constructor
  · rintro ⟨ids, ⟨rfl, rfl⟩ | hmem, hid⟩
    · exact .inl ⟨rfl, hid⟩
    · exact .inr ⟨ids, hmem, hid⟩
  · rintro (⟨rfl, hid⟩ | ⟨ids, hmem, hid⟩)
    · exact ⟨members, .inl ⟨rfl, rfl⟩, hid⟩
    · exact ⟨ids, .inr hmem, hid⟩

/-- Adding a position puts it into the group of its spelling and changes nothing else. -/
theorem inGroup_addTo {groups : List (String × List Nat)} {added spelling : String} {new id : Nat} :
    InGroup (addTo added new groups) spelling id ↔
      (spelling = added ∧ id = new) ∨ InGroup groups spelling id := by
  induction groups with
  | nil => simp [addTo, InGroup]
  | cons group groups ih =>
    obtain ⟨first, members⟩ := group
    rw [addTo]
    split
    · rename_i hfirst
      subst hfirst
      simp only [inGroup_cons, List.mem_append, List.mem_singleton]
      constructor
      · rintro (⟨rfl, hid | rfl⟩ | hrest)
        · exact .inr (.inl ⟨rfl, hid⟩)
        · exact .inl ⟨rfl, rfl⟩
        · exact .inr (.inr hrest)
      · rintro (⟨rfl, rfl⟩ | ⟨rfl, hid⟩ | hrest)
        · exact .inl ⟨rfl, .inr rfl⟩
        · exact .inl ⟨rfl, .inl hid⟩
        · exact .inr hrest
    · rw [inGroup_cons, inGroup_cons, ih]
      exact or_left_comm

/-- The groups of some pairs hold these pairs and no others. -/
theorem inGroup_grouped {pairs : List (String × Nat)} {spelling : String} {id : Nat} :
    InGroup (grouped pairs) spelling id ↔ (spelling, id) ∈ pairs := by
  have hfold : ∀ groups,
      InGroup (pairs.foldl (fun groups pair => addTo pair.1 pair.2 groups) groups) spelling id ↔
        (spelling, id) ∈ pairs ∨ InGroup groups spelling id := by
    induction pairs with
    | nil => simp
    | cons pair pairs ih =>
      intro groups
      rw [List.foldl_cons, ih, inGroup_addTo, List.mem_cons, Prod.ext_iff]
      exact or_left_comm.trans or_assoc.symm
  refine (hfold []).trans ?_
  simp [InGroup]

/-! ## Spellings -/

/-- A spelling that is no name is grouped with the positions of which it is the canonical form. -/
theorem inGroup_folded {names : List String} {spelling : String} {id : Nat} :
    InGroup (folded names) spelling id ↔
      spelling ∉ names ∧ ∃ name, names[id]? = some name ∧ canonical name = spelling := by
  rw [folded, inGroup_grouped, List.mem_filterMap]
  constructor
  · rintro ⟨⟨name, i⟩, hmem, hpair⟩
    dsimp only at hpair
    split at hpair
    · cases hpair
    · rename_i hnot
      cases hpair
      exact ⟨by simpa using hnot, name, List.mk_mem_zipIdx_iff_getElem?.mp hmem, rfl⟩
  · rintro ⟨hnot, name, hname, rfl⟩
    exact ⟨(name, id), List.mk_mem_zipIdx_iff_getElem?.mpr hname, by simp [hnot]⟩

theorem mem_of_lookup {pairs : List (String × Nat)} {spelling : String} {id : Nat}
    (h : pairs.lookup spelling = some id) : (spelling, id) ∈ pairs := by
  obtain ⟨before, after, rfl, -⟩ := List.lookup_eq_some_iff.mp h
  exact List.mem_append_right _ List.mem_cons_self

/-- A spelling that the index knows is a name at its position, or the canonical form of one. -/
theorem find?_ofNames {names : List String} {spelling : String} {id : Nat}
    (h : (ofNames names).find? spelling = some id) :
    ∃ name, names[id]? = some name ∧
      (name = spelling ∨ spelling ∉ names ∧ canonical name = spelling) := by
  rcases List.mem_append.mp (mem_of_lookup h) with hexact | hfolded
  · exact ⟨spelling, List.mk_mem_zipIdx_iff_getElem?.mp hexact, .inl rfl⟩
  · obtain ⟨group, hgroup, hsingle⟩ := List.mem_filterMap.mp hfolded
    obtain ⟨first, members⟩ := group
    have hin : InGroup (folded names) spelling id := by
      unfold single? at hsingle
      split at hsingle
      · rename_i heq
        cases heq
        cases hsingle
        exact ⟨_, hgroup, List.mem_cons_self⟩
      · cases hsingle
    obtain ⟨hnot, name, hname, hcanonical⟩ := inGroup_folded.mp hin
    exact ⟨name, hname, .inr ⟨hnot, hcanonical⟩⟩

/-- The positions among which a mnemonic does not decide have its canonical form. -/
theorem candidates_ofNames {names : List String} {mnemonic : String} {id : Nat}
    (h : id ∈ (ofNames names).candidates mnemonic) :
    ∃ name, names[id]? = some name ∧ canonical name = canonical mnemonic := by
  unfold candidates at h
  cases hlookup : (ofNames names).ambiguous.lookup (canonical mnemonic) with
  | none => simp [hlookup] at h
  | some ids =>
    rw [hlookup, Option.getD_some] at h
    obtain ⟨before, after, hsplit, -⟩ := List.lookup_eq_some_iff.mp hlookup
    have hmem : (canonical mnemonic, ids) ∈ (ofNames names).ambiguous := by
      rw [hsplit]
      exact List.mem_append_right _ List.mem_cons_self
    obtain ⟨-, name, hname, hcanonical⟩ :=
      inGroup_folded.mp ⟨ids, (List.mem_filter.mp hmem).1, h⟩
    exact ⟨name, hname, hcanonical⟩

end Index

/-! ## Entries -/

namespace Table

/-- At the position there is an entry whose name is the spelling or, if no entry has that name, has the
spelling as its canonical form. -/
def Spells (t : Table) (spelling : String) (id : Nat) : Prop :=
  ∃ e, t.entries[id]? = some e ∧
    (e.name = spelling ∨ spelling ∉ t.names ∧ canonical e.name = spelling)

theorem getElem?_names {t : Table} {id : Nat} {name : String} :
    t.names[id]? = some name ↔ ∃ e, t.entries[id]? = some e ∧ e.name = name := by
  rw [names, List.getElem?_map, Option.map_eq_some_iff]

end Table

namespace Library

variable {lib : Library} {mnemonic : String} {id : Nat}

theorem spells_of_find? {spelling : String} (h : lib.index.find? spelling = some id) :
    lib.table.Spells spelling id := by
  rw [lib.indexed] at h
  obtain ⟨name, hname, hspelling⟩ := Index.find?_ofNames h
  obtain ⟨e, he, rfl⟩ := Table.getElem?_names.mp hname
  exact ⟨e, he, hspelling⟩

/-- A mnemonic selects the position of an entry that it spells, as it stands or in canonical form. -/
theorem spells_of_select? (h : lib.index.select? mnemonic = some id) :
    lib.table.Spells mnemonic id ∨ lib.table.Spells (canonical mnemonic) id := by
  rw [Index.select?, Option.or_eq_some_iff] at h
  rcases h with hexact | ⟨-, hcanonical⟩
  · exact .inl (spells_of_find? hexact)
  · exact .inr (spells_of_find? hcanonical)

theorem candidate_eq (h : id ∈ lib.index.candidates mnemonic) :
    ∃ e, lib.table.entries[id]? = some e ∧ canonical e.name = canonical mnemonic := by
  rw [lib.indexed] at h
  obtain ⟨name, hname, hcanonical⟩ := Index.candidates_ofNames h
  obtain ⟨e, he, rfl⟩ := Table.getElem?_names.mp hname
  exact ⟨e, he, hcanonical⟩

end Library

end Lowering
