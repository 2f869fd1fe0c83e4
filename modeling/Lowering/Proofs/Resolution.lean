-- SUMMARY: A mnemonic selects an entry by its name, by its canonical form, or as the only one of that form.
import Lowering.Jvm.InstructionSet
import Lowering.Proofs.Checks
import Lowering.Proofs.Index

/-!
# Resolution of mnemonics

The index of a library mixes the names of the entries with the canonical forms that are no names. Still a
mnemonic selects what it should: the entry with that name, else the entry with its canonical form as the
name, else the only entry that has the same canonical form.
-/

namespace Lowering

/-! ## Entries -/

/-- The mnemonic means the entry: by its name, else by its canonical form as the name, else because no
other entry has the same canonical form. -/
inductive Table.Selects (t : Table) (mnemonic : String) (e : Entry) : Prop
  | exact (he : e ∈ t.entries) (hname : e.name = mnemonic)
  | canonical (hexact : mnemonic ∉ t.names) (he : e ∈ t.entries)
      (hname : e.name = Lowering.canonical mnemonic)
  | only (hexact : mnemonic ∉ t.names) (hcanonical : Lowering.canonical mnemonic ∉ t.names)
      (he : e ∈ t.entries) (hform : Lowering.canonical e.name = Lowering.canonical mnemonic)
      (honly : ∀ e' ∈ t.entries, Lowering.canonical e'.name = Lowering.canonical mnemonic → e' = e)

theorem Table.name_mem {t : Table} {e : Entry} (he : e ∈ t.entries) : e.name ∈ t.names :=
  List.mem_map_of_mem he

/-- The lookup of a mnemonic in a table by any index of it. -/
def Table.lookupIn (t : Table) (index : Index) (mnemonic : String) : Except Failure (Nat × Entry) :=
  match index.select? mnemonic with
  | none =>
    match index.candidates mnemonic with
    | [] => .error ⟨.unknown t.name, some mnemonic⟩
    | ids => .error ⟨.ambiguous t.name (ids.filterMap fun id => t.entries[id]?.map Entry.name),
        some mnemonic⟩
  | some id =>
    match t.entries[id]? with
    | none => .error ⟨.unknown t.name, some mnemonic⟩
    | some e =>
      match e.visibility with
      | .external => .ok (id, e)
      | .auxiliary => .error ⟨.auxiliary, some mnemonic⟩

namespace Library

variable (lib : Library) {mnemonic : String} {id : Nat} {e : Entry}

theorem find?_of_name (he : lib.entries[id]? = some e) : lib.index.find? e.name = some id := by
  rw [lib.indexed]
  exact Index.find?_of_name lib.table_checked.distinct (Table.getElem?_names.mpr ⟨e, he, rfl⟩)

theorem select?_of_name (he : lib.entries[id]? = some e) : lib.index.select? e.name = some id := by
  rw [Index.select?, lib.find?_of_name he]
  rfl

/-- An entry stands at one position. -/
theorem position_unique {id' : Nat} (he : lib.entries[id]? = some e)
    (he' : lib.entries[id']? = some e) : id = id' :=
  Option.some.inj ((lib.find?_of_name he).symm.trans (lib.find?_of_name he'))

/-- The index finds a name at the position of the entry with that name. -/
theorem find?_eq_some_iff_name {name : String} (hname : name ∈ lib.table.names) :
    lib.index.find? name = some id ↔ ∃ e, lib.entries[id]? = some e ∧ e.name = name := by
  obtain ⟨i, hi⟩ := List.mem_iff_getElem?.mp hname
  obtain ⟨e, he, rfl⟩ := Table.getElem?_names.mp hi
  rw [lib.find?_of_name he, Option.some.injEq]
  constructor
  · rintro rfl
    exact ⟨e, he, rfl⟩
  · rintro ⟨e', he', hname'⟩
    exact Option.some.inj ((lib.find?_of_name he).symm.trans (hname' ▸ lib.find?_of_name he'))

/-- A form that is no name is the form of one entry only just if the index finds it. -/
theorem find?_eq_some_iff_only {form : String} (hform : form ∉ lib.table.names) :
    lib.index.find? form = some id ↔
      ∃ e, lib.entries[id]? = some e ∧ canonical e.name = form ∧
        ∀ e' ∈ lib.entries, canonical e'.name = form → e' = e := by
  have hmem : ∀ id, id ∈ Index.positions lib.table.names form ↔
      ∃ e, lib.entries[id]? = some e ∧ canonical e.name = form := by
    intro id
    rw [Index.mem_positions]
    constructor
    · rintro ⟨name, hname, hcanonical⟩
      obtain ⟨e, he, rfl⟩ := Table.getElem?_names.mp hname
      exact ⟨e, he, hcanonical⟩
    · rintro ⟨e, he, hcanonical⟩
      exact ⟨e.name, Table.getElem?_names.mpr ⟨e, he, rfl⟩, hcanonical⟩
  rw [lib.indexed, Index.find?_of_not_mem hform, Index.only?_eq_some_iff]
  constructor
  · intro hpositions
    obtain ⟨e, he, hcanonical⟩ := (hmem id).mp (hpositions ▸ List.mem_cons_self)
    refine ⟨e, he, hcanonical, fun e' hmem' hcanonical' => ?_⟩
    obtain ⟨id', he'⟩ := List.mem_iff_getElem?.mp hmem'
    have hid : id' = id := by
      simpa [hpositions] using (hmem id').mpr ⟨e', he', hcanonical'⟩
    exact Option.some.inj (he'.symm.trans (hid ▸ he))
  · rintro ⟨e, he, hcanonical, honly⟩
    refine List.perm_singleton.mp ((List.perm_ext_iff_of_nodup (Index.positions_nodup _ _)
      (List.nodup_singleton id)).mpr fun id' => ?_)
    rw [hmem, List.mem_singleton]
    constructor
    · rintro ⟨e', he', hcanonical'⟩
      have hsame := honly e' (List.mem_of_getElem? he') hcanonical'
      exact lib.position_unique he' (hsame ▸ he)
    · rintro rfl
      exact ⟨e, he, hcanonical⟩

/-- The index selects the position of the entry that the mnemonic means. -/
theorem select?_eq_some_iff :
    lib.index.select? mnemonic = some id ↔
      ∃ e, lib.entries[id]? = some e ∧ lib.table.Selects mnemonic e := by
  -- One case for each way to mean an entry: it excludes the ways before it and is excluded by them.
  by_cases hexact : mnemonic ∈ lib.table.names
  · have hselect : lib.index.select? mnemonic = lib.index.find? mnemonic := by
      obtain ⟨i, hi⟩ := List.mem_iff_getElem?.mp hexact
      obtain ⟨e, he, rfl⟩ := Table.getElem?_names.mp hi
      rw [lib.select?_of_name he, lib.find?_of_name he]
    rw [hselect, lib.find?_eq_some_iff_name hexact]
    refine exists_congr fun e => and_congr_right fun he => ?_
    constructor
    · exact .exact (List.mem_of_getElem? he)
    · intro hselects
      cases hselects with
      | exact _ hname => exact hname
      | canonical hnot => exact absurd hexact hnot
      | only hnot => exact absurd hexact hnot
  have hselect : lib.index.select? mnemonic = lib.index.find? (canonical mnemonic) := by
    rw [lib.indexed, Index.select?_of_not_mem hexact]
  rw [hselect]
  by_cases hcanonical : canonical mnemonic ∈ lib.table.names
  · rw [lib.find?_eq_some_iff_name hcanonical]
    refine exists_congr fun e => and_congr_right fun he => ?_
    constructor
    · exact .canonical hexact (List.mem_of_getElem? he)
    · intro hselects
      cases hselects with
      | exact hmem hname => exact absurd (hname ▸ Table.name_mem hmem) hexact
      | canonical _ _ hname => exact hname
      | only _ hnot => exact absurd hcanonical hnot
  · rw [lib.find?_eq_some_iff_only hcanonical]
    refine exists_congr fun e => and_congr_right fun he => ?_
    constructor
    · rintro ⟨hform, honly⟩
      exact .only hexact hcanonical (List.mem_of_getElem? he) hform honly
    · intro hselects
      cases hselects with
      | exact hmem hname => exact absurd (hname ▸ Table.name_mem hmem) hexact
      | canonical _ hmem hname => exact absurd (hname ▸ Table.name_mem hmem) hcanonical
      | only _ _ _ hform honly => exact ⟨hform, honly⟩

/-! ## Lookup -/

/-- The result of a lookup that selects the entry at a position. -/
theorem lookup_of_select? (hid : lib.index.select? mnemonic = some id)
    (he : lib.entries[id]? = some e) :
    lib.lookup mnemonic =
      if e.visibility = .external then .ok (id, e) else .error ⟨.auxiliary, some mnemonic⟩ := by
  cases hvisibility : e.visibility <;> simp [lookup, hid, he, hvisibility]

/-- An external entry is selected by its name. -/
theorem lookup_name {e : Entry} (he : e ∈ lib.table.entries) (hexternal : e.visibility = .external) :
    ∃ id, lib.lookup e.name = .ok (id, e) := by
  obtain ⟨id, hid⟩ := List.mem_iff_getElem?.mp he
  exact ⟨id, by rw [lib.lookup_of_select? (lib.select?_of_name hid) hid, if_pos hexternal]⟩

/-- A mnemonic that means no entry is unknown, or stands for several entries. -/
theorem lookup_of_not_selects (hnone : ∀ e, ¬lib.table.Selects mnemonic e) :
    lib.lookup mnemonic = .error ⟨lib.unselected mnemonic, some mnemonic⟩ := by
  cases hid : lib.index.select? mnemonic with
  | none => rw [lookup, hid]
  | some id =>
    obtain ⟨e, -, hselects⟩ := lib.select?_eq_some_iff.mp hid
    exact absurd hselects (hnone e)

theorem unselected_kind (mnemonic : String) :
    (lib.unselected mnemonic).kind = .unknownMnemonic := by
  unfold unselected
  split <;> rfl

/-- Lookup in a library is lookup by its index, and it sees no more of the index than what a mnemonic
selects and the candidates. -/
theorem lookup_eq_lookupIn {index : Index}
    (hselect : index.select? mnemonic = lib.index.select? mnemonic)
    (hcandidates : index.candidates mnemonic = lib.index.candidates mnemonic) :
    lib.table.lookupIn index mnemonic = lib.lookup mnemonic := by
  rw [Table.lookupIn, hselect, hcandidates, lookup, unselected]
  cases lib.index.select? mnemonic with
  | none => cases lib.index.candidates mnemonic <;> rfl
  | some id => rfl

/-- A lookup gives the entry that the mnemonic means, by its name before its canonical form and by that
before the form of one entry only. It gives no entry that is auxiliary, and the order in which the
canonical forms are added to the index makes no difference. -/
theorem lookup_resolves (lib : Library) (mnemonic : String) :
    (∀ e, lib.table.Selects mnemonic e →
      (∀ e', lib.table.Selects mnemonic e' → e' = e) ∧
      ∃ id, lib.entries[id]? = some e ∧
        (e.visibility = .external → lib.lookup mnemonic = .ok (id, e)) ∧
        (e.visibility = .auxiliary →
          ∃ failure, lib.lookup mnemonic = .error failure ∧ failure.kind = .notInvocable)) ∧
    ((∀ e, ¬lib.table.Selects mnemonic e) →
      ∃ failure, lib.lookup mnemonic = .error failure ∧ failure.kind = .unknownMnemonic) ∧
    (∀ id e, lib.lookup mnemonic = .ok (id, e) →
      lib.entries[id]? = some e ∧ lib.table.Selects mnemonic e ∧ e.visibility = .external) ∧
    ∀ groups, groups.Perm (Index.folded lib.table.names) →
      lib.table.lookupIn (Index.visiting lib.table.names groups) mnemonic = lib.lookup mnemonic := by
  have hselected : ∀ e, lib.table.Selects mnemonic e →
      ∃ id, lib.entries[id]? = some e ∧ lib.index.select? mnemonic = some id := by
    intro e hselects
    have hmem : e ∈ lib.entries := by cases hselects <;> assumption
    obtain ⟨id, he⟩ := List.mem_iff_getElem?.mp hmem
    exact ⟨id, he, lib.select?_eq_some_iff.mpr ⟨e, he, hselects⟩⟩
  refine ⟨fun e hselects => ?_, fun hnone => ?_, fun id e hlookup => ?_, fun groups hgroups => ?_⟩
  · obtain ⟨id, he, hid⟩ := hselected e hselects
    have hlookup := lib.lookup_of_select? hid he
    refine ⟨fun e' hselects' => ?_, id, he, fun hexternal => ?_, fun hauxiliary => ?_⟩
    · obtain ⟨id', he', hid'⟩ := hselected e' hselects'
      cases hid.symm.trans hid'
      exact Option.some.inj (he'.symm.trans he)
    · rw [hlookup, if_pos hexternal]
    · exact ⟨_, by rw [hlookup, hauxiliary, if_neg (by decide)], rfl⟩
  · exact ⟨_, lib.lookup_of_not_selects hnone, lib.unselected_kind mnemonic⟩
  · by_cases hnone : ∀ e, ¬lib.table.Selects mnemonic e
    · rw [lib.lookup_of_not_selects hnone] at hlookup
      cases hlookup
    · obtain ⟨e', hselects⟩ := not_forall_not.mp hnone
      obtain ⟨id', he', hid'⟩ := hselected e' hselects
      rw [lib.lookup_of_select? hid' he'] at hlookup
      split at hlookup
      · rename_i hexternal
        cases hlookup
        exact ⟨he', hselects, hexternal⟩
      · cases hlookup
  · refine lib.lookup_eq_lookupIn ?_ ?_
    · rw [Index.select?_visiting lib.table_checked.distinct hgroups, ← lib.indexed]
    · rw [Index.candidates_visiting hgroups, ← lib.indexed]

end Library

/-- A library with entries that share a canonical form, with and without that form as a name. -/
def sharedForms : Library :=
  .ofTable
    { name := "shared"
      isa := jvm
      entries :=
        [{ name := "add", body := [.emit "iadd"] },
         { name := "ADD", body := [.emit "ladd"] },
         { name := "sub.x", body := [.emit "isub"] },
         { name := "sub_x", body := [.emit "lsub"] },
         { name := "mul", visibility := .auxiliary, body := [.emit "imul"] }] }
    (by decide +kernel)

theorem sharedForms_lookup_resolves :
    (∃ id e, sharedForms.entries[id]? = some e ∧ e.name = "ADD" ∧
      sharedForms.table.Selects "Add" e ∧ sharedForms.lookup "Add" = .ok (id, e)) ∧
    (∃ e, e.name = "mul" ∧ sharedForms.table.Selects "Mul" e ∧
      ∃ failure, sharedForms.lookup "Mul" = .error failure ∧ failure.kind = .notInvocable) ∧
    (∃ failure, sharedForms.lookup "SUB_X" = .error failure ∧ failure.kind = .unknownMnemonic) ∧
    (Index.folded sharedForms.table.names).length = 2 ∧
    sharedForms.table.lookupIn
      (Index.visiting sharedForms.table.names (Index.folded sharedForms.table.names).reverse) "SUB_X" =
        sharedForms.lookup "SUB_X" := by
  refine ⟨?_, ?_, ?_, by decide +kernel, ?_⟩
  · have hselects : sharedForms.table.Selects "Add" { name := "ADD", body := [.emit "ladd"] } :=
      .canonical (by decide +kernel) (List.mem_of_getElem? (i := 1) rfl) (by decide +kernel)
    obtain ⟨-, id, hid, hexternal, -⟩ := (Library.lookup_resolves sharedForms "Add").1 _ hselects
    exact ⟨id, _, hid, rfl, hselects, hexternal rfl⟩
  · have hmem : { name := "mul", visibility := .auxiliary, body := [.emit "imul"] } ∈
        sharedForms.table.entries := List.mem_of_getElem? (i := 4) rfl
    have hform : ∀ e ∈ sharedForms.table.entries, canonical e.name = canonical "Mul" →
        e.name = "mul" := by
      decide +kernel
    have hselects : sharedForms.table.Selects "Mul" _ :=
      .only (by decide +kernel) (by decide +kernel) hmem (by decide +kernel) fun e he hcanonical =>
        List.inj_on_of_nodup_map sharedForms.table_checked.distinct he hmem (hform e he hcanonical)
    obtain ⟨-, id, hid, -, hauxiliary⟩ := (Library.lookup_resolves sharedForms "Mul").1 _ hselects
    exact ⟨_, rfl, hselects, hauxiliary rfl⟩
  · refine (Library.lookup_resolves sharedForms "SUB_X").2.1 fun e hselects => ?_
    cases hselects with
    | exact he hname => exact absurd (hname ▸ Table.name_mem he) (by decide +kernel)
    | canonical _ he hname => exact absurd (hname ▸ Table.name_mem he) (by decide +kernel)
    | only _ _ _ _ honly =>
      have hpoint := honly { name := "sub.x", body := [.emit "isub"] }
        (List.mem_of_getElem? (i := 2) rfl) (by decide +kernel)
      have hline := honly { name := "sub_x", body := [.emit "lsub"] }
        (List.mem_of_getElem? (i := 3) rfl) (by decide +kernel)
      exact absurd (congrArg Entry.name (hpoint.trans hline.symm)) (by decide)
  · exact (Library.lookup_resolves sharedForms "SUB_X").2.2.2 _ (List.reverse_perm _)

end Lowering
