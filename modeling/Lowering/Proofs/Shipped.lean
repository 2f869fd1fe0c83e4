-- SUMMARY: The tables of the catalog pass their checks, so they are libraries.
import Lowering.Registry
import Lowering.Proofs.TableCheck

/-!
# The libraries of the catalog

Each table of the catalog lists its entries after those that they call, so the evaluable check applies
to it. The tables are thus libraries without further conditions.
-/

namespace Lowering

theorem Table.Ordered.fault?_eq_none {t : Table} (ht : t.Ordered) : t.fault? = none :=
  Table.fault?_eq_none_iff.mpr ht.checked

/-- The library of an ordered table. -/
def Table.toLibrary (t : Table) (ht : t.Ordered) : Library := .ofTable t ht.fault?_eq_none

theorem Table.build_eq_toLibrary {t : Table} (ht : t.Ordered) : t.build = .ok (t.toLibrary ht) :=
  ht.checked.build_eq

namespace Catalog

theorem wasi_ordered : wasi.Ordered := Table.ordered_of_passes (by decide +kernel)

theorem wasmTable_entries (name : String) (further : List Entry) :
    (wasmTable name further).entries = wasmEntries ++ further := rfl

theorem controlEntries_subset : controlEntries ⊆ wasm32.entries := by
  intro e he
  simp only [wasm32, wasmTable_entries, wasmEntries, List.mem_append]
  tauto

theorem wasm32_ordered : wasm32.Ordered := by
  have hentries : wasi.entries = wasm32.entries ++ wasi.entries.drop wasmEntries.length := by
    rw [wasm32, wasi, wasmTable_entries, wasmTable_entries, List.drop_left, List.append_nil]
  have hexternal : wasm32.entries.any (fun e => decide (e.visibility = .external)) = true := by
    decide +kernel
  exact wasi_ordered.initial rfl rfl hentries (by simpa using hexternal)

theorem textifier_ordered : textifier.Ordered := Table.ordered_of_passes (by decide +kernel)

theorem extension_ordered : extension.Ordered := Table.ordered_of_passes (by decide +kernel)

def wasm32Library : Library := wasm32.toLibrary wasm32_ordered

def wasiLibrary : Library := wasi.toLibrary wasi_ordered

def textifierLibrary : Library := textifier.toLibrary textifier_ordered

def extensionLibrary : Library := extension.toLibrary extension_ordered

/-- The libraries of the catalog. -/
def libraries : List Library := [wasm32Library, wasiLibrary, textifierLibrary, extensionLibrary]

/-- What is true of each table of the catalog is true of the table of each library. -/
theorem table_of_mem_libraries {P : Table → Prop} (hwasm32 : P wasm32) (hwasi : P wasi)
    (htextifier : P textifier) (hextension : P extension) {lib : Library} (hlib : lib ∈ libraries) :
    P lib.table := by
  simp only [libraries, List.mem_cons, List.not_mem_nil, or_false] at hlib
  rcases hlib with rfl | rfl | rfl | rfl
  · exact hwasm32
  · exact hwasi
  · exact htextifier
  · exact hextension

/-- They are what becomes of the tables that the registry has from the start. -/
theorem build_shipped :
    Registry.shipped.slots.map (fun slot => slot.registration.table.build) = libraries.map .ok := by
  calc Registry.shipped.slots.map (fun slot => slot.registration.table.build)
    _ = [wasm32.build, wasi.build, textifier.build, extension.build] := rfl
    _ = libraries.map .ok := by
      rw [Table.build_eq_toLibrary wasm32_ordered, Table.build_eq_toLibrary wasi_ordered,
        Table.build_eq_toLibrary textifier_ordered, Table.build_eq_toLibrary extension_ordered]
      rfl

end Catalog

end Lowering
