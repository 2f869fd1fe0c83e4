-- SUMMARY: The listing of mnemonics names each external entry once, in the order of the bytes.
import Lowering.Proofs.DescriptorBytes
import Lowering.Proofs.Resolution
import Lowering.Proofs.Runs

/-!
# Listed mnemonics

An entry is listed in canonical form if that form selects it, and under its name otherwise. Either way the
listed spelling selects the entry, so different entries are listed apart, and leaving out repeats from the
sorted listing leaves out nothing. The listing is sorted by code points, which is also the order of the
bytes.
-/

namespace Lowering

/-! ## The order of bytes -/

namespace Utf8

/-- The front of a number from which six bits were split off `n` times. -/
def leading : Nat → Nat → Nat
  | 0, v => v
  | n + 1, v => leading n (v / 64)

/-- A first byte, which holds the front of the number and a mark, then `n` bytes of six bits each, then
what follows. -/
def spread (mark : Nat) : Nat → Nat → List UInt8 → List UInt8
  | 0, v, rest => UInt8.ofNat (mark + v) :: rest
  | n + 1, v, rest => spread mark n (v / 64) (UInt8.ofNat (v % 64 + 128) :: rest)

/-- The mark of the first byte of a character, and the number of bytes that follow it. -/
def shape (v : Nat) : Nat × Nat :=
  if v ≤ 127 then (0, 0) else if v ≤ 2047 then (192, 1) else if v ≤ 65535 then (224, 2) else (240, 3)

theorem shape_cases (v : Nat) :
    v ≤ 127 ∧ shape v = (0, 0) ∨ (127 < v ∧ v ≤ 2047) ∧ shape v = (192, 1) ∨
      (2047 < v ∧ v ≤ 65535) ∧ shape v = (224, 2) ∨ 65535 < v ∧ shape v = (240, 3) := by
  unfold shape
  grind

theorem encode_append (c : Char) (rest : List UInt8) :
    String.utf8EncodeChar c ++ rest =
      spread (shape c.val.toNat).1 (shape c.val.toNat).2 c.val.toNat rest := by
  have hmax : c.val.toNat < 0xd800 ∨ 0xdfff < c.val.toNat ∧ c.val.toNat < 0x110000 := c.valid
  have hencode : String.utf8EncodeChar c =
      let v := c.val.toNat
      if v ≤ 127 then [.ofNat v]
      else if v ≤ 2047 then [.ofNat (v / 64 % 32 + 192), .ofNat (v % 64 + 128)]
      else if v ≤ 65535 then
        [.ofNat (v / 4096 % 16 + 224), .ofNat (v / 64 % 64 + 128), .ofNat (v % 64 + 128)]
      else
        [.ofNat (v / 262144 % 8 + 240), .ofNat (v / 4096 % 64 + 128), .ofNat (v / 64 % 64 + 128),
          .ofNat (v % 64 + 128)] := rfl
  rw [hencode]
  generalize c.val.toNat = v at hmax
  rcases shape_cases v with ⟨hv, hshape⟩ | ⟨hv, hshape⟩ | ⟨hv, hshape⟩ | ⟨hv, hshape⟩
  · simp [hshape, spread, hv]
  · have hfirst : v / 64 % 32 + 192 = 192 + v / 64 := by omega
    rw [hshape]
    simp only
    rw [if_neg (by omega), if_pos hv.2, hfirst]
    rfl
  · have hfirst : v / 4096 % 16 + 224 = 224 + v / 4096 := by omega
    rw [hshape]
    simp only
    rw [if_neg (by omega), if_neg (by omega), if_pos hv.2, hfirst]
    simp [spread, Nat.div_div_eq_div_mul]
  · have hfirst : v / 262144 % 8 + 240 = 240 + v / 262144 := by omega
    rw [hshape]
    simp only
    rw [if_neg (by omega), if_neg (by omega), if_neg (by omega), hfirst]
    simp [spread, Nat.div_div_eq_div_mul]

theorem ofNat_lt_ofNat {a b : Nat} (h : a < b) (hb : b ≤ 255) : UInt8.ofNat a < UInt8.ofNat b := by
  rw [UInt8.lt_iff_toNat_lt, UInt8.toNat_ofNat', UInt8.toNat_ofNat']
  omega

theorem spread_head (mark n v : Nat) (rest : List UInt8) :
    ∃ rest', spread mark n v rest = UInt8.ofNat (mark + leading n v) :: rest' := by
  induction n generalizing v rest with
  | zero => exact ⟨rest, rfl⟩
  | succ n ih => exact ih (v / 64) _

theorem spread_lt_of_rest (mark n v : Nat) {rest rest' : List UInt8} (h : rest < rest') :
    spread mark n v rest < spread mark n v rest' := by
  induction n generalizing v rest rest' with
  | zero => exact List.cons_lt_cons_iff.mpr (.inr ⟨rfl, h⟩)
  | succ n ih => exact ih (v / 64) (List.cons_lt_cons_iff.mpr (.inr ⟨rfl, h⟩))

/-- A smaller number comes first, whatever follows: either its front is smaller, or the fronts agree and the
six bits that were split off last decide. -/
theorem spread_lt {mark n v w : Nat} (h : v < w) (hw : mark + leading n w ≤ 255)
    (rest rest' : List UInt8) : spread mark n v rest < spread mark n w rest' := by
  induction n generalizing v w rest rest' with
  | zero => exact List.cons_lt_cons_iff.mpr (.inl (ofNat_lt_ofNat (Nat.add_lt_add_left h mark) hw))
  | succ n ih =>
    rcases Nat.lt_or_ge (v / 64) (w / 64) with hfront | hfront
    · exact ih hfront hw _ _
    · have hsame : v / 64 = w / 64 := by omega
      have hbits : v % 64 + 128 < w % 64 + 128 := by omega
      rw [spread, spread, hsame]
      exact spread_lt_of_rest mark n _ (List.cons_lt_cons_iff.mpr (.inl (ofNat_lt_ofNat hbits (by omega))))

theorem first_le {v : Nat} (hv : v < 0x110000) : (shape v).1 + leading (shape v).2 v ≤ 255 := by
  rcases shape_cases v with ⟨hv, hshape⟩ | ⟨hv, hshape⟩ | ⟨hv, hshape⟩ | ⟨hv, hshape⟩ <;>
    (rw [hshape]; simp only [leading]; omega)

/-- Characters with more bytes have greater first bytes. -/
theorem first_lt {v w : Nat} (h : v < w) (hw : w < 0x110000) (hdiffer : shape v ≠ shape w) :
    (shape v).1 + leading (shape v).2 v < (shape w).1 + leading (shape w).2 w := by
  rcases shape_cases v with ⟨hv, hshape⟩ | ⟨hv, hshape⟩ | ⟨hv, hshape⟩ | ⟨hv, hshape⟩ <;>
    rcases shape_cases w with ⟨hw', hshape'⟩ | ⟨hw', hshape'⟩ | ⟨hw', hshape'⟩ | ⟨hw', hshape'⟩ <;>
      (simp only [hshape, hshape', leading, ne_eq, not_true_eq_false] at hdiffer ⊢) <;> omega

theorem encode_lt {c d : Char} (h : c < d) (rest rest' : List UInt8) :
    String.utf8EncodeChar c ++ rest < String.utf8EncodeChar d ++ rest' := by
  have hlt : c.val.toNat < d.val.toNat := h
  have hmax : d.val.toNat < 0xd800 ∨ 0xdfff < d.val.toNat ∧ d.val.toNat < 0x110000 := d.valid
  have hfirst := @first_le d.val.toNat (by omega)
  rw [encode_append, encode_append]
  by_cases hshape : shape c.val.toNat = shape d.val.toNat
  · rw [hshape]
    exact spread_lt hlt hfirst rest rest'
  · obtain ⟨tail, htail⟩ := spread_head (shape c.val.toNat).1 (shape c.val.toNat).2 c.val.toNat rest
    obtain ⟨tail', htail'⟩ := spread_head (shape d.val.toNat).1 (shape d.val.toNat).2 d.val.toNat rest'
    rw [htail, htail']
    exact List.cons_lt_cons_iff.mpr (.inl (ofNat_lt_ofNat (first_lt hlt (by omega) hshape) hfirst))

/-- A text that comes first by its code points comes first by its bytes. -/
theorem bytes_lt {a b : List Char} (h : a < b) : bytes a < bytes b := by
  induction a generalizing b with
  | nil =>
    cases b with
    | nil => exact absurd h (List.not_lt_nil _)
    | cons d b =>
      obtain ⟨first, rest, hencode⟩ := List.exists_cons_of_ne_nil (@String.utf8EncodeChar_ne_nil d)
      rw [bytes_cons, hencode]
      exact List.nil_lt_cons first _
  | cons c a ih =>
    cases b with
    | nil => exact absurd h (List.not_lt_nil _)
    | cons d b =>
      rw [bytes_cons, bytes_cons]
      rcases List.cons_lt_cons_iff.mp h with hlt | ⟨rfl, hlt⟩
      · exact encode_lt hlt _ _
      · exact List.append_left_lt (ih hlt)

end Utf8

namespace Library

/-! ## Sorting -/

theorem sorted_perm (texts : List String) : (sorted texts).Perm texts := List.mergeSort_perm _ _

/-- Different texts are sorted in strict order. -/
theorem sorted_increasing {texts : List String} (h : texts.Nodup) : (sorted texts).Pairwise (· < ·) := by
  have hle : (sorted texts).Pairwise fun a b => decide (a ≤ b) = true := by
    refine List.pairwise_mergeSort (fun a b c hab hbc => ?_) (fun a b => ?_) texts
    · rw [decide_eq_true_eq] at hab hbc ⊢
      exact String.le_trans hab hbc
    · rw [Bool.or_eq_true, decide_eq_true_eq, decide_eq_true_eq]
      exact String.le_total a b
  have hne : (sorted texts).Nodup := (sorted_perm texts).nodup_iff.mpr h
  refine hle.imp₂ (fun a b hab hdiffer => ?_) hne
  rw [decide_eq_true_eq] at hab
  exact String.not_le.mp fun hba => hdiffer (String.le_antisymm hab hba)

theorem withoutRepeats_eq_self {texts : List String} (h : texts.Nodup) : withoutRepeats texts = texts := by
  fun_induction withoutRepeats texts with
  | case1 b rest ih => exact absurd List.mem_cons_self (List.nodup_cons.mp h).1
  | case2 a b rest hne ih => rw [ih (List.nodup_cons.mp h).2]
  | case3 texts => rfl

/-! ## Listed names -/

/-- The entries that can be invoked. -/
def externals (lib : Library) : List Entry := lib.entries.filter (·.visibility = .external)

variable {lib : Library} {id : Nat} {e : Entry}

theorem mem_externals : e ∈ lib.externals ↔ e ∈ lib.entries ∧ e.visibility = .external := by
  rw [externals, List.mem_filter, decide_eq_true_eq]

/-- The listed spelling of an entry selects it. -/
theorem lookup_listedName (he : lib.entries[id]? = some e) (hexternal : e.visibility = .external) :
    lib.lookup (lib.listedName e.name) = .ok (id, e) := by
  have hname : lib.lookup e.name = .ok (id, e) := by
    rw [lib.lookup_of_select? (lib.select?_of_name he) he, if_pos hexternal]
  unfold listedName
  split
  · rename_i position e' position' e'' hform hexact
    split
    · rename_i hsame
      cases hexact.symm.trans hname
      rw [hsame] at hform
      -- Both lookups give the same position, and an entry is given by its position.
      have hentry := (getElem?_of_lookup hform).1
      rw [hform, Option.some.inj (hentry.symm.trans he)]
    · exact hname
  · exact hname

theorem exists_lookup_listedName (he : e ∈ lib.externals) :
    ∃ id, lib.entries[id]? = some e ∧ lib.lookup (lib.listedName e.name) = .ok (id, e) := by
  obtain ⟨hmem, hexternal⟩ := mem_externals.mp he
  obtain ⟨id, hid⟩ := List.mem_iff_getElem?.mp hmem
  exact ⟨id, hid, lookup_listedName hid hexternal⟩

/-- Different entries are listed apart, since their listed spellings select them. -/
theorem listedNames_nodup (lib : Library) :
    (lib.externals.map fun e => lib.listedName e.name).Nodup := by
  have hentries : lib.externals.Nodup := (lib.table_checked.distinct.of_map Entry.name).filter _
  refine hentries.map_on fun e he e' he' hlisted => ?_
  obtain ⟨id, -, hlookup⟩ := exists_lookup_listedName he
  obtain ⟨id', -, hlookup'⟩ := exists_lookup_listedName he'
  rw [← hlisted, hlookup] at hlookup'
  cases hlookup'
  rfl

theorem listed_perm (lib : Library) :
    (lib.externalNames.map lib.listedName).Perm (lib.externals.map fun e => lib.listedName e.name) := by
  have hnames := (sorted_perm (lib.externals.map Entry.name)).map lib.listedName
  rwa [List.map_map] at hnames

theorem mnemonics_eq (lib : Library) :
    lib.mnemonics = sorted (lib.externalNames.map lib.listedName) := by
  have hnodup := lib.listed_perm.nodup_iff.mpr lib.listedNames_nodup
  exact withoutRepeats_eq_self ((sorted_perm _).nodup_iff.mpr hnodup)

theorem mnemonics_perm (lib : Library) :
    lib.mnemonics.Perm (lib.externals.map fun e => lib.listedName e.name) := by
  rw [mnemonics_eq]
  exact (sorted_perm _).trans lib.listed_perm

theorem mem_mnemonics {name : String} :
    name ∈ lib.mnemonics ↔ ∃ e ∈ lib.externals, lib.listedName e.name = name := by
  rw [lib.mnemonics_perm.mem_iff, List.mem_map]

/-- The listing is in strict order of the bytes and has as many names as there are external entries. A
lookup takes each name to an external entry, and each external entry is what a lookup takes one of the names
to and no other. -/
theorem mnemonics_name_entries_once (lib : Library) :
    (lib.mnemonics.Pairwise fun a b => Utf8.bytes a.toList < Utf8.bytes b.toList) ∧
    lib.mnemonics.length = lib.externals.length ∧
    (∀ name ∈ lib.mnemonics, ∃ id, ∃ e ∈ lib.externals,
      lib.entries[id]? = some e ∧ lib.lookup name = .ok (id, e)) ∧
    ∀ id, ∀ e ∈ lib.externals, lib.entries[id]? = some e →
      ∃! name, name ∈ lib.mnemonics ∧ lib.lookup name = .ok (id, e) := by
  refine ⟨?_, ?_, fun name hname => ?_, fun id e he hid => ?_⟩
  · have hnodup := lib.listed_perm.nodup_iff.mpr lib.listedNames_nodup
    rw [mnemonics_eq]
    exact (sorted_increasing hnodup).imp fun hlt => Utf8.bytes_lt hlt
  · rw [lib.mnemonics_perm.length_eq, List.length_map]
  · obtain ⟨e, he, rfl⟩ := mem_mnemonics.mp hname
    obtain ⟨id, hid, hlookup⟩ := exists_lookup_listedName he
    exact ⟨id, e, he, hid, hlookup⟩
  · refine ⟨lib.listedName e.name, ⟨mem_mnemonics.mpr ⟨e, he, rfl⟩, ?_⟩, fun name h => ?_⟩
    · exact lookup_listedName hid (mem_externals.mp he).2
    · obtain ⟨hname, hlookup⟩ := h
      obtain ⟨e', he', rfl⟩ := mem_mnemonics.mp hname
      obtain ⟨id', -, hlookup'⟩ := exists_lookup_listedName he'
      cases hlookup.symm.trans hlookup'
      rfl

end Library

/-- A library in which the canonical form of an external entry is the name of an auxiliary one. -/
def hiddenForm : Library :=
  .ofTable
    { name := "hidden"
      isa := jvm
      entries :=
        [{ name := "sub.x", body := [.emit "isub"] },
         { name := "SUB_X", visibility := .auxiliary, body := [.emit "lsub"] },
         { name := "add.x", body := [.emit "iadd"] }] }
    (by decide +kernel)

theorem hiddenForm_mnemonics_name_entries_once :
    hiddenForm.mnemonics.length = 2 ∧
    (∃! name, name ∈ hiddenForm.mnemonics ∧
      hiddenForm.lookup name = .ok (0, { name := "sub.x", body := [.emit "isub"] })) ∧
    ∃! name, name ∈ hiddenForm.mnemonics ∧
      hiddenForm.lookup name = .ok (2, { name := "add.x", body := [.emit "iadd"] }) := by
  obtain ⟨-, hlength, -, honce⟩ := hiddenForm.mnemonics_name_entries_once
  exact ⟨hlength, honce 0 _ (List.mem_of_getElem? (i := 0) rfl) rfl,
    honce 2 _ (List.mem_of_getElem? (i := 1) rfl) rfl⟩

end Lowering
