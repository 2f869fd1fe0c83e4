-- SUMMARY: What the index of some names finds, and that the order of its making does not matter.
import Mathlib.Data.List.Nodup
import Lowering.Proofs.Positions

/-!
# What the index finds

The index of some names lists each name with its position, and each canonical form that is no name with the
positions that have it. It finds a name at its position and another form at its only position. The forms
can be added in any order, for each of them is listed once.
-/

namespace Lowering

/-! ## Canonical forms -/

namespace Text

theorem toUpper_eq_self {c : Char} (h : ¬('a'.val ≤ c.val ∧ c.val ≤ 'z'.val)) : c.toUpper = c :=
  dif_neg h

theorem toNat_toUpper {c : Char} (h : 'a'.val ≤ c.val ∧ c.val ≤ 'z'.val) :
    65 ≤ c.toUpper.val.toNat ∧ c.toUpper.val.toNat ≤ 90 := by
  have hupper : c.toUpper = _ := dif_pos h
  have hlow := UInt32.le_iff_toNat_le.mp h.1
  have hhigh := UInt32.le_iff_toNat_le.mp h.2
  rw [hupper]
  simp at hlow hhigh ⊢
  omega

end Text

/-- One character of a canonical form. -/
def canonicalChar (c : Char) : Char := if c = '.' then '_' else c.toUpper

theorem canonicalChar_canonicalChar (c : Char) : canonicalChar (canonicalChar c) = canonicalChar c := by
  by_cases hpoint : c = '.'
  · subst hpoint
    decide
  · have hcapital : canonicalChar c = c.toUpper := if_neg hpoint
    rw [hcapital]
    by_cases hsmall : 'a'.val ≤ c.val ∧ c.val ≤ 'z'.val
    · obtain ⟨hlow, hhigh⟩ := Text.toNat_toUpper hsmall
      have hpoint' : c.toUpper ≠ '.' := by
        intro heq
        rw [heq] at hlow
        revert hlow
        decide
      rw [canonicalChar, if_neg hpoint']
      refine Text.toUpper_eq_self fun h => ?_
      have hsmall' : 97 ≤ c.toUpper.val.toNat := UInt32.le_iff_toNat_le.mp h.1
      omega
    · rw [Text.toUpper_eq_self hsmall, hcapital, Text.toUpper_eq_self hsmall]

/-- A canonical form is its own canonical form. -/
theorem canonical_canonical (s : String) : canonical (canonical s) = canonical s := by
  have hchars : ∀ s, canonical s = String.ofList (s.toList.map canonicalChar) := fun _ => rfl
  rw [hchars, hchars, String.toList_ofList, List.map_map]
  congr 1
  exact List.map_congr_left fun c _ => canonicalChar_canonicalChar c

/-! ## Lists of pairs -/

section Pairs

variable {α β : Type}

/-- The keys of a list of pairs are distinct. -/
def DistinctKeys (pairs : List (String × α)) : Prop := (pairs.map Prod.fst).Nodup

theorem lookup_perm {pairs pairs' : List (String × α)} (h : pairs.Perm pairs')
    (hdistinct : DistinctKeys pairs) (key : String) : pairs.lookup key = pairs'.lookup key := by
  induction h with
  | nil => rfl
  | cons pair h ih =>
    rw [List.lookup_cons, List.lookup_cons, ih (List.nodup_cons.mp hdistinct).2]
  | swap pair pair' rest =>
    obtain ⟨first, a⟩ := pair
    obtain ⟨second, b⟩ := pair'
    have hne : second ≠ first := by
      rintro rfl
      exact (List.nodup_cons.mp hdistinct).1 List.mem_cons_self
    simp only [List.lookup_cons]
    by_cases hkey : key = first
    · have hother : (key == second) = false := beq_false_of_ne fun h => hne (h.symm.trans hkey)
      simp [hother]
    · have hother : (key == first) = false := beq_false_of_ne hkey
      simp [hother]
  | trans h _ ih ih' =>
    rw [ih hdistinct, ih' ((h.map Prod.fst).nodup_iff.mp hdistinct)]

/-- The pairs with a value that is kept, with what is kept of it. -/
def keepValues (keep : α → Option β) (pairs : List (String × α)) : List (String × β) :=
  pairs.filterMap fun pair => (keep pair.2).map (pair.1, ·)

theorem keys_keepValues (keep : α → Option β) (pairs : List (String × α)) :
    ((keepValues keep pairs).map Prod.fst).Sublist (pairs.map Prod.fst) := by
  induction pairs with
  | nil => exact .slnil
  | cons pair pairs ih =>
    cases hkeep : keep pair.2 with
    | none => simpa [keepValues, hkeep] using ih.cons pair.1
    | some b => simpa [keepValues, hkeep] using ih.cons_cons pair.1

theorem lookup_keepValues (keep : α → Option β) {pairs : List (String × α)}
    (hdistinct : DistinctKeys pairs) (key : String) :
    (keepValues keep pairs).lookup key = (pairs.lookup key).bind keep := by
  induction pairs with
  | nil => rfl
  | cons pair pairs ih =>
    obtain ⟨hnew, hrest⟩ := List.nodup_cons.mp hdistinct
    have ih := ih hrest
    rw [List.lookup_cons]
    by_cases hkey : key = pair.1
    · subst hkey
      have hnone : (keepValues keep pairs).lookup pair.1 = none := by
        rw [List.lookup_eq_none_iff]
        intro kept hmem
        have hin := (keys_keepValues keep pairs).subset (List.mem_map_of_mem hmem)
        simpa using fun heq : pair.1 = kept.1 => hnew (heq ▸ hin)
      cases hkeep : keep pair.2 with
      | none => simpa [keepValues, hkeep] using hnone
      | some b => simp [keepValues, hkeep]
    · have hother : (key == pair.1) = false := beq_false_of_ne hkey
      cases hkeep : keep pair.2 with
      | none => simpa [keepValues, hkeep, hother] using ih
      | some b => simpa [keepValues, hkeep, hother, List.lookup_cons] using ih

end Pairs

/-! ## Groups of positions -/

namespace Index

theorem keys_addTo (spelling : String) (id : Nat) (groups : List (String × List Nat)) :
    (addTo spelling id groups).map Prod.fst =
      if spelling ∈ groups.map Prod.fst then groups.map Prod.fst
      else groups.map Prod.fst ++ [spelling] := by
  induction groups with
  | nil => rfl
  | cons group groups ih =>
    obtain ⟨first, ids⟩ := group
    rw [addTo]
    by_cases hfirst : first = spelling
    · simp [hfirst]
    · rw [if_neg hfirst, List.map_cons, ih]
      by_cases hmem : spelling ∈ groups.map Prod.fst
      · simp [hmem]
      · simp [hmem, Ne.symm hfirst]

theorem lookup_addTo (added : String) (new : Nat) (groups : List (String × List Nat))
    (spelling : String) :
    (addTo added new groups).lookup spelling =
      if spelling = added then some ((groups.lookup spelling).getD [] ++ [new])
      else groups.lookup spelling := by
  induction groups with
  | nil =>
    by_cases hadded : spelling = added
    · simp [addTo, hadded]
    · simp [addTo, hadded]
  | cons group groups ih =>
    obtain ⟨first, ids⟩ := group
    rw [addTo]
    by_cases hfirst : first = added
    · subst hfirst
      by_cases hspelling : spelling = first
      · simp [hspelling]
      · have hother : (spelling == first) = false := beq_false_of_ne hspelling
        simp [List.lookup_cons, hspelling, hother]
    · rw [if_neg hfirst, List.lookup_cons, List.lookup_cons, ih]
      by_cases hspelling : spelling = first
      · simp [hspelling, hfirst]
      · have hother : (spelling == first) = false := beq_false_of_ne hspelling
        simp [hother]

theorem grouped_distinctKeys (pairs : List (String × Nat)) : DistinctKeys (grouped pairs) := by
  have hfold : ∀ groups, DistinctKeys groups →
      DistinctKeys (pairs.foldl (fun groups pair => addTo pair.1 pair.2 groups) groups) := by
    induction pairs with
    | nil => exact fun groups hgroups => hgroups
    | cons pair pairs ih =>
      intro groups hgroups
      refine ih _ ?_
      rw [DistinctKeys, keys_addTo]
      split
      · exact hgroups
      · rename_i hnew
        exact List.nodup_append_comm.mp (List.nodup_cons.mpr ⟨hnew, hgroups⟩)
  exact hfold [] List.nodup_nil

/-- The positions that are paired with the spelling, in order. -/
def pairedWith (spelling : String) (pairs : List (String × Nat)) : List Nat :=
  pairs.filterMap fun pair => if pair.1 = spelling then some pair.2 else none

/-- The group of a spelling has the positions that are paired with it. -/
theorem lookup_grouped (pairs : List (String × Nat)) (spelling : String) :
    (grouped pairs).lookup spelling =
      if pairedWith spelling pairs = [] then none else some (pairedWith spelling pairs) := by
  have hfold : ∀ groups,
      (pairs.foldl (fun groups pair => addTo pair.1 pair.2 groups) groups).lookup spelling =
        if pairedWith spelling pairs = [] then groups.lookup spelling
        else some ((groups.lookup spelling).getD [] ++ pairedWith spelling pairs) := by
    induction pairs with
    | nil => exact fun _ => rfl
    | cons pair pairs ih =>
      intro groups
      rw [List.foldl_cons, ih, lookup_addTo]
      by_cases hpair : pair.1 = spelling
      · have hpaired : pairedWith spelling (pair :: pairs) = pair.2 :: pairedWith spelling pairs := by
          simp [pairedWith, hpair]
        rw [hpaired, if_pos hpair.symm]
        split
        · rename_i hnil
          simp [hnil]
        · simp
      · have hpaired : pairedWith spelling (pair :: pairs) = pairedWith spelling pairs := by
          simp [pairedWith, hpair]
        rw [hpaired, if_neg (Ne.symm hpair)]
  exact hfold []

/-- The positions of the names that have the canonical form. -/
def positions (names : List String) (form : String) : List Nat :=
  names.zipIdx.filterMap fun named => if canonical named.1 = form then some named.2 else none

theorem folded_distinctKeys (names : List String) : DistinctKeys (folded names) :=
  grouped_distinctKeys _

/-- A form that is no name is grouped with all positions that have it. -/
theorem lookup_folded {names : List String} {form : String} (hform : form ∉ names) :
    (folded names).lookup form =
      if positions names form = [] then none else some (positions names form) := by
  have hfolded : folded names = grouped (names.zipIdx.filterMap fun named =>
      if names.contains (canonical named.1) then none else some (canonical named.1, named.2)) := rfl
  have hpaired : pairedWith form (names.zipIdx.filterMap fun named =>
      if names.contains (canonical named.1) then none else some (canonical named.1, named.2)) =
      positions names form := by
    rw [pairedWith, List.filterMap_filterMap]
    refine List.filterMap_congr fun named _ => ?_
    by_cases hcanonical : canonical named.1 = form
    · simp [hcanonical, hform]
    · by_cases hname : canonical named.1 ∈ names
      · simp [hcanonical, hname]
      · simp [hcanonical, hname]
  rw [hfolded, lookup_grouped, hpaired]

/-! ## The index -/

/-- The position of a group that has just one. -/
def only? : List Nat → Option Nat
  | [id] => some id
  | _ => none

/-- The positions of a group that does not have just one. -/
def several? (ids : List Nat) : Option (List Nat) := if (only? ids).isNone then some ids else none

theorem only?_eq_some_iff {ids : List Nat} {id : Nat} : only? ids = some id ↔ ids = [id] := by
  unfold only?
  split
  · simp
  · rename_i hnot
    simpa using hnot id

theorem single?_eq (group : String × List Nat) :
    single? group = (only? group.2).map (group.1, ·) := by
  obtain ⟨spelling, ids⟩ := group
  rcases ids with _ | ⟨id, _ | ⟨next, ids⟩⟩ <;> rfl

theorem filterMap_single? (groups : List (String × List Nat)) :
    groups.filterMap single? = keepValues only? groups :=
  List.filterMap_congr fun group _ => single?_eq group

theorem filter_single?_isNone (groups : List (String × List Nat)) :
    (groups.filter fun group => (single? group).isNone) = keepValues several? groups := by
  rw [← List.filterMap_eq_filter, keepValues]
  refine List.filterMap_congr fun group _ => ?_
  cases honly : only? group.2 with
  | none => simp [Option.guard, single?_eq, several?, honly]
  | some id => simp [Option.guard, single?_eq, several?, honly]

theorem unique_distinctKeys {names : List String} (hdistinct : names.Nodup) :
    DistinctKeys (ofNames names).unique := by
  have hexact : (exact names).map Prod.fst = names := List.zipIdx_map_fst 0 names
  rw [DistinctKeys, ofNames, List.map_append, hexact]
  refine List.nodup_append'.mpr ⟨hdistinct, ?_, ?_⟩
  · rw [filterMap_single?]
    exact (folded_distinctKeys names).sublist (keys_keepValues only? _)
  · intro name hname hfolded
    obtain ⟨⟨spelling, id⟩, hmem, rfl⟩ := List.mem_map.mp hfolded
    rw [filterMap_single?] at hmem
    obtain ⟨group, hgroup, hkept⟩ := List.mem_filterMap.mp hmem
    obtain ⟨id', honly, hpair⟩ := Option.map_eq_some_iff.mp hkept
    cases hpair
    have hids := only?_eq_some_iff.mp honly
    have hin : InGroup (folded names) group.1 id := ⟨group.2, hgroup, hids ▸ List.mem_cons_self⟩
    exact (inGroup_folded.mp hin).1 hname

theorem ambiguous_distinctKeys (names : List String) : DistinctKeys (ofNames names).ambiguous := by
  rw [ofNames, filter_single?_isNone]
  exact (folded_distinctKeys names).sublist (keys_keepValues several? _)

theorem lookup_zipIdx {names : List String} (hnodup : names.Nodup) {i : Nat} {name : String}
    (hname : names[i]? = some name) (offset : Nat) :
    (names.zipIdx offset).lookup name = some (i + offset) := by
  induction names generalizing i offset with
  | nil => cases hname
  | cons first rest ih =>
    obtain ⟨hfirst, hrest⟩ := List.nodup_cons.mp hnodup
    rw [List.zipIdx_cons]
    cases i with
    | zero =>
      cases hname
      rw [List.lookup_cons_self, Nat.zero_add]
    | succ i =>
      have hne : (name == first) = false :=
        beq_false_of_ne fun heq => hfirst (heq ▸ List.mem_of_getElem? hname)
      rw [List.lookup_cons, hne, Nat.succ_add, ← Nat.add_succ]
      exact ih hrest hname (offset + 1)

theorem find?_of_name {names : List String} (hdistinct : names.Nodup) {id : Nat} {name : String}
    (hname : names[id]? = some name) : (ofNames names).find? name = some id := by
  rw [find?, ofNames, List.lookup_append, exact, lookup_zipIdx hdistinct hname]
  rfl

/-- A spelling that is no name is found if it is the canonical form of just one name. -/
theorem find?_of_not_mem {names : List String} {spelling : String} (hspelling : spelling ∉ names) :
    (ofNames names).find? spelling = only? (positions names spelling) := by
  have hexact : (exact names).lookup spelling = none := by
    rw [List.lookup_eq_none_iff]
    intro named hmem
    have hname : named.1 ∈ names := List.fst_mem_of_mem_zipIdx hmem
    simpa using fun heq : spelling = named.1 => hspelling (heq ▸ hname)
  rw [find?, ofNames, List.lookup_append, hexact, Option.none_or, filterMap_single?,
    lookup_keepValues only? (folded_distinctKeys names), lookup_folded hspelling]
  split
  · rename_i hnone
    rw [hnone]
    rfl
  · rfl

theorem mem_positions {names : List String} {form : String} {id : Nat} :
    id ∈ positions names form ↔ ∃ name, names[id]? = some name ∧ canonical name = form := by
  rw [positions, List.mem_filterMap]
  constructor
  · rintro ⟨⟨name, i⟩, hmem, hpair⟩
    split at hpair
    · rename_i hform
      cases hpair
      exact ⟨name, List.mk_mem_zipIdx_iff_getElem?.mp hmem, hform⟩
    · cases hpair
  · rintro ⟨name, hname, hform⟩
    exact ⟨(name, id), List.mk_mem_zipIdx_iff_getElem?.mpr hname, if_pos hform⟩

theorem positions_nodup (names : List String) (form : String) : (positions names form).Nodup := by
  have heq : positions names form =
      (names.zipIdx.filter fun named => decide (canonical named.1 = form)).map Prod.snd := by
    rw [← List.filterMap_eq_map, List.filterMap_filter, positions]
    simp
  have hall : (names.zipIdx.map Prod.snd).Nodup := by
    rw [List.zipIdx_map_snd]
    exact List.nodup_range'
  rw [heq]
  exact hall.sublist (List.filter_sublist.map _)

/-- A mnemonic that is no name selects what its canonical form selects. -/
theorem select?_of_not_mem {names : List String} {mnemonic : String} (hmnemonic : mnemonic ∉ names) :
    (ofNames names).select? mnemonic = (ofNames names).find? (canonical mnemonic) := by
  rw [select?]
  cases hfind : (ofNames names).find? mnemonic with
  | none => rfl
  | some id =>
    -- The mnemonic is in the index as a canonical form, so it is its own one.
    rw [find?_of_not_mem hmnemonic, only?_eq_some_iff] at hfind
    obtain ⟨name, -, rfl⟩ := mem_positions.mp (hfind ▸ List.mem_cons_self)
    rw [canonical_canonical, find?_of_not_mem hmnemonic, hfind]
    rfl

/-! ## The order of the forms -/

/-- Adds the canonical form of a group, as a spelling if it has just one position. -/
def addGroup (index : Index) (group : String × List Nat) : Index :=
  match single? group with
  | some spelling => { index with unique := spelling :: index.unique }
  | none => { index with ambiguous := group :: index.ambiguous }

/-- The index of the names when the groups are added one by one. -/
def visiting (names : List String) (groups : List (String × List Nat)) : Index :=
  groups.foldl addGroup ⟨exact names, []⟩

theorem foldl_addGroup (index : Index) (groups : List (String × List Nat)) :
    (groups.foldl addGroup index).unique.Perm (index.unique ++ groups.filterMap single?) ∧
      (groups.foldl addGroup index).ambiguous.Perm
        (index.ambiguous ++ groups.filter fun group => (single? group).isNone) := by
  induction groups generalizing index with
  | nil => simp
  | cons group groups ih =>
    obtain ⟨hunique, hambiguous⟩ := ih (index.addGroup group)
    rw [List.foldl_cons]
    cases hsingle : single? group with
    | none =>
      simp only [addGroup, hsingle] at hunique hambiguous
      simp only [addGroup, hsingle, List.filterMap_cons, List.filter_cons, Option.isNone_none, if_true]
      exact ⟨hunique, hambiguous.trans List.perm_middle.symm⟩
    | some spelling =>
      simp only [addGroup, hsingle] at hunique hambiguous
      simp only [addGroup, hsingle, List.filterMap_cons, List.filter_cons, Option.isNone_some]
      exact ⟨hunique.trans List.perm_middle.symm, hambiguous⟩

variable {names : List String} {groups : List (String × List Nat)}

/-- In whatever order the groups are added, each spelling is found as in the index of the names. -/
theorem find?_visiting (hdistinct : names.Nodup) (hgroups : groups.Perm (folded names))
    (spelling : String) : (visiting names groups).find? spelling = (ofNames names).find? spelling := by
  have hperm : (visiting names groups).unique.Perm (ofNames names).unique :=
    (foldl_addGroup _ groups).1.trans ((hgroups.filterMap single?).append_left _)
  exact (lookup_perm hperm.symm (unique_distinctKeys hdistinct) spelling).symm

theorem select?_visiting (hdistinct : names.Nodup) (hgroups : groups.Perm (folded names))
    (mnemonic : String) :
    (visiting names groups).select? mnemonic = (ofNames names).select? mnemonic := by
  rw [select?, select?, find?_visiting hdistinct hgroups, find?_visiting hdistinct hgroups]

theorem candidates_visiting (hgroups : groups.Perm (folded names)) (mnemonic : String) :
    (visiting names groups).candidates mnemonic = (ofNames names).candidates mnemonic := by
  have hperm : (visiting names groups).ambiguous.Perm (ofNames names).ambiguous :=
    (foldl_addGroup _ groups).2.trans (hgroups.filter _)
  rw [candidates, candidates,
    ← lookup_perm hperm.symm (ambiguous_distinctKeys names) (canonical mnemonic)]

end Index

end Lowering
