-- SUMMARY: Linking the call sites of a unit runs the bootstrap of each site once, at its first use.
import Mathlib.Data.List.Induction
import Mathlib.Data.List.Nodup
import Lowering.Proofs.CallSites
import Lowering.Proofs.Shipped

/-!
# Linkage at first use

A host links call sites through one cache, in any order and as often as it likes. The cache knows a
site by its number only. Since the sites of a report have different numbers, each of them is linked by
its own bootstrap, which runs when the site is linked for the first time and never again.
-/

namespace Lowering

variable {σ H : Type}

/-! ## A host that links -/

/-- A bootstrap that ran: in which link, counted from zero, for which site, and with what handle. -/
structure BootstrapRun (H : Type) where
  position : Nat
  site : CallSite
  handle : H

/-- A host that links call sites: its own state, which bootstraps can change, the cache, the handles
that links have returned, and the bootstraps that ran. -/
structure Linker (σ H : Type) where
  host : σ
  cache : LinkCache H := {}
  handles : List H := []
  runs : List (BootstrapRun H) := []

namespace Linker

/-- The bootstrap, with its run put on record. -/
def recorded (bootstrap : Nat → CallSite → StateM σ H) (position : Nat) (site : CallSite) :
    StateM (σ × List (BootstrapRun H)) H :=
  fun s =>
    let result := (bootstrap position site).run s.1
    (result.1, result.2, s.2 ++ [⟨position, site, result.1⟩])

/-- Links one call site. -/
def step (bootstrap : Nat → CallSite → StateM σ H) (l : Linker σ H) (site : CallSite) : Linker σ H :=
  let result := (l.cache.linkM site (recorded bootstrap l.handles.length)).run (l.host, l.runs)
  { host := result.2.1
    cache := result.1.2
    handles := l.handles ++ [result.1.1]
    runs := result.2.2 }

/-- Links call sites one after the other, from an empty cache on. -/
def linkAll (bootstrap : Nat → CallSite → StateM σ H) (host : σ) (calls : List CallSite) :
    Linker σ H :=
  calls.foldl (step bootstrap) { host }

theorem step_of_linked (bootstrap : Nat → CallSite → StateM σ H) {l : Linker σ H} {site : CallSite}
    {handle : H} (h : l.cache.linked.lookup site.id = some handle) :
    l.step bootstrap site = { l with handles := l.handles ++ [handle] } := by
  simp only [step, LinkCache.linkM, h]
  rfl

theorem step_of_unlinked (bootstrap : Nat → CallSite → StateM σ H) {l : Linker σ H} {site : CallSite}
    (h : l.cache.linked.lookup site.id = none) :
    ∃ handle host, l.step bootstrap site =
      { host
        cache := ⟨(site.id, handle) :: l.cache.linked⟩
        handles := l.handles ++ [handle]
        runs := l.runs ++ [⟨l.handles.length, site, handle⟩] } := by
  simp only [step, LinkCache.linkM, h]
  exact ⟨_, _, rfl⟩

/-! ## What links have done -/

/-- After the links, the bootstrap of each site has run once, in its first link, the cache has the
handles of these runs, and each link has returned the handle of its site. -/
structure Linked (calls : List CallSite) (l : Linker σ H) : Prop where
  length : l.handles.length = calls.length
  runs : l.runs.map (fun run => (run.position, run.site)) =
    calls.eraseDups.map fun site => (calls.idxOf site, site)
  cached : l.cache.linked = (l.runs.map fun run => (run.site.id, run.handle)).reverse
  handles : ∀ (i : Nat) (site : CallSite), calls[i]? = some site →
    ∃ run ∈ l.runs, run.site = site ∧ l.handles[i]? = some run.handle

namespace Linked

variable {calls : List CallSite} {l : Linker σ H} {site : CallSite}

theorem start (host : σ) : Linked [] ({ host } : Linker σ H) := ⟨rfl, rfl, rfl, by simp⟩

theorem run_site_mem (h : Linked calls l) {run : BootstrapRun H} (hrun : run ∈ l.runs) :
    run.site ∈ calls := by
  have hmem : (run.position, run.site) ∈ calls.eraseDups.map fun site => (calls.idxOf site, site) :=
    h.runs ▸ List.mem_map_of_mem hrun
  obtain ⟨site, hsite, heq⟩ := List.mem_map.mp hmem
  rw [← (Prod.mk.inj heq).2]
  exact List.mem_eraseDups.mp hsite

/-- A site is in the cache just if it was linked, with the handle of its own bootstrap. -/
theorem lookup_eq_some (h : Linked calls l) (hids : ∀ site' ∈ calls, site'.id = site.id → site' = site)
    {handle : H} (hlookup : l.cache.linked.lookup site.id = some handle) :
    ∃ run ∈ l.runs, run.site = site ∧ run.handle = handle := by
  obtain ⟨before, after, hsplit, -⟩ := List.lookup_eq_some_iff.mp hlookup
  have hmem : (site.id, handle) ∈ l.cache.linked := by
    rw [hsplit]
    exact List.mem_append_right _ List.mem_cons_self
  rw [h.cached, List.mem_reverse] at hmem
  obtain ⟨run, hrun, heq⟩ := List.mem_map.mp hmem
  -- The run has the number that was looked up, and no other linked site has that number.
  obtain ⟨hid, hhandle⟩ := Prod.mk.inj heq
  exact ⟨run, hrun, hids _ (h.run_site_mem hrun) hid, hhandle⟩

theorem lookup_eq_none_iff (h : Linked calls l)
    (hids : ∀ site' ∈ calls, site'.id = site.id → site' = site) :
    l.cache.linked.lookup site.id = none ↔ site ∉ calls := by
  constructor
  · intro hnone hmem
    obtain ⟨i, hi⟩ := List.mem_iff_getElem?.mp hmem
    obtain ⟨run, hrun, rfl, -⟩ := h.handles i site hi
    have hpair : (run.site.id, run.handle) ∈ l.cache.linked := by
      rw [h.cached, List.mem_reverse]
      exact List.mem_map_of_mem hrun
    simpa using List.lookup_eq_none_iff.mp hnone _ hpair
  · intro hnot
    cases hlookup : l.cache.linked.lookup site.id with
    | none => rfl
    | some handle =>
      obtain ⟨run, hrun, rfl, -⟩ := h.lookup_eq_some hids hlookup
      exact absurd (h.run_site_mem hrun) hnot

/-- The first links of sites stay where they are when another site is linked. -/
theorem firstLinks_append (calls : List CallSite) (site : CallSite) :
    (calls.eraseDups.map fun s => ((calls ++ [site]).idxOf s, s)) =
      calls.eraseDups.map fun s => (calls.idxOf s, s) :=
  List.map_congr_left fun s hs => by rw [List.idxOf_append_of_mem (List.mem_eraseDups.mp hs)]

/-- If the next link returns the handle of a run for its site, all links have done so. -/
theorem handles_append (h : Linked calls l) {runs : List (BootstrapRun H)} (hkept : l.runs ⊆ runs)
    {own : BootstrapRun H} (hown : own ∈ runs) (hsite : own.site = site) (i : Nat) (s : CallSite)
    (hs : (calls ++ [site])[i]? = some s) :
    ∃ run ∈ runs, run.site = s ∧ (l.handles ++ [own.handle])[i]? = some run.handle := by
  rcases Nat.lt_or_ge i calls.length with hlt | hge
  · rw [List.getElem?_append_left hlt] at hs
    obtain ⟨run, hrun, hsame, hhandle⟩ := h.handles i s hs
    exact ⟨run, hkept hrun, hsame, by rw [List.getElem?_append_left (h.length ▸ hlt), hhandle]⟩
  · rw [List.getElem?_append_right hge, List.getElem?_singleton] at hs
    split at hs
    · rename_i hlast
      cases hs
      refine ⟨own, hown, hsite, ?_⟩
      rw [List.getElem?_append_right (h.length ▸ hge), h.length, hlast]
      rfl
    · cases hs

/-- Linking a site again runs no bootstrap. -/
theorem again (bootstrap : Nat → CallSite → StateM σ H) (h : Linked calls l)
    (hids : ∀ site' ∈ calls, site'.id = site.id → site' = site) (hmem : site ∈ calls) :
    Linked (calls ++ [site]) (l.step bootstrap site) := by
  cases hlookup : l.cache.linked.lookup site.id with
  | none => exact absurd hmem ((h.lookup_eq_none_iff hids).mp hlookup)
  | some handle =>
    obtain ⟨own, hown, hsite, rfl⟩ := h.lookup_eq_some hids hlookup
    have herase : (calls ++ [site]).eraseDups = calls.eraseDups := by
      simp [List.eraseDups_append, List.removeAll, hmem]
    rw [step_of_linked bootstrap hlookup]
    refine ⟨by simp [h.length], ?_, h.cached, h.handles_append (List.Subset.refl _) hown hsite⟩
    rw [herase, firstLinks_append]
    exact h.runs

/-- Linking a site for the first time runs its bootstrap. -/
theorem first (bootstrap : Nat → CallSite → StateM σ H) (h : Linked calls l)
    (hids : ∀ site' ∈ calls, site'.id = site.id → site' = site) (hmem : site ∉ calls) :
    Linked (calls ++ [site]) (l.step bootstrap site) := by
  obtain ⟨handle, host, hstep⟩ := step_of_unlinked bootstrap ((h.lookup_eq_none_iff hids).mpr hmem)
  have herase : (calls ++ [site]).eraseDups = calls.eraseDups ++ [site] := by
    have hnew : [site].removeAll calls = [site] := by simp [List.removeAll, hmem]
    rw [List.eraseDups_append, hnew]
    rfl
  have hidx : (calls ++ [site]).idxOf site = l.handles.length := by
    rw [List.idxOf_append_of_notMem hmem, List.idxOf_cons_self, h.length, Nat.add_zero]
  rw [hstep]
  refine ⟨by simp [h.length], ?_, by simp [h.cached], ?_⟩
  · rw [herase, List.map_append, List.map_append, firstLinks_append, h.runs, List.map_singleton,
      List.map_singleton, hidx]
  · have hown : (⟨l.handles.length, site, handle⟩ : BootstrapRun H) ∈
        l.runs ++ [⟨l.handles.length, site, handle⟩] := List.mem_append_right _ List.mem_cons_self
    exact h.handles_append (List.subset_append_left _ _) hown rfl

/-- Links of sites that their numbers tell apart. -/
theorem linkAll (bootstrap : Nat → CallSite → StateM σ H) (host : σ) {calls : List CallSite}
    (hids : ∀ site ∈ calls, ∀ site' ∈ calls, site.id = site'.id → site = site') :
    Linked calls (linkAll bootstrap host calls) := by
  -- The induction adds one link at the end; the bootstraps of the links before it have run.
  induction calls using List.reverseRecOn with
  | nil => exact .start host
  | append_singleton calls site ih =>
    have hlinked := ih fun s hs s' hs' =>
      hids s (List.mem_append_left _ hs) s' (List.mem_append_left _ hs')
    have hsite : ∀ s ∈ calls, s.id = site.id → s = site := fun s hs =>
      hids s (List.mem_append_left _ hs) site (List.mem_append_right _ List.mem_cons_self)
    rw [Linker.linkAll, List.foldl_append, List.foldl_cons, List.foldl_nil]
    by_cases hmem : site ∈ calls
    · exact hlinked.again bootstrap hsite hmem
    · exact hlinked.first bootstrap hsite hmem

theorem size_eq (h : Linked calls l) : l.cache.size = calls.eraseDups.length := by
  have hlength := congrArg List.length h.runs
  rw [List.length_map, List.length_map] at hlength
  rw [LinkCache.size, h.cached, List.length_reverse, List.length_map, hlength]

end Linked

end Linker

/-- Sites with consecutive numbers are told apart by them. -/
theorem NumberedFrom.id_injective {first : Nat} {sites : List CallSite} (h : NumberedFrom first sites)
    {site site' : CallSite} (hsite : site ∈ sites) (hsite' : site' ∈ sites) (hid : site.id = site'.id) :
    site = site' := by
  have hnodup : (sites.map CallSite.id).Nodup := by
    rw [h]
    exact List.nodup_range'
  exact List.inj_on_of_nodup_map hnodup hsite hsite' hid

/-- The call sites that a report shows are numbered from zero on. However a host links them through one
cache, the bootstrap of each site runs once, in the first link of the site, every link returns the
handle that its site's own run has made, and the cache has as many handles as sites were linked. -/
theorem lowerText_links_each_site_once (lib : Library) (config : UnitConfig) (text : String) (r : Report)
    (hreport : lowerText lib config text = .ok r ∨
      ∃ failure, lowerText lib config text = .error ⟨failure, r⟩) :
    r.callSites.map CallSite.id = List.range r.callSites.length ∧
    ∀ (σ H : Type) (bootstrap : Nat → CallSite → StateM σ H) (host : σ) (calls : List CallSite),
      calls ⊆ r.callSites →
      let l := Linker.linkAll bootstrap host calls
      l.runs.map (fun run => (run.position, run.site)) =
        calls.eraseDups.map (fun site => (calls.idxOf site, site)) ∧
      l.handles.length = calls.length ∧
      (∀ (i : Nat) (site : CallSite), calls[i]? = some site →
        ∃ run ∈ l.runs, run.site = site ∧ l.handles[i]? = some run.handle) ∧
      l.cache.size = calls.eraseDups.length := by
  have hnumbered := lowerText_numbered hreport
  refine ⟨hnumbered.trans List.range_eq_range'.symm, fun σ H bootstrap host calls hcalls => ?_⟩
  have hlinked : (Linker.linkAll bootstrap host calls).Linked calls := .linkAll bootstrap host
    fun site hsite site' hsite' => hnumbered.id_injective (hcalls hsite) (hcalls hsite')
  exact ⟨hlinked.runs, hlinked.length, hlinked.handles, hlinked.size_eq⟩

/-- The second line takes a number for its call before its last operand is refused. -/
def refusedCall : String := "MEMORY_SIZE 0\nMEMORY_SIZE 0 1\nI32_LOAD 2 8\nMEMORY_SIZE 0"

theorem refusedCall_links_each_site_once :
    ∃ r first second third, lowerText Catalog.wasm32Library {} refusedCall = .ok r ∧
      r.callSites = [first, second, third] ∧ r.errors = 1 ∧
      [first.id, second.id, third.id] = [0, 1, 2] ∧
      ∀ bootstrap : Nat → CallSite → StateM Nat String,
        let l := Linker.linkAll bootstrap 0 [third, first, third, first]
        l.runs.map (fun run => (run.position, run.site)) = [(0, third), (1, first)] ∧
          l.handles.length = 4 ∧ l.cache.size = 2 := by
  have hsites : (lowerText Catalog.wasm32Library {} refusedCall).toOption.map
      (fun r => (r.callSites.map CallSite.id, r.errors)) = some ([0, 1, 2], 1) := by
    decide +kernel
  cases hr : lowerText Catalog.wasm32Library {} refusedCall with
  | error stopped =>
    rw [hr] at hsites
    cases hsites
  | ok r =>
    rw [hr] at hsites
    obtain ⟨hids, herrors⟩ := Prod.mk.inj (Option.some.inj hsites)
    obtain ⟨first, rest, hfirst, hid, hrest⟩ := List.map_eq_cons_iff.mp hids
    obtain ⟨second, rest, rfl, hid', hrest⟩ := List.map_eq_cons_iff.mp hrest
    obtain ⟨third, rest, rfl, hid'', hrest⟩ := List.map_eq_cons_iff.mp hrest
    cases List.map_eq_nil_iff.mp hrest
    have hne : third ≠ first := fun heq => by simp [heq, hid] at hid''
    refine ⟨r, first, second, third, rfl, hfirst, herrors, by rw [hid, hid', hid''], fun bootstrap => ?_⟩
    have hlinks := (lowerText_links_each_site_once Catalog.wasm32Library {} refusedCall r (.inl hr)).2
      Nat String bootstrap 0 [third, first, third, first] (by rw [hfirst]; simp)
    have herase : [third, first, third, first].eraseDups = [third, first] := by
      simp [List.eraseDups_cons, hne.symm]
    rw [herase] at hlinks
    obtain ⟨hruns, hlength, -, hsize⟩ := hlinks
    refine ⟨hruns.trans ?_, hlength, hsize⟩
    simp [List.idxOf_cons, beq_false_of_ne hne]

end Lowering
