-- SUMMARY: A line that is rejected leaves no trace: without it, the rest of a text is lowered the same.
import Mathlib.Data.List.Nodup
import Lowering.Proofs.LineResults
import Lowering.Proofs.Shipped

/-!
# Rejected lines

A line that fails leaves the state of its unit as it was. So if the rejected lines of a text are made
blank, the other lines have the same results as before: the same primitives with the same labels and
call sites, at the same indentation, and the same diagnostics.
-/

namespace Lowering

/-! ## Results of single lines -/

/-- Whether the line was not rejected. -/
def LineResult.isKept (r : LineResult) : Bool := !r.item.isRejected

theorem UnitConfig.promote_about (config : UnitConfig) (d : Diagnostic) :
    (config.promote d).line = d.line ∧ (config.promote d).notes = d.notes ∧
      (config.promote d).code = d.code := by
  unfold UnitConfig.promote
  split <;> exact ⟨rfl, rfl, rfl⟩

namespace UnitState

variable (lib : Library) (config : UnitConfig) (state : UnitState)

/-- Whatever came before it, the diagnostics of a line are about the line. -/
theorem lowerLine_fits (line : SourceLine) : (state.lowerLine lib config line).reported.Fits := by
  unfold lowerLine
  split
  · exact ⟨nofun, nofun, nofun⟩
  · split
    · refine ⟨fun d hd => ?_, nofun, fun _ d hd => ?_⟩
      all_goals
        obtain ⟨d₁, hd₁, rfl⟩ := List.mem_map.mp hd
        obtain ⟨notice, -, rfl⟩ := List.mem_map.mp hd₁
        obtain ⟨hline, hnotes, hcode⟩ := config.promote_about
          (Diagnostic.ofNotice line.number line.mnemonic notice)
      · exact ⟨hline, hnotes⟩
      · exact hcode
    · refine ⟨fun d hd => ?_, fun _ => rfl, nofun⟩
      rw [List.mem_singleton.mp hd]
      obtain ⟨hline, hnotes, -⟩ := config.promote_about (Diagnostic.ofFailure line.number _)
      exact ⟨hline, hnotes⟩

/-- A rejected line leaves the unit as it was. -/
theorem lowerLine_state {line : SourceLine} (h : (state.lowerLine lib config line).isKept = false) :
    (state.lowerLine lib config line).state = state := by
  revert h
  unfold lowerLine
  split
  · nofun
  · split
    · nofun
    · rename_i hexpand
      exact fun _ => expand_eq_error hexpand

/-! ## Results of all lines -/

theorem lowerLines_fits (lines : List SourceLine) :
    ∀ r ∈ state.lowerLines lib config lines, r.reported.Fits := by
  induction lines generalizing state with
  | nil => exact nofun
  | cons line lines ih =>
    intro r hr
    rcases List.mem_cons.mp hr with rfl | hr
    · exact lowerLine_fits lib config state line
    · exact ih _ r hr

/-- Without the rejected lines, the other lines have the same results and lead to the same state. -/
theorem lowerLines_kept (lines : List SourceLine) :
    let kept := (state.lowerLines lib config lines).filter LineResult.isKept
    state.lowerLines lib config (kept.map LineResult.source) = kept ∧
      state.afterLines lib config (kept.map LineResult.source) = state.afterLines lib config lines := by
  induction lines generalizing state with
  | nil => exact ⟨rfl, rfl⟩
  | cons line lines ih =>
    have hrest := ih (state.lowerLine lib config line).state
    simp only [lowerLines]
    cases hkept : (state.lowerLine lib config line).isKept with
    | false =>
      rw [List.filter_cons_of_neg (by simp [hkept])]
      simp only [afterLines, List.foldl_cons, lowerLine_state lib config state hkept] at hrest ⊢
      exact hrest
    | true =>
      rw [List.filter_cons_of_pos hkept, List.map_cons, lowerLine_source]
      exact ⟨by rw [lowerLines, hrest.1], hrest.2⟩

end UnitState

/-! ## Diagnostics -/

namespace Diagnostic

/-- The diagnostic without its line, if it is about the end of a unit. -/
def unplaced (d : Diagnostic) : Diagnostic := if d.isFinal then { d with line := 0 } else d

end Diagnostic

/-- Apart from their lines, the diagnostics at the end of a unit follow from its state. -/
theorem UnitState.endDiagnostics_unplaced (config : UnitConfig) (state : UnitState) (line line' : Nat) :
    (state.endDiagnostics config line).map Diagnostic.unplaced =
      (state.endDiagnostics config line').map Diagnostic.unplaced := by
  simp only [endDiagnostics, List.map_map]
  refine List.map_congr_left fun failure _ => ?_
  simp only [Function.comp_apply, Diagnostic.unplaced, Diagnostic.isFinal, Diagnostic.withNote,
    UnitConfig.promote, Diagnostic.ofFailure]
  split <;> simp

theorem UnitState.isFinal_of_mem_endDiagnostics {config : UnitConfig} {state : UnitState} {line : Nat}
    {d : Diagnostic} (hd : d ∈ state.endDiagnostics config line) : d.isFinal = true := by
  obtain ⟨d', -, rfl⟩ := List.mem_map.mp hd
  simp [Diagnostic.isFinal, Diagnostic.withNote]

/-- The report of results lists what is reported about their lines. -/
theorem Report.lists_ofResults (lib : Library) (className : String) {results : List LineResult}
    {ends : List Diagnostic} (hresults : ∀ r ∈ results, r.reported.Fits)
    (hends : ∀ d ∈ ends, d.isFinal = true) :
    (Report.ofResults lib className results ends).Lists (results.map LineResult.reported) ends where
  items := by rw [List.map_map]; rfl
  diagnostics := by rw [List.flatMap_map]; rfl
  lines p hp := by
    obtain ⟨r, hr, rfl⟩ := List.mem_map.mp hp
    exact hresults r hr
  ends := hends

/-! ## Texts -/

namespace Text

/-- The text of some lines, each ended by a line feed. -/
def ofLines (ls : List String) : String := String.ofList (ls.flatMap fun line => line.toList ++ ['\n'])

theorem splitLines_passed {line : List Char} (h : '\n' ∉ line) (front rest : List Char) :
    splitLines front (line ++ rest) = splitLines (line.reverse ++ front) rest := by
  induction line generalizing front with
  | nil => rfl
  | cons c line ih =>
    obtain ⟨hc, hline⟩ := not_or.mp (fun hmem => h (List.mem_cons.mpr hmem))
    rw [List.cons_append, splitLines, if_neg (Ne.symm hc), ih hline, List.reverse_cons,
      List.append_assoc, List.singleton_append]

theorem splitLines_append {line : List Char} (h : '\n' ∉ line) (front rest : List Char) :
    splitLines front (line ++ '\n' :: rest) =
      closeLine (line.reverse ++ front) :: splitLines [] rest := by
  rw [splitLines_passed h, splitLines, if_pos rfl]

theorem mem_closeLine {front : List Char} {c : Char} (h : c ∈ (closeLine front).toList) : c ∈ front := by
  unfold closeLine at h
  split at h
  · rw [String.toList_ofList, List.mem_reverse] at h
    exact List.mem_cons_of_mem _ h
  · rwa [String.toList_ofList, List.mem_reverse] at h

theorem splitLines_noFeed {cs front : List Char} (hfront : '\n' ∉ front) :
    ∀ line ∈ splitLines front cs, '\n' ∉ line.toList := by
  induction cs generalizing front with
  | nil =>
    intro line hline
    rw [splitLines] at hline
    split at hline
    · cases hline
    · rwa [List.mem_singleton.mp hline, String.toList_ofList, List.mem_reverse]
  | cons c cs ih =>
    intro line hline
    rw [splitLines] at hline
    split at hline
    · rcases List.mem_cons.mp hline with rfl | hline
      · exact fun hmem => hfront (mem_closeLine hmem)
      · exact ih List.not_mem_nil line hline
    · rename_i hc
      refine ih (fun hmem => ?_) line hline
      exact (List.mem_cons.mp hmem).elim (fun heq => hc heq.symm) hfront

/-- Reading lines back may lose a carriage return at the end of a line. -/
theorem lines_ofLines {ls : List String} (h : ∀ line ∈ ls, '\n' ∉ line.toList) :
    lines (ofLines ls) = ls.map fun line => closeLine line.toList.reverse := by
  rw [lines, ofLines, String.toList_ofList]
  induction ls with
  | nil => rfl
  | cons line ls ih =>
    rw [List.flatMap_cons, List.append_assoc, List.singleton_append,
      splitLines_append (h line List.mem_cons_self), List.append_nil, List.map_cons,
      ih fun l hl => h l (List.mem_cons_of_mem _ hl)]

theorem splitBlank_append {c : Char} (hc : isBlank c = true) (field cs : List Char) :
    splitBlank field (cs ++ [c]) = splitBlank field cs := by
  induction cs generalizing field with
  | nil => simp [splitBlank, hc]
  | cons d cs ih => simp only [List.cons_append, splitBlank, ih]

end Text

namespace SourceLine

/-- A carriage return at its end does not change what a line holds. -/
theorem parse?_closeLine (number : Nat) (text : String) :
    parse? number (Text.closeLine text.toList.reverse) = parse? number text := by
  have hfields : Text.fields (String.ofList
      ((Text.closeLine text.toList.reverse).toList.takeWhile (· ≠ ';'))) =
      Text.fields (String.ofList (text.toList.takeWhile (· ≠ ';'))) := by
    unfold Text.closeLine
    split
    · rename_i cs hcs
      have htext : text.toList = cs.reverse ++ ['\r'] := by
        rw [← List.reverse_reverse text.toList, hcs, List.reverse_cons]
      rw [htext, String.toList_ofList, List.takeWhile_append]
      split
      · rename_i hlength
        have hall : cs.reverse.takeWhile (· ≠ ';') = cs.reverse :=
          (List.takeWhile_prefix _).eq_of_length hlength
        rw [hall, Text.fields, Text.fields, String.toList_ofList, String.toList_ofList]
        exact (Text.splitBlank_append (by decide) [] cs.reverse).symm
      · rfl
    · rw [String.toList_ofList, List.reverse_reverse]
  simp only [parse?, hfields]

/-- The lines of a text that hold something, with their positions among all lines. -/
def positioned (ls : List String) : List (Nat × SourceLine) :=
  ls.zipIdx.filterMap fun (line, i) => (parse? (min (i + 1) largestNumber) line).map (i, ·)

theorem map_positioned (ls : List String) :
    (positioned ls).map Prod.snd =
      ls.zipIdx.filterMap fun (line, i) => parse? (min (i + 1) largestNumber) line := by
  rw [positioned, List.map_filterMap]
  refine List.filterMap_congr fun x _ => ?_
  rw [Option.map_map]
  exact Option.map_id'

theorem ofText_eq (text : String) : ofText text = (positioned (Text.lines text)).map Prod.snd :=
  (map_positioned _).symm

/-- The positions of the lines that hold something. -/
def positions (ls : List String) : List Nat := (positioned ls).map Prod.fst

theorem positions_nodup (ls : List String) : (positions ls).Nodup := by
  have hindices : ls.zipIdx.Pairwise fun x y => x.2 < y.2 := by
    rw [← List.pairwise_map, List.zipIdx_map_snd]
    exact List.pairwise_lt_range'
  refine List.Pairwise.imp Nat.ne_of_lt ?_
  rw [positions, List.pairwise_map, positioned, List.pairwise_filterMap]
  refine hindices.imp fun hlt b hb b' hb' => ?_
  obtain ⟨_, -, rfl⟩ := Option.map_eq_some_iff.mp hb
  obtain ⟨_, -, rfl⟩ := Option.map_eq_some_iff.mp hb'
  exact hlt

theorem ofText_ofLines {ls : List String} (h : ∀ line ∈ ls, '\n' ∉ line.toList) :
    ofText (Text.ofLines ls) = (positioned ls).map Prod.snd := by
  rw [map_positioned, ofText, Text.lines_ofLines h, List.zipIdx_map, List.filterMap_map]
  refine List.filterMap_congr ?_
  rintro ⟨line, i⟩ -
  simp only [Function.comp_apply, Prod.map_apply, id_eq, parse?_closeLine]

end SourceLine

/-- The positions of the lines of the text that a report rejects. Its items are in the order of the lines
that hold something. -/
def Report.rejectedPositions (r : Report) (text : String) : List Nat :=
  (((SourceLine.positions (Text.lines text)).zip r.items).filter (·.2.isRejected)).map Prod.fst

/-- The text with blank lines at the given positions. -/
def blankLines (positions : List Nat) (text : String) : String :=
  Text.ofLines ((Text.lines text).zipIdx.map fun (line, i) => if i ∈ positions then "" else line)

theorem ofText_blankLines (positions : List Nat) (text : String) :
    SourceLine.ofText (blankLines positions text) =
      ((SourceLine.positioned (Text.lines text)).filter (·.1 ∉ positions)).map Prod.snd := by
  have hfeed : ∀ line ∈ (Text.lines text).zipIdx.map (fun (line, i) =>
      if i ∈ positions then "" else line), '\n' ∉ line.toList := by
    intro line hline
    obtain ⟨⟨line', i⟩, hmem, rfl⟩ := List.mem_map.mp hline
    simp only
    split
    · exact List.not_mem_nil
    · exact Text.splitLines_noFeed List.not_mem_nil line' (List.fst_mem_of_mem_zipIdx hmem)
  rw [blankLines, SourceLine.ofText_ofLines hfeed, SourceLine.positioned, SourceLine.positioned]
  clear hfeed
  congr 1
  generalize Text.lines text = ls
  generalize 0 = first
  induction ls generalizing first with
  | nil => rfl
  | cons line ls ih =>
    have hrest := ih (first + 1)
    simp only [List.zipIdx_cons, List.map_cons, List.filterMap_cons]
    by_cases hblank : first ∈ positions
    · rw [if_pos hblank]
      show List.filterMap _ _ = _
      split
      · exact hrest
      · rename_i source hsource
        obtain ⟨_, -, rfl⟩ := Option.map_eq_some_iff.mp hsource
        rw [List.filter_cons_of_neg (by simp [hblank])]
        exact hrest
    · rw [if_neg hblank]
      split
      · exact hrest
      · rename_i source hsource
        obtain ⟨_, -, rfl⟩ := Option.map_eq_some_iff.mp hsource
        rw [List.filter_cons_of_pos (by simp [hblank]), hrest]

/-- As long as no position occurs twice, one that is selected belongs to a pair that is selected. -/
theorem fst_mem_filter_iff {α β : Type} {pairs : List (α × β)} (hnodup : (pairs.map Prod.fst).Nodup)
    {p : α × β → Bool} {x : α × β} (hx : x ∈ pairs) :
    x.1 ∈ (pairs.filter p).map Prod.fst ↔ p x = true := by
  refine ⟨fun hmem => ?_, fun hp => List.mem_map_of_mem (List.mem_filter.mpr ⟨hx, hp⟩)⟩
  obtain ⟨y, hy, hsame⟩ := List.mem_map.mp hmem
  obtain ⟨hy, hp⟩ := List.mem_filter.mp hy
  rwa [← List.inj_on_of_nodup_map hnodup hy hx hsame]

/-- The lines of a text that are not at a rejected position are those that were kept. -/
theorem positioned_kept {text : String} {results : List LineResult} {r : Report}
    (hitems : r.items = results.map LineResult.item)
    (hsource : results.map LineResult.source = SourceLine.ofText text) :
    ((SourceLine.positioned (Text.lines text)).filter (·.1 ∉ r.rejectedPositions text)).map Prod.snd =
      (results.filter LineResult.isKept).map LineResult.source := by
  let pairs := (SourceLine.positions (Text.lines text)).zip results
  have hlength : (SourceLine.positions (Text.lines text)).length = results.length := by
    rw [← List.length_map LineResult.source, hsource, SourceLine.ofText_eq, SourceLine.positions,
      List.length_map, List.length_map]
  have hpositioned : SourceLine.positioned (Text.lines text) =
      pairs.map (Prod.map id LineResult.source) := by
    rw [← List.zip_map_right, hsource]
    exact List.zip_of_prod rfl (SourceLine.ofText_eq text).symm
  have hnodup : (pairs.map Prod.fst).Nodup := by
    rw [List.map_fst_zip (Nat.le_of_eq hlength)]
    exact SourceLine.positions_nodup _
  have hresults : pairs.map Prod.snd = results := List.map_snd_zip (Nat.le_of_eq hlength.symm)
  have hrejected : r.rejectedPositions text = (pairs.filter (·.2.item.isRejected)).map Prod.fst := by
    rw [Report.rejectedPositions, hitems, List.zip_map_right, List.filter_map, List.map_map]
    rfl
  -- As no position occurs twice, a line is at a rejected position exactly if it is rejected itself.
  have hkept : ∀ x ∈ pairs, decide (x.1 ∉ r.rejectedPositions text) = x.2.isKept := by
    intro x hx
    simp [hrejected, fst_mem_filter_iff hnodup hx, LineResult.isKept]
  calc ((SourceLine.positioned (Text.lines text)).filter (·.1 ∉ r.rejectedPositions text)).map Prod.snd
    _ = (pairs.filter fun x => decide (x.1 ∉ r.rejectedPositions text)).map (·.2.source) := by
      rw [hpositioned, List.filter_map, List.map_map]
      rfl
    _ = (pairs.filter (·.2.isKept)).map (·.2.source) := by rw [List.filter_congr hkept]
    _ = ((pairs.map Prod.snd).filter LineResult.isKept).map LineResult.source := by
      rw [List.filter_map, List.map_map]
      rfl
    _ = (results.filter LineResult.isKept).map LineResult.source := by rw [hresults]

/-! ## Reports -/

theorem primitives_kept (items : List Item) :
    (items.filter (!·.isRejected)).flatMap Item.primitives = items.flatMap Item.primitives := by
  induction items with
  | nil => rfl
  | cons item items ih =>
    cases item with
    | rejected source => exact ih
    | label | instruction =>
      rw [List.filter_cons_of_pos rfl, List.flatMap_cons, List.flatMap_cons, ih]

/-- The report of a unit that keeps going lists the results of its lines, and what is open at its end. -/
theorem lowerText_lists (lib : Library) {config : UnitConfig} (hpolicy : config.policy = .keepGoing)
    (text : String) :
    ∃ r line, lowerText lib config text = .ok r ∧
      r.Lists ((UnitState.lowerLines lib config {} (SourceLine.ofText text)).map LineResult.reported)
        ((UnitState.afterLines lib config {} (SourceLine.ofText text)).endDiagnostics config line) := by
  have hgoes : config.policy ≠ .stop := by simp [hpolicy]
  refine ⟨_, SourceLine.lastNumber 0 (SourceLine.ofText text),
    lowerText_unstopped fun hstop => absurd hstop hgoes, ?_⟩
  exact Report.lists_ofResults lib config.className (UnitState.lowerLines_fits lib config {} _)
    fun d hd => UnitState.isFinal_of_mem_endDiagnostics hd

/-- Lowering a text that keeps going gives a report, and so does lowering it again with its rejected
lines made blank. The second report rejects nothing. It says the same as the first about each of the other
lines, item and diagnostics, and nothing about the rejected ones. So it has the same primitives and call
sites. What both say about the end of the unit is the same, too, except that it may be at another line. -/
theorem lowerText_blankLines (lib : Library) (config : UnitConfig) (hpolicy : config.policy = .keepGoing)
    (text : String) :
    ∃ r r' lines ends ends', lowerText lib config text = .ok r ∧ r.Lists lines ends ∧
      lowerText lib config (blankLines (r.rejectedPositions text) text) = .ok r' ∧
      r'.Lists (lines.filter (!·.item.isRejected)) ends' ∧
      ends'.map Diagnostic.unplaced = ends.map Diagnostic.unplaced ∧
      (∀ item ∈ r'.items, item.isRejected = false) ∧ r'.items = r.items.filter (!·.isRejected) ∧
      r'.primitives = r.primitives ∧ r'.callSites = r.callSites := by
  obtain ⟨r, line, hr, hlists⟩ := lowerText_lists lib hpolicy text
  obtain ⟨r', line', hr', hlists'⟩ :=
    lowerText_lists lib hpolicy (blankLines (r.rejectedPositions text) text)
  have hsource := UnitState.lowerLines_source lib config {} (SourceLine.ofText text)
  have hkept := UnitState.lowerLines_kept lib config {} (SourceLine.ofText text)
  generalize UnitState.lowerLines lib config {} (SourceLine.ofText text) = results at *
  -- What is left of the text is the lines that were kept, and these have the results they had.
  have hlines : SourceLine.ofText (blankLines (r.rejectedPositions text) text) =
      (results.filter LineResult.isKept).map LineResult.source := by
    rw [ofText_blankLines, positioned_kept (by rw [hlists.items, List.map_map]; rfl) hsource]
  have hfilter : (results.filter LineResult.isKept).map LineResult.reported =
      (results.map LineResult.reported).filter (!·.item.isRejected) := by
    rw [List.filter_map]
    rfl
  rw [hlines, hkept.1, hkept.2, hfilter] at hlists'
  have hitems : r'.items = r.items.filter (!·.isRejected) := by
    rw [hlists'.items, hlists.items]
    simp only [List.filter_map, Function.comp_def]
  have hprimitives : r'.primitives = r.primitives := by
    rw [Report.primitives, hitems, primitives_kept, Report.primitives]
  refine ⟨r, r', _, _, _, hr, hlists, hr', hlists', ?_, ?_, hitems, hprimitives, ?_⟩
  · exact UnitState.endDiagnostics_unplaced config _ line' line
  · intro item hitem
    rw [hitems] at hitem
    simpa using (List.mem_filter.mp hitem).2
  · rw [Report.callSites, hprimitives, Report.callSites]

/-- A block in which an `if` is rejected for its operand, after it has taken labels and opened its
arm. -/
def ifWithOperand : String := "BLOCK\nIF 1\nSELECT I32 ; takes a label\nEND"

theorem ifWithOperand_lowerText_blankLines :
    ({} : UnitConfig).policy = .keepGoing ∧
    ∃ r r', lowerText Catalog.wasm32Library {} ifWithOperand = .ok r ∧
      r.rejectedPositions ifWithOperand = [1] ∧
      lowerText Catalog.wasm32Library {} (blankLines [1] ifWithOperand) = .ok r' ∧
      r'.items = r.items.filter (!·.isRejected) ∧ r'.primitives = r.primitives := by
  have hevaluated : (lowerText Catalog.wasm32Library {} ifWithOperand).toOption.map
      (·.rejectedPositions ifWithOperand) = some [1] := by
    decide +kernel
  obtain ⟨r, r', lines, ends, ends', hr, -, hr', -, -, -, hitems, hprimitives, -⟩ :=
    lowerText_blankLines Catalog.wasm32Library {} rfl ifWithOperand
  rw [hr] at hevaluated
  have hrejected : r.rejectedPositions ifWithOperand = [1] := Option.some.inj hevaluated
  exact ⟨rfl, r, r', hr, hrejected, hrejected ▸ hr', hitems, hprimitives⟩

end Lowering
