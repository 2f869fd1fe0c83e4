-- SUMMARY: Expanding the lines of a structured program gives code of its shape.
import Lowering.Proofs.Control.Expansion
import Lowering.Proofs.Control.Simulation
import Lowering.Proofs.Roles
import Lowering.Proofs.Shipped

/-!
# Lowering structured programs

In a library with the control instructions of WebAssembly, the lines of every well-nested program expand,
and what they expand to has the shape of the program. The labels of the shape are those of the constructs
that are open while the lines between are expanded.
-/

namespace Lowering

/-! ## The control instructions of WebAssembly -/

/-- The library has the control instructions of WebAssembly. -/
structure Library.Structured (lib : Library) : Prop where
  isa : lib.table.isa = jvm
  block : lib.Performs "BLOCK" [] .block
  loop : lib.Performs "LOOP" [] .loop
  ifThen (t : WasmTest) : lib.Performs t.val.ifName t.val.setup (.ifThen t.val.condition)
  elseArm : lib.Performs "ELSE" [] .elseArm
  close : lib.Performs "END" [] .close
  branch : lib.Performs "BR" [] .branch
  branchIf (t : WasmTest) : lib.Performs t.val.branchName t.val.setup (.branchIf t.val.condition)
  branchTable : lib.Performs "BR_TABLE" [] .branchTable
  exit : lib.Performs "RETURN" [] .exit

/-- The entry that operations call after emitting the instructions `setup`, if that is all they do. -/
def calledAfter? : List String → List Op → Option String
  | [], [.call callee] => some callee
  | opcode :: setup, .act (.emit opcode') :: ops =>
    if opcode = opcode' then calledAfter? setup ops else none
  | _, _ => none

theorem calledAfter?_eq_some {setup : List String} {ops : List Op} {callee : String}
    (h : calledAfter? setup ops = some callee) : ops = setup.map Op.emit ++ [.call callee] := by
  fun_induction calledAfter? setup ops with
  | case1 callee' =>
    cases h
    rfl
  | case2 opcode setup ops ih => rw [ih h, List.map_cons, List.cons_append, Op.emit]
  | case3 => cases h
  | case4 => cases h

def performsOnly (kind : ControlKind) : List Op → Bool
  | [.act (.control kind')] => decide (kind' = kind)
  | _ => false

/-- Whether the mnemonic names an entry that performs a control action, by the search tree. -/
def Table.performs (t : Table) (mnemonic : String) (setup : List String) (kind : ControlKind) : Bool :=
  match t.locate? mnemonic with
  | none => false
  | some (e, _) =>
    decide (e.visibility = .external) && e.type.isNone &&
    setup.all (fun opcode => decide (t.isa.find? opcode = some ⟨opcode, .none⟩)) &&
    match (calledAfter? setup e.body).bind t.locate? with
    | none => false
    | some (e', _) => e'.type.isNone && performsOnly kind e'.body

theorem Library.performs_of_eval {lib : Library} {mnemonic : String} {setup : List String}
    {kind : ControlKind} (h : lib.table.performs mnemonic setup kind = true) :
    lib.Performs mnemonic setup kind := by
  unfold Table.performs at h
  split at h
  · cases h
  · rename_i e i hlocate
    obtain ⟨hentry, rfl⟩ := Table.locate?_eq_some hlocate
    simp only [Bool.and_eq_true, List.all_eq_true, decide_eq_true_eq, Option.isNone_iff_eq_none] at h
    obtain ⟨⟨⟨hexternal, htype⟩, hsetup⟩, h⟩ := h
    obtain ⟨id, hlookup⟩ := lib.lookup_name (List.mem_of_getElem? hentry) hexternal
    split at h
    · cases h
    · rename_i e' i' hcallee
      obtain ⟨callee, hcalled, hlocate'⟩ := Option.bind_eq_some_iff.mp hcallee
      simp only [Bool.and_eq_true, Option.isNone_iff_eq_none] at h
      have hfind : lib.table.find? callee = some e' := by
        rw [Table.find?_eq_locate?, hlocate', Option.map_some]
      have hbody : e'.body = [.control kind] := by
        have honly := h.2
        unfold performsOnly at honly
        split at honly
        · rename_i hops
          rw [hops, of_decide_eq_true honly, Op.control]
        · cases honly
      exact ⟨id, e, hlookup, htype, callee, e', calledAfter?_eq_some hcalled, hfind, h.1, hbody, hsetup⟩

theorem Catalog.wasm32_structured : Catalog.wasm32Library.Structured := by
  have hrows : ([("BLOCK", .block), ("LOOP", .loop), ("ELSE", .elseArm), ("END", .close),
      ("BR", .branch), ("BR_TABLE", .branchTable), ("RETURN", .exit)].all
        fun row => Catalog.wasm32.performs row.1 [] row.2) = true := by
    decide +kernel
  have htests : (Test.all.all fun t =>
      Catalog.wasm32.performs t.ifName t.setup (.ifThen t.condition) &&
        Catalog.wasm32.performs t.branchName t.setup (.branchIf t.condition)) = true := by
    decide +kernel
  simp only [List.all_cons, List.all_nil, Bool.and_true, Bool.and_eq_true] at hrows
  simp only [List.all_eq_true, Bool.and_eq_true] at htests
  obtain ⟨hblock, hloop, helse, hclose, hbranch, htable, hexit⟩ := hrows
  open Library in
  exact
    { isa := rfl
      block := performs_of_eval hblock
      loop := performs_of_eval hloop
      ifThen := fun t => performs_of_eval (htests t.val t.property).1
      elseArm := performs_of_eval helse
      close := performs_of_eval hclose
      branch := performs_of_eval hbranch
      branchIf := fun t => performs_of_eval (htests t.val t.property).2
      branchTable := performs_of_eval htable
      exit := performs_of_eval hexit }

/-! ## Expanding lines -/

/-- Expands lines in order, up to the first that fails. -/
def UnitState.expandAll (lib : Library) (className : String) :
    UnitState → List Line → Except Failure (List Primitive × UnitState)
  | state, [] => .ok ([], state)
  | state, line :: lines =>
    match state.expand lib className line.1 line.2 with
    | (.error failure, _) => .error failure
    | (.ok x, state) => do
      let (ps, state) ← expandAll lib className state lines
      return (x.primitives ++ ps, state)

/-- In the state, the line expands to the primitives, which are instructions and dynamic calls, and the
instruction opens or closes nothing. -/
def UnitState.Straight (lib : Library) (className : String) (state : UnitState) (line : Line)
    (ps : List Primitive) : Prop :=
  (∃ id e, lib.lookup line.1 = .ok (id, e) ∧ e.role = .none) ∧
    (∃ state', state.Expands lib className line ps state') ∧ ∀ p ∈ ps, p.isStraight = true

/-- Each line with recorded primitives is straight-line and expands to these, in the state in which the
lines before it have been expanded. -/
def UnitState.Recorded (lib : Library) (className : String) :
    UnitState → List (Line × Option (List Primitive)) → Prop
  | _, [] => True
  | state, (line, recorded) :: rest =>
    (∀ ps, recorded = some ps → state.Straight lib className line ps) ∧
      ∀ ps state', state.Expands lib className line ps state' → Recorded lib className state' rest

namespace UnitState

/-- Whether the mnemonic selects an entry that opens and closes nothing. -/
def selectsPlain (lib : Library) (mnemonic : String) : Bool :=
  match lib.lookup mnemonic with
  | .ok (_, e) => decide (e.role = .none)
  | .error _ => false

/-- Whether the lines are recorded, by expanding them. -/
def recorded (lib : Library) (className : String) :
    UnitState → List (Line × Option (List Primitive)) → Bool
  | _, [] => true
  | state, (line, recorded?) :: rest =>
    match state.expand lib className line.1 line.2 with
    | (.error _, _) => recorded?.isNone
    | (.ok x, state') =>
      recorded?.all (fun ps => selectsPlain lib line.1 && decide (x.primitives = ps) &&
        ps.all Primitive.isStraight) && recorded lib className state' rest

variable {lib : Library} {className : String} {state state₁ state' : UnitState}

theorem recorded_of_eval {records : List (Line × Option (List Primitive))}
    (h : state.recorded lib className records = true) : state.Recorded lib className records := by
  induction records generalizing state with
  | nil => trivial
  | cons record rest ih =>
    obtain ⟨line, recorded?⟩ := record
    rw [recorded] at h
    split at h
    · rename_i hexpand
      refine ⟨fun ps hps => ?_, fun ps state' hline => ?_⟩
      · rw [hps] at h
        cases h
      · obtain ⟨x, hok, -⟩ := hline
        cases hok.symm.trans hexpand
    · rename_i x state₁ hexpand
      simp only [Bool.and_eq_true] at h
      refine ⟨fun ps hps => ?_, fun ps state' hline => ?_⟩
      · have hstraight := h.1
        rw [hps] at hstraight
        simp only [Option.all_some, Bool.and_eq_true, decide_eq_true_eq, List.all_eq_true] at hstraight
        obtain ⟨⟨hplain, hprimitives⟩, hall⟩ := hstraight
        refine ⟨?_, ⟨state₁, x, hexpand, hprimitives⟩, hall⟩
        unfold selectsPlain at hplain
        split at hplain
        · exact ⟨_, _, ‹_›, of_decide_eq_true hplain⟩
        · cases hplain
      · obtain ⟨x', hok, -⟩ := hline
        cases hok.symm.trans hexpand
        exact ih h.2

theorem expandAll_cons {line : Line} {ps : List Primitive}
    (hline : state.Expands lib className line ps state₁) {lines : List Line} {code : List Primitive}
    (hlines : state₁.expandAll lib className lines = .ok (code, state')) :
    state.expandAll lib className (line :: lines) = .ok (ps ++ code, state') := by
  obtain ⟨x, hexpand, rfl⟩ := hline
  rw [expandAll, hexpand]
  exact bind_of_ok hlines _

/-- Lines expand if the first one does, and then the others in the state that it leaves. -/
theorem expandAll_cons_eq_ok {line : Line} {lines : List Line} {code : List Primitive}
    (h : state.expandAll lib className (line :: lines) = .ok (code, state')) :
    ∃ ps state₁ code', state.Expands lib className line ps state₁ ∧
      state₁.expandAll lib className lines = .ok (code', state') ∧ code = ps ++ code' := by
  rw [expandAll] at h
  split at h
  · cases h
  · rename_i x state₁ hexpand
    obtain ⟨⟨code', state₂⟩, hlines, h⟩ := ok_of_bind_ok h
    cases h
    exact ⟨_, state₁, code', ⟨x, hexpand, rfl⟩, hlines, rfl⟩

theorem expandAll_append {lines lines' : List Line} {code code' : List Primitive}
    (h : state.expandAll lib className lines = .ok (code, state₁))
    (h' : state₁.expandAll lib className lines' = .ok (code', state')) :
    state.expandAll lib className (lines ++ lines') = .ok (code ++ code', state') := by
  induction lines generalizing state code with
  | nil =>
    cases h
    exact h'
  | cons line lines ih =>
    obtain ⟨ps, state₂, code₂, hline, hlines, rfl⟩ := expandAll_cons_eq_ok h
    rw [List.cons_append, List.append_assoc]
    exact expandAll_cons hline (ih hlines)

theorem Straight.frames_eq {line : Line} {ps ps' : List Primitive}
    (h : state.Straight lib className line ps)
    (hline : state.Expands lib className line ps' state') :
    state'.nesting.frames = state.nesting.frames := by
  obtain ⟨⟨id, e, hlookup, hrole⟩, -⟩ := h
  obtain ⟨x, hexpand, -⟩ := hline
  exact expand_frames hlookup hrole hexpand

end UnitState

/-- What a test emits, with its setup. -/
theorem Test.code_eq {isa : InstructionSet} (hisa : isa = jvm) (t : Test) (negated : Bool)
    (target : Label) :
    plainInsns t.setup ++ (isa.test t.condition negated).primitives (.generated target) =
      t.code negated target := by
  rw [hisa, Test.code, Test.front, List.append_assoc]
  rfl

/-! ## Expanding programs -/

namespace Program

/-- The lines of the program expand to code of its shape, and the constructs that were open before are
open after it. The lines of `rest`, which follow the program, are recorded from there on. -/
structure LowersTo (lib : Library) (className : String) (rest : List (Line × Option (List Primitive)))
    (p : Program) (state : UnitState) (code : List Primitive) (state' : UnitState) : Prop where
  expands : state.expandAll lib className p.lines = .ok (code, state')
  frames : state'.nesting.frames = state.nesting.frames
  lowered : p.Lowered (state.nesting.frames.map Frame.branchTarget) code
  recorded : state'.Recorded lib className rest

variable {lib : Library} {className : String}

/-- After the body of a construct come the labels of its end, and then what follows it. -/
theorem LowersTo.close (hlib : lib.Structured) {rest : List (Line × Option (List Primitive))}
    {body next : Program} {state₁ state₂ : UnitState} {b : List Primitive} {frame : Frame}
    {outer : List Frame} (hframes : state₁.nesting.frames = frame :: outer)
    (hbody : LowersTo lib className ((("END", []), none) :: (next.records ++ rest)) body state₁ b state₂)
    (hnext : ∀ state₃ : UnitState, state₃.nesting.frames = outer →
      state₃.Recorded lib className (next.records ++ rest) →
      ∃ c state', LowersTo lib className rest next state₃ c state') :
    ∃ c state', state₁.expandAll lib className (body.lines ++ ("END", []) :: next.lines) =
        .ok (b ++ (Scope.closingLabels frame ++ c), state') ∧
      state'.nesting.frames = outer ∧ next.Lowered (outer.map Frame.branchTarget) c ∧
      state'.Recorded lib className rest := by
  have hend := hlib.close.close className (hbody.frames.trans hframes)
  obtain ⟨c, state', hc⟩ := hnext _ rfl (hbody.recorded.2 _ _ hend)
  exact ⟨c, state', UnitState.expandAll_append hbody.expands (UnitState.expandAll_cons hend hc.expands),
    hc.frames, hc.lowered, hc.recorded⟩

/-- A construct without another arm: its opening, its body, its end, and what follows it. -/
theorem LowersTo.enclose (hlib : lib.Structured) {rest : List (Line × Option (List Primitive))}
    {body next : Program} {state state₁ : UnitState} {line : Line} {ps : List Primitive} {frame : Frame}
    (hopen : state.Expands lib className line ps state₁)
    (hframes : state₁.nesting.frames = frame :: state.nesting.frames)
    (hrecorded : state.Recorded lib className
      (((line, none) :: (body.records ++ (("END", []), none) :: next.records)) ++ rest))
    (hbody : ∀ rest, state₁.Recorded lib className (body.records ++ rest) →
      ∃ b state₂, LowersTo lib className rest body state₁ b state₂)
    (hnext : ∀ state₃ : UnitState, state₃.nesting.frames = state.nesting.frames →
      state₃.Recorded lib className (next.records ++ rest) →
      ∃ c state', LowersTo lib className rest next state₃ c state') :
    ∃ b c state', state.expandAll lib className
        (List.map Prod.fst ((line, none) :: (body.records ++ (("END", []), none) :: next.records))) =
          .ok (ps ++ (b ++ (Scope.closingLabels frame ++ c)), state') ∧
      state'.nesting.frames = state.nesting.frames ∧
      body.Lowered (frame.branchTarget :: state.nesting.frames.map Frame.branchTarget) b ∧
      next.Lowered (state.nesting.frames.map Frame.branchTarget) c ∧
      state'.Recorded lib className rest := by
  rw [List.cons_append, List.append_assoc, List.cons_append] at hrecorded
  obtain ⟨b, state₂, hb⟩ := hbody _ (hrecorded.2 _ _ hopen)
  obtain ⟨c, state', hexpands, hframes', hc, hrest⟩ := hb.close hlib hframes hnext
  have hlowered := hb.lowered
  rw [hframes, List.map_cons] at hlowered
  refine ⟨b, c, state', ?_, hframes', hlowered, hc, hrest⟩
  rw [List.map_cons, List.map_append, List.map_cons]
  exact UnitState.expandAll_cons hopen hexpands

theorem exists_frames {frames : List Frame} {depths : List Depth}
    (h : ∀ d ∈ depths, d.value < frames.length) :
    ∃ chosen : List Frame, depths.map (fun d => frames[d.value]?) = chosen.map some := by
  induction depths with
  | nil => exact ⟨[], rfl⟩
  | cons d depths ih =>
    obtain ⟨chosen, hchosen⟩ := ih fun d hd => h d (List.mem_cons_of_mem _ hd)
    have hd := List.getElem?_eq_getElem (h d List.mem_cons_self)
    exact ⟨_ :: chosen, by rw [List.map_cons, hd, hchosen, List.map_cons]⟩

/-- Wherever its branches have constructs to go to and its lines are recorded, the program expands to code
of its shape. -/
def Lowers (lib : Library) (className : String) (p : Program) : Prop :=
  ∀ {rest : List (Line × Option (List Primitive))} {state : UnitState},
    state.Recorded lib className (p.records ++ rest) → p.Scoped state.nesting.frames.length →
      ∃ code state', LowersTo lib className rest p state code state'

namespace Lowers

variable {next : Program}

theorem done : Lowers lib className done :=
  fun hrecorded _ => ⟨[], _, rfl, rfl, rfl, hrecorded⟩

theorem plain (line : Line) (ps : List Primitive) (ih : Lowers lib className next) :
    Lowers lib className (plain line ps next) := by
  intro rest state ⟨hline, hrest⟩ hscoped
  obtain ⟨state₁, hexpands⟩ := (hline ps rfl).2.1
  have hframes := (hline ps rfl).frames_eq hexpands
  obtain ⟨code, state', h⟩ := ih (hrest _ _ hexpands) (by rw [hframes]; exact hscoped)
  have hlowered := h.lowered
  rw [hframes] at hlowered
  exact ⟨ps ++ code, state', UnitState.expandAll_cons hexpands h.expands, h.frames.trans hframes,
    ⟨(hline ps rfl).2.2, code, hlowered, rfl⟩, h.recorded⟩

/-! ### Constructs -/

theorem block (hlib : lib.Structured) {body : Program} (ihbody : Lowers lib className body)
    (ihnext : Lowers lib className next) : Lowers lib className (block body next) := by
  intro rest state hrecorded hscoped
  have hopen := hlib.block.block className state
  obtain ⟨b, c, state', hexpands, hframes, hbody, hnext, hrest⟩ := LowersTo.enclose hlib hopen rfl
    hrecorded (fun _ h => ihbody h hscoped.1) fun _ hframes h => ihnext h (hframes ▸ hscoped.2)
  exact ⟨_, state', hexpands, hframes, ⟨_, b, c, hbody, hnext, rfl⟩, hrest⟩

theorem loop (hlib : lib.Structured) {body : Program} (ihbody : Lowers lib className body)
    (ihnext : Lowers lib className next) : Lowers lib className (loop body next) := by
  intro rest state hrecorded hscoped
  have hopen := hlib.loop.loop className state
  obtain ⟨b, c, state', hexpands, hframes, hbody, hnext, hrest⟩ := LowersTo.enclose hlib hopen rfl
    hrecorded (fun _ h => ihbody h hscoped.1) fun _ hframes h => ihnext h (hframes ▸ hscoped.2)
  exact ⟨_, state', hexpands, hframes, ⟨_, _, b, c, hbody, hnext, rfl⟩, hrest⟩

theorem ifThen (hlib : lib.Structured) (test : WasmTest) {arm : Program}
    (iharm : Lowers lib className arm) (ihnext : Lowers lib className next) :
    Lowers lib className (ifThen test arm next) := by
  intro rest state hrecorded hscoped
  have hopen := (hlib.ifThen test).ifThen className state
  rw [Test.code_eq hlib.isa] at hopen
  obtain ⟨a, c, state', hexpands, hframes, harm, hnext, hrest⟩ := LowersTo.enclose hlib hopen rfl
    hrecorded (fun _ h => iharm h hscoped.1) fun _ hframes h => ihnext h (hframes ▸ hscoped.2)
  exact ⟨_, state', hexpands, hframes, ⟨_, _, a, c, harm, hnext, rfl⟩, hrest⟩

theorem ifElse (hlib : lib.Structured) (test : WasmTest) {arm other : Program}
    (iharm : Lowers lib className arm) (ihother : Lowers lib className other)
    (ihnext : Lowers lib className next) : Lowers lib className (ifElse test arm other next) := by
  intro rest state hrecorded hscoped
  rw [records, List.cons_append, List.append_assoc, List.cons_append, List.append_assoc,
    List.cons_append] at hrecorded
  have hopen := (hlib.ifThen test).ifThen className state
  rw [Test.code_eq hlib.isa] at hopen
  obtain ⟨a, state₂, harm⟩ := iharm (hrecorded.2 _ _ hopen) hscoped.1
  have hswitch := hlib.elseArm.elseArm className harm.frames rfl rfl
  obtain ⟨b, state₃, hother⟩ := ihother (harm.recorded.2 _ _ hswitch) hscoped.2.1
  obtain ⟨c, state', hexpands, hframes, hnext, hrest⟩ := hother.close hlib rfl
    fun state₃ hframes₃ hrecorded₃ => ihnext hrecorded₃ (hframes₃ ▸ hscoped.2.2)
  rw [hlib.isa] at hswitch
  refine ⟨_, state', ?_, hframes, ⟨(state.nesting.openIf test.val.ifName).1,
    state.nesting.counter.next, a, b, c, harm.lowered, hother.lowered, hnext, rfl⟩, hrest⟩
  simp only [lines, records, List.map_cons, List.map_append]
  exact UnitState.expandAll_cons hopen
    (UnitState.expandAll_append harm.expands (UnitState.expandAll_cons hswitch hexpands))

/-! ### Branches -/

theorem branch (hlib : lib.Structured) (depth : Depth) (ih : Lowers lib className next) :
    Lowers lib className (branch depth next) := by
  intro rest state hrecorded hscoped
  have hframe := List.getElem?_eq_getElem hscoped.1
  have hline := hlib.branch.branch className depth hframe
  obtain ⟨c, state', h⟩ := ih (hrecorded.2 _ _ hline) hscoped.2
  rw [hlib.isa] at hline
  exact ⟨_, state', UnitState.expandAll_cons hline h.expands, h.frames,
    ⟨_, c, by rw [List.getElem?_map, hframe]; rfl, h.lowered, rfl⟩, h.recorded⟩

theorem branchIf (hlib : lib.Structured) (test : WasmTest) (depth : Depth)
    (ih : Lowers lib className next) : Lowers lib className (branchIf test depth next) := by
  intro rest state hrecorded hscoped
  have hframe := List.getElem?_eq_getElem hscoped.1
  have hline := (hlib.branchIf test).branchIf className depth hframe
  rw [Test.code_eq hlib.isa] at hline
  obtain ⟨c, state', h⟩ := ih (hrecorded.2 _ _ hline) hscoped.2
  exact ⟨_, state', UnitState.expandAll_cons hline h.expands, h.frames,
    ⟨_, c, by rw [List.getElem?_map, hframe]; rfl, h.lowered, rfl⟩, h.recorded⟩

theorem branchTable (hlib : lib.Structured) (depths : List Depth) (last : Depth)
    (ih : Lowers lib className next) : Lowers lib className (branchTable depths last next) := by
  intro rest state hrecorded hscoped
  obtain ⟨frames, hframes⟩ := exists_frames fun d hd => hscoped.1 d (List.mem_append_left _ hd)
  obtain ⟨default, hlast⟩ : ∃ f, state.nesting.frames[last.value]? = some f :=
    ⟨_, List.getElem?_eq_getElem (hscoped.1 last (List.mem_append_right _ List.mem_cons_self))⟩
  have hline := hlib.branchTable.branchTable className depths last hframes hlast
  obtain ⟨c, state', h⟩ := ih (hrecorded.2 _ _ hline) hscoped.2
  rw [hlib.isa] at hline
  have hdepths : depths.map (fun d => (state.nesting.frames.map Frame.branchTarget)[d.value]?) =
      (frames.map Frame.branchTarget).map some := by
    have htargets := congrArg (List.map (Option.map Frame.branchTarget)) hframes
    simpa only [List.map_map, Function.comp_def, List.getElem?_map, Option.map_some] using htargets
  refine ⟨_, state', UnitState.expandAll_cons hline h.expands, h.frames,
    ⟨frames.map Frame.branchTarget, default.branchTarget, c, hdepths, ?_, h.lowered, ?_⟩, h.recorded⟩
  · rw [List.getElem?_map, hlast]
    rfl
  · rw [List.map_map]
    rfl

theorem exit (hlib : lib.Structured) (result : Option ResultType) (ih : Lowers lib className next) :
    Lowers lib className (exit result next) := by
  intro rest state hrecorded hscoped
  have hline : state.Expands lib className _ _ state := hlib.exit.exit className result
  obtain ⟨c, state', h⟩ := ih (hrecorded.2 _ _ hline) hscoped
  rw [hlib.isa] at hline
  exact ⟨_, state', UnitState.expandAll_cons hline h.expands, h.frames, ⟨c, h.lowered, rfl⟩,
    h.recorded⟩

end Lowers

/-- The lines of a well-nested program expand to code of its shape. -/
theorem lowers (hlib : lib.Structured) (p : Program) : Lowers lib className p := by
  induction p with
  | done => exact Lowers.done
  | plain line ps next ih => exact Lowers.plain line ps ih
  | block body next ihbody ihnext => exact Lowers.block hlib ihbody ihnext
  | loop body next ihbody ihnext => exact Lowers.loop hlib ihbody ihnext
  | ifThen test arm next iharm ihnext => exact Lowers.ifThen hlib test iharm ihnext
  | ifElse test arm other next iharm ihother ihnext => exact Lowers.ifElse hlib test iharm ihother ihnext
  | branch depth next ih => exact Lowers.branch hlib depth ih
  | branchIf test depth next ih => exact Lowers.branchIf hlib test depth ih
  | branchTable depths last next ih => exact Lowers.branchTable hlib depths last ih
  | exit result next ih => exact Lowers.exit hlib result ih

end Program

end Lowering
