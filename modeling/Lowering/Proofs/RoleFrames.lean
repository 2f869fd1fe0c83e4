-- SUMMARY: The declared role of an entry says what becomes of the open constructs, and where its line stands.
import Lowering.Jvm.InstructionSet
import Lowering.Proofs.Nesting
import Lowering.Proofs.Roles

/-!
# Roles and open constructs

The role of an entry is checked once, against all actions that it can reach, those of arms that are not
taken included. What an instruction does comes from the actions that it performs. These can only be of
its role, so the role bounds what becomes of the open constructs, and it fixes the indentation of the
line.
-/

namespace Lowering

/-! ## What a role allows -/

/-- The frame of an `if`, in its other arm. -/
structure Frame.SwitchedTo (before after : Frame) : Prop where
  before_kind : before.kind = .ifThen
  after_kind : after.kind = .elseArm
  exit : after.exit = before.exit
  opener : after.opener = before.opener
  indent : after.indent = before.indent
  pendingElse : after.pendingElse = none

namespace IndentRole

/-- What becomes of the open constructs, innermost first, by an instruction of the role. -/
def Allows : IndentRole → List Frame → List Frame → Prop
  | none, before, after => after = before
  | opens, before, after => before <:+ after
  | closes, before, after => after <:+ before
  | reopens, before, after => after = before ∨
    ∃ frame frame' outer, before = frame :: outer ∧ after = frame' :: outer ∧ frame.SwitchedTo frame'

theorem Allows.refl (role : IndentRole) (frames : List Frame) : role.Allows frames frames := by
  cases role with
  | none => exact rfl
  | opens => exact List.suffix_refl frames
  | reopens => exact .inl rfl
  | closes => exact List.suffix_refl frames

theorem Allows.trans {role : IndentRole} {before middle after : List Frame}
    (h : role.Allows before middle) (h' : role.Allows middle after) : role.Allows before after := by
  cases role with
  | none => exact Eq.trans h' h
  | opens => exact List.IsSuffix.trans h h'
  | closes => exact List.IsSuffix.trans h' h
  | reopens =>
    rcases h with rfl | ⟨frame, frame', outer, rfl, rfl, hswitch⟩
    · exact h'
    · rcases h' with rfl | ⟨_, _, _, heq, -, hswitch'⟩
      · exact .inr ⟨frame, frame', outer, rfl, rfl, hswitch⟩
      -- A construct in its other arm is no longer an `if`, so it is not switched again.
      · obtain ⟨rfl, -⟩ := List.cons.inj heq
        cases hswitch.after_kind.symm.trans hswitch'.before_kind

/-- The indentation of a line of the role, from the number of open constructs before and after it. -/
def level : IndentRole → (before after : Nat) → Nat
  | none, before, after | opens, before, after | closes, before, after => min before after
  | reopens, before, _ => before - 1

theorem Allows.lineIndent_eq {role : IndentRole} {before after : List Frame}
    (h : role.Allows before after) :
    role.lineIndent before.length after.length = role.level before.length after.length := by
  cases role with
  | none =>
    cases h
    exact (Nat.min_self _).symm
  | opens => exact (Nat.min_eq_left (List.IsSuffix.length_le h)).symm
  | reopens => rfl
  | closes => exact (Nat.min_eq_right (List.IsSuffix.length_le h)).symm

end IndentRole

/-! ## Actions -/

theorem Effect.allows {scope : Scope} {role : IndentRole} {inv inv' : Invocation}
    (h : Effect scope inv role inv') : role.Allows inv.nesting.frames inv'.nesting.frames := by
  cases h with
  | emits => exact rfl
  | opensBlock | opensLoop | opensIf => exact List.suffix_cons _ _
  | entersElse hframes hif hpending =>
    rw [hframes]
    exact .inr ⟨_, _, _, rfl, rfl, ⟨hif, rfl, rfl, rfl, rfl, rfl⟩⟩
  | closes hframes =>
    rw [hframes]
    exact List.suffix_cons _ _

/-- An action of a role, or of none, does what the role allows. -/
theorem Scope.perform_allows {scope : Scope} {declared : Option ValueType} {inv inv' : Invocation}
    {a : Action} {role : IndentRole} (ha : a.role = .none ∨ a.role = role)
    (h : scope.perform declared inv a = .ok inv') :
    role.Allows inv.nesting.frames inv'.nesting.frames := by
  by_cases hnone : a.role = .none
  · rw [Scope.perform_frames hnone h]
    exact .refl role _
  · obtain rfl := ha.resolve_left hnone
    have hlocal : a ≠ .localLabel := by
      rintro rfl
      exact hnone rfl
    have hplace : a ≠ .placeLabel := by
      rintro rfl
      exact hnone rfl
    exact (Scope.perform_effect hlocal hplace h).allows

/-! ## Instructions -/

namespace UnitState

variable {state state' : UnitState} {lib : Library} {className mnemonic : String}
  {operands : List String} {id : Nat} {e : Entry} {x : Expansion}

theorem expand_allows (hlookup : lib.lookup mnemonic = .ok (id, e))
    (h : state.expand lib className mnemonic operands = (.ok x, state')) :
    e.role.Allows state.nesting.frames state'.nesting.frames := by
  obtain ⟨id', e', inv, hlookup', hinvoke, -, rfl⟩ := expand_eq_ok h
  cases hlookup.symm.trans hlookup'
  refine invoke_keeps (P := fun inv => e.role.Allows state.nesting.frames inv.nesting.frames)
    (.refl e.role _) ?_ (Library.lookup_eq_ok hlookup).1 ?_ hinvoke
  · intro inv inv' declared type hinv htype
    have heffect := @Invocation.valueType_effect ⟨lib.table, className, mnemonic⟩ _ _ _ _ htype
    rwa [heffect.frames_eq]
  · intro declared a ha inv inv' hinv hact
    exact hinv.trans (Scope.perform_allows ha hact)

theorem expand_indent (hlookup : lib.lookup mnemonic = .ok (id, e))
    (h : state.expand lib className mnemonic operands = (.ok x, state')) :
    x.indent = e.role.lineIndent state.nesting.indent state'.nesting.indent := by
  unfold expand expandBy at h
  simp only [hlookup] at h
  split at h
  · cases h
  · cases h
    rfl

end UnitState

/-- In every state that a unit of a library can come to, an instruction that succeeds does to the open
constructs what the role of its entry allows. Its line is indented by the smaller of the numbers of
constructs that are open before and after it, or by one less than that number if it switches arms. -/
theorem Session.expand_follows_role (lib : Library) (config : UnitConfig) (counter : LabelCounter)
    (moves : List Nesting.Call) (calls : List Call) (mnemonic : String) (operands : List String)
    {id : Nat} {e : Entry} (hlookup : lib.lookup mnemonic = .ok (id, e)) {x : Expansion}
    {state' : UnitState} :
    let start : Session :=
      { library := lib, config, state := { nesting := Nesting.afterAll { counter } moves } }
    let state := (start.afterAll calls).state
    state.expand lib config.className mnemonic operands = (.ok x, state') →
      e.role.Allows state.nesting.frames state'.nesting.frames ∧
      x.indent = e.role.level state.nesting.depth state'.nesting.depth := by
  intro start state hexpand
  have hstate : state.nesting.Consistent := by
    obtain ⟨further, hfurther⟩ := start.afterAll_moves calls
    rw [hfurther]
    exact ((Nesting.Consistent.empty counter).afterAll moves).afterAll further
  have hstate' : state'.nesting.Consistent := by
    obtain ⟨further, hfurther⟩ := UnitState.expand_moves hexpand
    rw [hfurther]
    exact hstate.afterAll further
  have hallows := UnitState.expand_allows hlookup hexpand
  refine ⟨hallows, ?_⟩
  rw [UnitState.expand_indent hlookup hexpand, hstate.indent, hstate'.indent]
  exact hallows.lineIndent_eq

/-- A library in which one instruction opens two constructs, and another closes one or two of them, by
the width of its value type. -/
def closingByWidth : Library :=
  .ofTable
    { name := "closing"
      isa := jvm
      entries :=
        [{ name := "OPEN", body := [.control .block, .control .loop], role := .opens },
         { name := "SHUT", body := [.select [.call "shut"] [.call "shut", .call "shut"]],
           role := .closes },
         { name := "shut", visibility := .auxiliary, body := [.control .close], role := .closes }] }
    (by decide +kernel)

theorem closingByWidth_expand_follows_role :
    let start : Session :=
      { library := closingByWidth
        state := { nesting := Nesting.afterAll { counter := .word 0 false } [] } }
    let state := (start.afterAll [.expand "OPEN" []]).state
    ∃ id e x state', closingByWidth.lookup "SHUT" = .ok (id, e) ∧ e.role = .closes ∧
      state.expand closingByWidth "Module" "SHUT" ["F64"] = (.ok x, state') ∧
      state.nesting.depth = 2 ∧ state'.nesting.frames <:+ state.nesting.frames ∧
      x.indent = min 2 state'.nesting.depth := by
  intro start state
  have hrole : (closingByWidth.lookup "SHUT").toOption.map (fun found => found.2.role) =
      some .closes := by
    decide +kernel
  have hexpands : (state.expand closingByWidth "Module" "SHUT" ["F64"]).1.isOk = true ∧
      state.nesting.depth = 2 := by
    decide +kernel
  obtain ⟨hok, hdepth⟩ := hexpands
  cases hlookup : closingByWidth.lookup "SHUT" with
  | error failure => simp [hlookup, Except.toOption] at hrole
  | ok found =>
    obtain ⟨id, e⟩ := found
    have he : e.role = .closes := by simpa [hlookup, Except.toOption] using hrole
    obtain ⟨⟨result, state'⟩, hexpand⟩ :
        ∃ r, state.expand closingByWidth "Module" "SHUT" ["F64"] = r := ⟨_, rfl⟩
    rw [hexpand] at hok
    cases result with
    | error failure => cases hok
    | ok x =>
      have hfollows := Session.expand_follows_role closingByWidth {} (.word 0 false) []
        [.expand "OPEN" []] "SHUT" ["F64"] hlookup hexpand
      rw [he] at hfollows
      exact ⟨id, e, x, state', rfl, he, hexpand, hdepth, hfollows.1, hdepth ▸ hfollows.2⟩

end Lowering
