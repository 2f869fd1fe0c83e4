-- SUMMARY: A registry resolves each name to the latest registration that has it, and builds each registration once.
import Mathlib.Data.List.Induction
import Mathlib.Data.List.Nodup
import Lowering.Registry

/-!
# Registration and building at first use

A host registers libraries and asks for them by name, in any order. Registrations can take the names
and aliases of earlier ones, also of those that were built already. A name refers to the latest
registration that has it at that time. Since what came of a build is kept by position and not by name, each
registration is built once, when it is first asked for under any of its names.
-/

namespace Lowering

variable {σ : Type}

/-! ## Names -/

/-- Whether the name is that of the registration or one of its aliases, up to the case of letters. -/
def Registration.Bears (registration : Registration) (name : String) : Prop :=
  ∃ own ∈ registration.name :: registration.aliases, Text.lower own = Text.lower name

/-- The position is that of the last registration in the list that bears the name. -/
structure Latest (all : List Registration) (name : String) (i : Nat) : Prop where
  bears : ∃ registration, all[i]? = some registration ∧ registration.Bears name
  last : ∀ (j : Nat) (registration : Registration), i < j → all[j]? = some registration →
    ¬registration.Bears name

namespace Latest

variable {all : List Registration} {registration : Registration} {name : String} {i j : Nat}

theorem lt (h : Latest all name i) : i < all.length := by
  obtain ⟨registration, hi, -⟩ := h.bears
  exact (List.getElem?_eq_some_iff.mp hi).1

theorem unique (hi : Latest all name i) (hj : Latest all name j) : i = j := by
  obtain ⟨first, hfirst, hbearsFirst⟩ := hi.bears
  obtain ⟨second, hsecond, hbearsSecond⟩ := hj.bears
  rcases Nat.lt_trichotomy i j with hlt | heq | hlt
  · exact absurd hbearsSecond (hi.last j second hlt hsecond)
  · exact heq
  · exact absurd hbearsFirst (hj.last i first hlt hfirst)

theorem append_of_bears (h : registration.Bears name) :
    Latest (all ++ [registration]) name i ↔ i = all.length := by
  have hend : Latest (all ++ [registration]) name all.length := by
    refine ⟨⟨registration, by simp, h⟩, fun j other hj hother => ?_⟩
    have hlt := (List.getElem?_eq_some_iff.mp hother).1
    rw [List.length_append, List.length_singleton] at hlt
    omega
  exact ⟨fun hi => hi.unique hend, fun heq => heq ▸ hend⟩

theorem append_of_not_bears (h : ¬registration.Bears name) :
    Latest (all ++ [registration]) name i ↔ Latest all name i := by
  -- The new registration is the only one at or beyond the old length.
  have hold {j : Nat} {other : Registration} (hother : (all ++ [registration])[j]? = some other)
      (hbears : other.Bears name) : all[j]? = some other := by
    rcases Nat.lt_trichotomy j all.length with hj | rfl | hj
    · rwa [List.getElem?_append_left hj] at hother
    · rw [List.getElem?_concat_length, Option.some.injEq] at hother
      exact absurd (hother ▸ hbears) h
    · have hlt := (List.getElem?_eq_some_iff.mp hother).1
      rw [List.length_append, List.length_singleton] at hlt
      omega
  have hnew {j : Nat} {other : Registration} (hother : all[j]? = some other) :
      (all ++ [registration])[j]? = some other := by
    rwa [List.getElem?_append_left (List.getElem?_eq_some_iff.mp hother).1]
  constructor
  · rintro ⟨⟨found, hi, hbears⟩, hlast⟩
    exact ⟨⟨found, hold hi hbears, hbears⟩, fun j other hj hother => hlast j other hj (hnew hother)⟩
  · rintro ⟨⟨found, hi, hbears⟩, hlast⟩
    exact ⟨⟨found, hnew hi, hbears⟩,
      fun j other hj hother hother' => hlast j other hj (hold hother hother') hother'⟩

theorem exists_iff : (∃ i, Latest all name i) ↔ ∃ registration ∈ all, registration.Bears name := by
  constructor
  · rintro ⟨i, ⟨registration, hi, hbears⟩, -⟩
    exact ⟨registration, List.mem_of_getElem? hi, hbears⟩
  · induction all using List.reverseRecOn with
    | nil => rintro ⟨_, hmem, -⟩; cases hmem
    | append_singleton all last ih =>
      rintro ⟨registration, hmem, hbears⟩
      by_cases hlast : last.Bears name
      · exact ⟨all.length, (append_of_bears hlast).mpr rfl⟩
      · have hmem' : registration ∈ all := by
          rcases List.mem_append.mp hmem with hmem | hmem
          · exact hmem
          · exact absurd (List.mem_singleton.mp hmem ▸ hbears) hlast
        obtain ⟨i, hi⟩ := ih ⟨registration, hmem', hbears⟩
        exact ⟨i, (append_of_not_bears hlast).mpr hi⟩

end Latest

/-! ## What a registry holds -/

namespace Registry

variable {r : Registry} {registration : Registration} {name : String}

theorem position?_register_of_bears (h : registration.Bears name) :
    (r.register registration).position? name = some r.slots.length := by
  obtain ⟨own, hown, heq⟩ := h
  rw [position?, register, List.lookup_append, ← heq]
  generalize registration.name :: registration.aliases = owns at hown
  induction owns with
  | nil => cases hown
  | cons first rest ih =>
    rw [List.map_cons, List.lookup_cons]
    by_cases hfirst : Text.lower own = Text.lower first
    · simp [hfirst]
    · have hrest : own ∈ rest :=
        (List.mem_cons.mp hown).resolve_left fun hsame => hfirst (hsame ▸ rfl)
      rw [beq_false_of_ne hfirst]
      exact ih hrest

theorem position?_register_of_not_bears (h : ¬registration.Bears name) :
    (r.register registration).position? name = r.position? name := by
  have hnone : ((registration.name :: registration.aliases).map
      fun own => (Text.lower own, r.slots.length)).lookup (Text.lower name) = none := by
    rw [List.lookup_eq_none_iff]
    intro pair hpair
    obtain ⟨own, hown, rfl⟩ := List.mem_map.mp hpair
    exact bne_iff_ne.mpr fun heq => h ⟨own, hown, heq.symm⟩
  rw [position?, register, List.lookup_append, hnone, Option.none_or]
  rfl

/-- The registry holds these registrations, and each name refers to the latest of them that bears it. -/
structure Holds (r : Registry) (all : List Registration) : Prop where
  slots : r.slots.map Slot.registration = all
  position : ∀ (name : String) (i : Nat), r.position? name = some i ↔ Latest all name i
  names : ∀ entry ∈ r.names, entry.2 < all.length

namespace Holds

variable {all : List Registration}

theorem empty : ({} : Registry).Holds [] := by
  refine ⟨rfl, fun name i => ⟨nofun, fun h => ?_⟩, nofun⟩
  exact absurd h.lt (Nat.not_lt_zero i)

theorem length (h : r.Holds all) : r.slots.length = all.length := by
  rw [← h.slots, List.length_map]

theorem register (h : r.Holds all) (registration : Registration) :
    (r.register registration).Holds (all ++ [registration]) where
  slots := by simp [Registry.register, h.slots]
  position := by
    intro name i
    by_cases hbears : registration.Bears name
    · rw [position?_register_of_bears hbears, Latest.append_of_bears hbears, h.length,
        Option.some.injEq, eq_comm]
    · rw [position?_register_of_not_bears hbears, Latest.append_of_not_bears hbears, h.position]
  names := by
    intro entry hentry
    rw [List.length_append, List.length_singleton]
    rcases List.mem_append.mp hentry with hnew | hold
    · obtain ⟨own, -, rfl⟩ := List.mem_map.mp hnew
      exact h.length ▸ Nat.lt_succ_self _
    · exact Nat.lt_succ_of_lt (h.names entry hold)

theorem registration_eq (h : r.Holds all) {i : Nat} {slot : Slot} (hslot : r.slots[i]? = some slot) :
    all[i]? = some slot.registration := by
  rw [← h.slots, List.getElem?_map, hslot]
  rfl

/-- What a build leaves in a slot does not concern the registrations. -/
theorem build (h : r.Holds all) {i : Nat} {slot : Slot} (hslot : r.slots[i]? = some slot)
    (built : Option (Except LoadError Library)) :
    ({ r with slots := r.slots.set i { slot with built } } : Registry).Holds all where
  slots := by
    obtain ⟨hlt, hsame⟩ := List.getElem?_eq_some_iff.mp (h.registration_eq hslot)
    rw [List.map_set, h.slots, ← hsame, List.set_getElem_self]
  position := h.position
  names := h.names

theorem slot (h : r.Holds all) {i : Nat} {registration : Registration}
    (hi : all[i]? = some registration) :
    ∃ built, r.slots[i]? = some ⟨registration, built⟩ := by
  rw [← h.slots, List.getElem?_map] at hi
  obtain ⟨slot, hslot, rfl⟩ := Option.map_eq_some_iff.mp hi
  exact ⟨slot.built, hslot⟩

theorem find?_eq_some_iff (h : r.Holds all) :
    r.find? name = some registration ↔ ∃ i, Latest all name i ∧ all[i]? = some registration := by
  have hslots (i : Nat) : r.slots[i]?.map Slot.registration = all[i]? := by
    rw [← h.slots, List.getElem?_map]
  rw [find?, Option.bind_eq_some_iff]
  simp only [h.position, hslots]

theorem find?_eq_none_iff (h : r.Holds all) :
    r.find? name = none ↔ ∀ registration ∈ all, ¬registration.Bears name := by
  rw [← not_iff_not, ← ne_eq, Option.ne_none_iff_exists']
  constructor
  · rintro ⟨registration, hfind⟩ hnone
    obtain ⟨i, hlatest, -⟩ := h.find?_eq_some_iff.mp hfind
    obtain ⟨other, hother, hbears⟩ := Latest.exists_iff.mp ⟨i, hlatest⟩
    exact hnone other hother hbears
  · intro hsome
    push Not at hsome
    obtain ⟨i, hlatest⟩ := Latest.exists_iff.mpr hsome
    obtain ⟨registration, hi, -⟩ := hlatest.bears
    exact ⟨registration, h.find?_eq_some_iff.mpr ⟨i, hlatest, hi⟩⟩

end Holds

end Registry

/-! ## A host that registers and asks -/

/-- What a host does with a registry. -/
inductive RegistryStep where
  | register (registration : Registration)
  | get (name : String)

/-- The registrations among the steps. -/
def registrations (steps : List RegistryStep) : List Registration :=
  steps.filterMap fun
    | .register registration => some registration
    | .get _ => none

/-- Whether the step, counted from zero, asks for the registration at the position. -/
def AsksFor (steps : List RegistryStep) (k i : Nat) : Prop :=
  ∃ name, steps[k]? = some (.get name) ∧ Latest (registrations (steps.take k)) name i

theorem registrations_append (steps more : List RegistryStep) :
    registrations (steps ++ more) = registrations steps ++ registrations more :=
  List.filterMap_append

@[simp] theorem registrations_register (steps : List RegistryStep) (registration : Registration) :
    registrations (steps ++ [.register registration]) = registrations steps ++ [registration] :=
  registrations_append steps _

@[simp] theorem registrations_get (steps : List RegistryStep) (name : String) :
    registrations (steps ++ [.get name]) = registrations steps :=
  (registrations_append steps _).trans (List.append_nil _)

namespace AsksFor

variable {steps : List RegistryStep} {step : RegistryStep} {k i : Nat}

theorem step_lt (h : AsksFor steps k i) : k < steps.length := by
  obtain ⟨name, hk, -⟩ := h
  exact (List.getElem?_eq_some_iff.mp hk).1

theorem position_lt (h : AsksFor steps k i) : i < (registrations steps).length := by
  obtain ⟨name, -, hlatest⟩ := h
  have hlt := hlatest.lt
  have hsplit := congrArg List.length (registrations_append (steps.take k) (steps.drop k))
  rw [List.take_append_drop, List.length_append] at hsplit
  omega

theorem append_iff : AsksFor (steps ++ [step]) k i ↔ AsksFor steps k i ∨
    k = steps.length ∧ ∃ name, step = .get name ∧ Latest (registrations steps) name i := by
  rcases Nat.lt_trichotomy k steps.length with hk | rfl | hk
  · rw [AsksFor, List.getElem?_append_left hk, List.take_append_of_le_length (Nat.le_of_lt hk)]
    exact ⟨.inl, fun h => h.resolve_right fun hlast => Nat.ne_of_lt hk hlast.1⟩
  · rw [AsksFor, List.getElem?_concat_length, List.take_left]
    simp only [Option.some.injEq, true_and]
    exact ⟨.inr, fun h => h.resolve_left fun hold => Nat.lt_irrefl _ hold.step_lt⟩
  · constructor
    · intro h
      have hlt := h.step_lt
      rw [List.length_append, List.length_singleton] at hlt
      omega
    · rintro (hold | ⟨rfl, -⟩)
      · exact absurd hold.step_lt (Nat.lt_asymm hk)
      · exact absurd hk (Nat.lt_irrefl _)

end AsksFor

/-- A build that ran: in which step, of which registration, at which position, and with what outcome. -/
structure BuildRun where
  step : Nat
  position : Nat
  registration : Registration
  outcome : Except LoadError Library

/-- A host that uses a registry: its own state, which builds can change, the registry, what each step
has returned, which is nothing for a registration, and the builds that ran. -/
structure Librarian (σ : Type) where
  host : σ
  registry : Registry := {}
  answers : List (Option (Except RegistryError Library)) := []
  builds : List BuildRun := []

namespace Librarian

/-- The build, with its run put on record. -/
def recorded (build : Nat → Registration → StateM σ (Except LoadError Library)) (step position : Nat)
    (registration : Registration) : StateM (σ × List BuildRun) (Except LoadError Library) :=
  fun s =>
    let result := (build position registration).run s.1
    (result.1, result.2, s.2 ++ [⟨step, position, registration, result.1⟩])

/-- Takes one step. -/
def step (build : Nat → Registration → StateM σ (Except LoadError Library)) (l : Librarian σ) :
    RegistryStep → Librarian σ
  | .register registration =>
    { l with
      registry := l.registry.register registration
      answers := l.answers ++ [none] }
  | .get name =>
    let result := (l.registry.getM (recorded build l.answers.length) name).run (l.host, l.builds)
    { host := result.2.1
      registry := result.1.2
      answers := l.answers ++ [some result.1.1]
      builds := result.2.2 }

/-- Takes the steps one after the other, from an empty registry on. -/
def serve (build : Nat → Registration → StateM σ (Except LoadError Library)) (host : σ)
    (steps : List RegistryStep) : Librarian σ :=
  steps.foldl (step build) { host }

variable {build : Nat → Registration → StateM σ (Except LoadError Library)} {l : Librarian σ}
  {name : String} {i : Nat}

theorem step_get_of_unknown (h : l.registry.position? name = none) :
    l.step build (.get name) =
      { l with answers := l.answers ++ [some (.error (.unknown name))] } := by
  simp only [step, Registry.getM, h]
  rfl

theorem step_get_of_built {registration : Registration} {outcome : Except LoadError Library}
    (h : l.registry.position? name = some i)
    (hslot : l.registry.slots[i]? = some ⟨registration, some outcome⟩) :
    l.step build (.get name) =
      { l with answers := l.answers ++ [some (outcome.mapError .load)] } := by
  simp only [step, Registry.getM, h, hslot]
  rfl

theorem step_get_of_unbuilt {registration : Registration} (h : l.registry.position? name = some i)
    (hslot : l.registry.slots[i]? = some ⟨registration, none⟩) :
    ∃ outcome host, l.step build (.get name) =
      { host
        registry := { l.registry with slots := l.registry.slots.set i ⟨registration, some outcome⟩ }
        answers := l.answers ++ [some (outcome.mapError .load)]
        builds := l.builds ++ [⟨l.answers.length, i, registration, outcome⟩] } := by
  simp only [step, Registry.getM, h, hslot]
  exact ⟨_, _, rfl⟩

/-- Where a build is only the check of the table, a step that asks is a call of `Registry.get`. -/
theorem step_get_of_pure (l : Librarian σ) (name : String) :
    let next := l.step (fun _ registration => pure registration.table.build) (.get name)
    (next.answers, next.registry) =
      (l.answers ++ [some (l.registry.get name).1], (l.registry.get name).2) := by
  simp only [step, Registry.get, Registry.getM]
  split
  · rfl
  · split
    · rfl
    · split <;> rfl

/-! ## What the steps have done -/

/-- After the steps, the registry holds their registrations, the slots have the outcomes of the builds
that ran, each of these at the first step that asked for its registration, and each step that asked for
a registration has returned the outcome of its build. -/
structure Served (steps : List RegistryStep) (l : Librarian σ) : Prop where
  length : l.answers.length = steps.length
  holds : l.registry.Holds (registrations steps)
  built : ∀ (i : Nat) (slot : Slot), l.registry.slots[i]? = some slot →
    ∀ outcome, slot.built = some outcome ↔ ∃ run ∈ l.builds, run.position = i ∧ run.outcome = outcome
  once : (l.builds.map BuildRun.position).Nodup
  source : ∀ run ∈ l.builds, (registrations steps)[run.position]? = some run.registration
  first : ∀ run ∈ l.builds, AsksFor steps run.step run.position ∧
    ∀ k < run.step, ¬AsksFor steps k run.position
  answered : ∀ k i, AsksFor steps k i →
    ∃ run ∈ l.builds, run.position = i ∧ l.answers[k]? = some (some (run.outcome.mapError .load))
  unknown : ∀ (k : Nat) (name : String), steps[k]? = some (.get name) →
    (∀ i, ¬Latest (registrations (steps.take k)) name i) →
      l.answers[k]? = some (some (.error (.unknown name)))

namespace Served

variable {steps : List RegistryStep} {registration : Registration}

theorem start (host : σ) : Served [] ({ host } : Librarian σ) where
  length := rfl
  holds := .empty
  built := by simp
  once := List.nodup_nil
  source := by simp
  first := by simp
  answered := fun k i h => absurd h.step_lt (Nat.not_lt_zero k)
  unknown := by simp

theorem position_lt (h : Served steps l) {run : BuildRun} (hrun : run ∈ l.builds) :
    run.position < l.registry.slots.length :=
  h.holds.length ▸ (h.first run hrun).1.position_lt

/-- A registration that is not built has not been asked for. -/
theorem not_asksFor (h : Served steps l) (hslot : l.registry.slots[i]? = some ⟨registration, none⟩)
    (k : Nat) : ¬AsksFor steps k i := by
  intro hasks
  obtain ⟨run, hrun, hposition, -⟩ := h.answered k i hasks
  have hbuilt := (h.built i _ hslot run.outcome).mpr ⟨run, hrun, hposition, rfl⟩
  cases hbuilt

/-- One more step, which answers and can run builds. It remains to say what is particular to the step. -/
theorem extend (h : Served steps l) {step : RegistryStep} {next : Librarian σ}
    {answer : Option (Except RegistryError Library)} {runs : List BuildRun}
    (hanswers : next.answers = l.answers ++ [answer]) (hbuilds : next.builds = l.builds ++ runs)
    (hholds : next.registry.Holds (registrations (steps ++ [step])))
    (hbuilt : ∀ (i : Nat) (slot : Slot), next.registry.slots[i]? = some slot → ∀ outcome,
      slot.built = some outcome ↔ ∃ run ∈ next.builds, run.position = i ∧ run.outcome = outcome)
    (honce : (runs.map BuildRun.position).Nodup)
    (hsource : ∀ run ∈ runs, (registrations steps)[run.position]? = some run.registration)
    (hruns : ∀ run ∈ runs, run.step = steps.length ∧
      (∃ name, step = .get name ∧ Latest (registrations steps) name run.position) ∧
      ∀ k, ¬AsksFor steps k run.position)
    (hanswered : ∀ name i, step = .get name → Latest (registrations steps) name i →
      ∃ run ∈ next.builds, run.position = i ∧ answer = some (run.outcome.mapError .load))
    (hunknown : ∀ name, step = .get name → (∀ i, ¬Latest (registrations steps) name i) →
      answer = some (.error (.unknown name))) :
    Served (steps ++ [step]) next := by
  have hold {k : Nat} (hk : k < steps.length) : next.answers[k]? = l.answers[k]? := by
    rw [hanswers, List.getElem?_append_left (h.length ▸ hk)]
  have hlast : next.answers[steps.length]? = some answer := by
    rw [hanswers, ← h.length, List.getElem?_concat_length]
  constructor
  case length => rw [hanswers, List.length_append, List.length_append, h.length]; rfl
  case holds => exact hholds
  case built => exact hbuilt
  case once =>
    rw [hbuilds, List.map_append, List.nodup_append]
    refine ⟨h.once, honce, ?_⟩
    rintro i hi j hj rfl
    obtain ⟨earlier, hearlier, rfl⟩ := List.mem_map.mp hi
    obtain ⟨run, hrun, hsame⟩ := List.mem_map.mp hj
    exact (hruns run hrun).2.2 earlier.step (hsame ▸ (h.first earlier hearlier).1)
  case source =>
    intro run hrun
    rw [hbuilds] at hrun
    have hold : (registrations steps)[run.position]? = some run.registration :=
      (List.mem_append.mp hrun).elim (h.source run) (hsource run)
    rwa [registrations_append, List.getElem?_append_left (List.getElem?_eq_some_iff.mp hold).1]
  case first =>
    intro run hrun
    rw [hbuilds] at hrun
    rcases List.mem_append.mp hrun with hrun | hrun
    · obtain ⟨hasks, hbefore⟩ := h.first run hrun
      refine ⟨AsksFor.append_iff.mpr (.inl hasks), fun k hk hasks' => ?_⟩
      rcases AsksFor.append_iff.mp hasks' with hasks' | ⟨rfl, -⟩
      · exact hbefore k hk hasks'
      · exact absurd hasks.step_lt (Nat.lt_asymm hk)
    · obtain ⟨hstep, hasks, hnever⟩ := hruns run hrun
      refine ⟨AsksFor.append_iff.mpr (.inr ⟨hstep, hasks⟩), fun k hk hasks' => ?_⟩
      rcases AsksFor.append_iff.mp hasks' with hasks' | ⟨rfl, -⟩
      · exact hnever k hasks'
      · exact Nat.ne_of_lt hk hstep.symm
  case answered =>
    intro k i hasks
    rcases AsksFor.append_iff.mp hasks with hasks | ⟨rfl, name, hget, hlatest⟩
    · obtain ⟨run, hrun, hposition, hanswer⟩ := h.answered k i hasks
      refine ⟨run, ?_, hposition, (hold hasks.step_lt).trans hanswer⟩
      rw [hbuilds]
      exact List.mem_append_left _ hrun
    · obtain ⟨run, hrun, hposition, hanswer⟩ := hanswered name i hget hlatest
      exact ⟨run, hrun, hposition, hanswer ▸ hlast⟩
  case unknown =>
    intro k name hk hnone
    rcases Nat.lt_trichotomy k steps.length with hlt | rfl | hlt
    · rw [List.getElem?_append_left hlt] at hk
      rw [List.take_append_of_le_length (Nat.le_of_lt hlt)] at hnone
      exact (hold hlt).trans (h.unknown k name hk hnone)
    · rw [List.getElem?_concat_length, Option.some.injEq] at hk
      rw [List.take_left] at hnone
      exact hunknown name hk hnone ▸ hlast
    · have hlt' := (List.getElem?_eq_some_iff.mp hk).1
      rw [List.length_append, List.length_singleton] at hlt'
      omega

theorem register (h : Served steps l) (registration : Registration) :
    Served (steps ++ [.register registration]) (l.step build (.register registration)) := by
  have hbuilds : (l.step build (.register registration)).builds = l.builds ++ [] :=
    (List.append_nil _).symm
  refine h.extend rfl hbuilds ?_ ?_ List.nodup_nil (List.forall_mem_nil _) (List.forall_mem_nil _)
    nofun nofun
  · rw [registrations_register]
    exact h.holds.register registration
  · intro i slot hslot outcome
    rcases Nat.lt_or_ge i l.registry.slots.length with hlt | hge
    · exact h.built i slot ((List.getElem?_append_left hlt).symm.trans hslot) outcome
    · -- The slot is the new one, and no build was for a position beyond the old slots.
      have hnew : slot ∈ [({ registration } : Slot)] :=
        List.mem_of_getElem? ((List.getElem?_append_right hge).symm.trans hslot)
      rw [List.mem_singleton.mp hnew]
      constructor
      · nofun
      · rintro ⟨run, hrun, rfl, -⟩
        exact absurd (h.position_lt hrun) (Nat.not_lt.mpr hge)

theorem get_unknown (h : Served steps l) (hposition : l.registry.position? name = none) :
    Served (steps ++ [.get name]) (l.step build (.get name)) := by
  have hnone (i : Nat) : ¬Latest (registrations steps) name i := by
    rw [← h.holds.position, hposition]
    nofun
  rw [step_get_of_unknown hposition]
  refine h.extend rfl (List.append_nil _).symm ?_ h.built List.nodup_nil (List.forall_mem_nil _)
    (List.forall_mem_nil _) ?_ ?_
  · rw [registrations_get]
    exact h.holds
  · rintro _ i ⟨⟩ hlatest
    exact absurd hlatest (hnone i)
  · rintro _ ⟨⟩ -
    rfl

theorem get_built (h : Served steps l) (hposition : l.registry.position? name = some i)
    {outcome : Except LoadError Library}
    (hslot : l.registry.slots[i]? = some ⟨registration, some outcome⟩) :
    Served (steps ++ [.get name]) (l.step build (.get name)) := by
  have hlatest := (h.holds.position name i).mp hposition
  rw [step_get_of_built hposition hslot]
  refine h.extend rfl (List.append_nil _).symm ?_ h.built List.nodup_nil (List.forall_mem_nil _)
    (List.forall_mem_nil _) ?_ ?_
  · rw [registrations_get]
    exact h.holds
  · rintro _ j ⟨⟩ hj
    obtain ⟨run, hrun, hrunPosition, houtcome⟩ := (h.built i _ hslot outcome).mp rfl
    exact ⟨run, hrun, hrunPosition.trans (hlatest.unique hj), houtcome ▸ rfl⟩
  · rintro _ ⟨⟩ hnone
    exact absurd hlatest (hnone i)

theorem get_unbuilt (h : Served steps l) (hposition : l.registry.position? name = some i)
    (hslot : l.registry.slots[i]? = some ⟨registration, none⟩) :
    Served (steps ++ [.get name]) (l.step build (.get name)) := by
  have hlatest := (h.holds.position name i).mp hposition
  obtain ⟨outcome, host, hstep⟩ := step_get_of_unbuilt hposition hslot
  rw [hstep]
  refine h.extend rfl rfl ?_ ?_ (List.nodup_singleton _) ?_ ?_ ?_ ?_
  · rw [registrations_get]
    exact h.holds.build hslot (some outcome)
  · intro j slot hj outcome'
    simp only [List.mem_append, List.mem_singleton]
    by_cases hij : i = j
    · -- The slot that was built now. No earlier build was for it.
      subst hij
      have hlt := (List.getElem?_eq_some_iff.mp hslot).1
      rw [List.getElem?_set_self hlt, Option.some.injEq] at hj
      subst hj
      constructor
      · rintro ⟨⟩
        exact ⟨_, .inr rfl, rfl, rfl⟩
      · rintro ⟨run, hrun | rfl, hrunPosition, houtcome⟩
        · exact absurd (hrunPosition ▸ (h.first run hrun).1) (h.not_asksFor hslot run.step)
        · exact congrArg some houtcome
    · rw [List.getElem?_set_ne hij] at hj
      rw [h.built j slot hj outcome']
      constructor
      · rintro ⟨run, hrun, hrun'⟩
        exact ⟨run, .inl hrun, hrun'⟩
      · rintro ⟨run, hrun | rfl, hrunPosition, houtcome⟩
        · exact ⟨run, hrun, hrunPosition, houtcome⟩
        · exact absurd hrunPosition hij
  · intro run hrun
    rw [List.mem_singleton.mp hrun]
    exact h.holds.registration_eq hslot
  · intro run hrun
    rw [List.mem_singleton.mp hrun]
    exact ⟨h.length, ⟨name, rfl, hlatest⟩, h.not_asksFor hslot⟩
  · rintro _ j ⟨⟩ hj
    exact ⟨_, List.mem_append_right _ (List.mem_singleton_self _), hlatest.unique hj, rfl⟩
  · rintro _ ⟨⟩ hnone
    exact absurd hlatest (hnone i)

theorem step (h : Served steps l) (s : RegistryStep) :
    Served (steps ++ [s]) (l.step build s) := by
  cases s with
  | register registration => exact h.register registration
  | get name =>
    rcases hposition : l.registry.position? name with _ | i
    · exact h.get_unknown hposition
    · obtain ⟨registration, hi, -⟩ := ((h.holds.position name i).mp hposition).bears
      obtain ⟨_ | outcome, hslot⟩ := h.holds.slot hi
      · exact h.get_unbuilt hposition hslot
      · exact h.get_built hposition hslot

end Served

theorem serve_served (build : Nat → Registration → StateM σ (Except LoadError Library)) (host : σ)
    (steps : List RegistryStep) : Served steps (serve build host steps) := by
  induction steps using List.reverseRecOn with
  | nil => exact .start host
  | append_singleton steps s ih =>
    rw [serve, List.foldl_append]
    exact ih.step s

/-- A host registers libraries and asks for them in any order, with builds that can have effects and
fail. Every name in use has a registration, and a name resolves to the latest registration that bears
it, if there is one. The names are listed in order. A step that asks for a name returns that nothing is
registered just if no registration before it bears the name. Else it returns the outcome of the
one build of the latest such registration, which ran at the first step that asked for it. Where builds
only check the table, such a step is a call of `Registry.get`. -/
theorem resolves_latest_and_builds_once
    (build : Nat → Registration → StateM σ (Except LoadError Library)) (host : σ)
    (steps : List RegistryStep) :
    let l := serve build host steps
    let all := registrations steps
    l.registry.libraryNames = all.map Registration.name ∧
      (∀ entry ∈ l.registry.names, ∃ slot, l.registry.slots[entry.2]? = some slot) ∧
      (∀ name registration, l.registry.find? name = some registration ↔
        ∃ i, Latest all name i ∧ all[i]? = some registration) ∧
      (∀ name, l.registry.find? name = none ↔ ∀ registration ∈ all, ¬registration.Bears name) ∧
      (∀ (k : Nat) (name : String), steps[k]? = some (.get name) →
        (l.answers[k]? = some (some (.error (.unknown name))) ↔
          ∀ registration ∈ registrations (steps.take k), ¬registration.Bears name) ∧
        ∀ i, Latest (registrations (steps.take k)) name i →
          ∃ run ∈ l.builds, run.position = i ∧
            l.answers[k]? = some (some (run.outcome.mapError .load))) ∧
      (l.builds.map BuildRun.position).Nodup ∧
      (∀ run ∈ l.builds, all[run.position]? = some run.registration ∧
        AsksFor steps run.step run.position ∧ ∀ k < run.step, ¬AsksFor steps k run.position) ∧
      ∀ (before : Librarian σ) (name : String),
        let next := before.step (fun _ registration => pure registration.table.build) (.get name)
        (next.answers, next.registry) =
          (before.answers ++ [some (before.registry.get name).1], (before.registry.get name).2) := by
  intro l all
  have h : Served steps l := serve_served build host steps
  refine ⟨?_, ?_, fun name registration => h.holds.find?_eq_some_iff,
    fun name => h.holds.find?_eq_none_iff, ?_, h.once,
    fun run hrun => ⟨h.source run hrun, h.first run hrun⟩, step_get_of_pure⟩
  · rw [show all = l.registry.slots.map Slot.registration from h.holds.slots.symm, List.map_map]
    rfl
  · intro entry hentry
    have hlt : entry.2 < l.registry.slots.length := h.holds.length ▸ h.holds.names entry hentry
    exact ⟨_, List.getElem?_eq_getElem hlt⟩
  · intro k name hk
    have hanswered (i : Nat) (hi : Latest (registrations (steps.take k)) name i) :=
      h.answered k i ⟨name, hk, hi⟩
    refine ⟨⟨fun hunknown registration hmem hbears => ?_, fun hnone => ?_⟩, hanswered⟩
    · obtain ⟨i, hi⟩ := Latest.exists_iff.mpr ⟨registration, hmem, hbears⟩
      obtain ⟨run, -, -, hanswer⟩ := hanswered i hi
      -- No outcome of a build reads as an unknown name.
      rw [hunknown] at hanswer
      cases houtcome : run.outcome <;> simp [houtcome, Except.mapError] at hanswer
    · refine h.unknown k name hk fun i hi => ?_
      obtain ⟨registration, hmem, hbears⟩ := Latest.exists_iff.mp ⟨i, hi⟩
      exact hnone registration hmem hbears

end Librarian

end Lowering
