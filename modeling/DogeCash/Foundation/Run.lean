import Mathlib.Logic.Basic

/-! # Runs of a partial step function

A machine is a step function that may refuse an operation. `run` performs a list
of operations. An invariant or a simulation that one step keeps is kept by every
run.
-/

namespace DogeCash

variable {ι σ τ : Type*}

def run (step : ι → σ → Option σ) : List ι → σ → Option σ
  | [], state => some state
  | operation :: rest, state => (step operation state).bind (run step rest)

variable {step : ι → σ → Option σ} {condition : σ → ι → Prop} {operations : List ι} {state : σ}
    {property : σ → Prop}

variable {operation : ι} {state final : σ}

theorem run_cons_eq_some {rest : List ι} (runs : run step (operation :: rest) state = some final) :
    ∃ next, step operation state = some next ∧ run step rest next = some final :=
  Option.bind_eq_some_iff.mp runs

theorem run_append {before after : List ι} (runs : run step before state = some final) :
    run step (before ++ after) state = run step after final := by
  induction before generalizing state with
  | nil =>
    cases runs
    rfl
  | cons operation rest ih =>
    obtain ⟨next, stepped, later⟩ := run_cons_eq_some runs
    rw [List.cons_append, run, stepped]
    exact ih later

/-- Every operation of a run meets a condition in the state it is performed in. -/
def RunMeets (step : ι → σ → Option σ) (condition : σ → ι → Prop) : List ι → σ → Prop
  | [], _ => True
  | operation :: rest, state =>
    condition state operation ∧
      match step operation state with
      | none => True
      | some next => RunMeets step condition rest next

instance RunMeets.decidable {step : ι → σ → Option σ} {condition : σ → ι → Prop}
    [∀ state operation, Decidable (condition state operation)] :
    ∀ operations state, Decidable (RunMeets step condition operations state)
  | [], _ => isTrue trivial
  | operation :: rest, state =>
    have : Decidable (match step operation state with
        | none => True
        | some next => RunMeets step condition rest next) :=
      match step operation state with
      | none => isTrue trivial
      | some next => RunMeets.decidable rest next
    inferInstanceAs (Decidable (condition state operation ∧ _))

theorem RunMeets.of_forall (every : ∀ operation ∈ operations, ∀ state, condition state operation)
    (state : σ) : RunMeets step condition operations state := by
  induction operations generalizing state with
  | nil => trivial
  | cons operation rest ih =>
    refine ⟨every operation List.mem_cons_self state, ?_⟩
    split
    · trivial
    · exact ih (fun other mem => every other (List.mem_cons_of_mem _ mem)) _

theorem RunMeets.invariant (invariant : σ → Prop) (meets : RunMeets step condition operations state)
    (keeps : ∀ operation before after, condition before operation → invariant before →
      step operation before = some after → invariant after)
    (runs : run step operations state = some final) (start : invariant state) :
    invariant final := by
  induction operations generalizing state with
  | nil =>
    cases runs
    exact start
  | cons operation rest ih =>
    obtain ⟨next, stepped, remaining⟩ := run_cons_eq_some runs
    obtain ⟨here, later⟩ := meets
    rw [stepped] at later
    exact ih later remaining (keeps operation state next here start stepped)

theorem run_invariant (invariant : σ → Prop)
    (keeps : ∀ operation ∈ operations, ∀ before after, invariant before →
      step operation before = some after → invariant after)
    (runs : run step operations state = some final) (start : invariant state) :
    invariant final := by
  have meets : RunMeets step (fun _ operation => operation ∈ operations) operations state :=
    .of_forall (fun _ mem _ => mem) state
  exact meets.invariant invariant
    (fun operation before after mem => keeps operation mem before after) runs start

/-- A property holds in every state that a run goes through. -/
def RunStays (step : ι → σ → Option σ) (property : σ → Prop) : List ι → σ → Prop
  | [], state => property state
  | operation :: rest, state =>
    property state ∧
      match step operation state with
      | none => True
      | some next => RunStays step property rest next

theorem RunMeets.stays (invariant : σ → Prop) (meets : RunMeets step condition operations state)
    (keeps : ∀ operation before after, condition before operation → invariant before →
      step operation before = some after → invariant after) (start : invariant state) :
    RunStays step invariant operations state := by
  induction operations generalizing state with
  | nil => exact start
  | cons operation rest ih =>
    obtain ⟨here, later⟩ := meets
    refine ⟨start, ?_⟩
    cases stepped : step operation state with
    | none => trivial
    | some next =>
      rw [stepped] at later
      exact ih later (keeps operation state next here start stepped)

theorem RunMeets.performed (invariant : σ → Prop) (meets : RunMeets step condition operations state)
    (performs : ∀ operation before, condition before operation → invariant before →
      ∃ after, step operation before = some after ∧ invariant after) (start : invariant state) :
    (run step operations state).isSome ∧ RunStays step invariant operations state := by
  induction operations generalizing state with
  | nil => exact ⟨rfl, start⟩
  | cons operation rest ih =>
    obtain ⟨here, later⟩ := meets
    obtain ⟨next, stepped, kept⟩ := performs operation state here start
    rw [stepped] at later
    rw [run, RunStays, stepped, Option.bind_some]
    obtain ⟨goes, stays⟩ := ih later kept
    exact ⟨goes, start, stays⟩

theorem RunStays.at_end (stays : RunStays step property operations state)
    (runs : run step operations state = some final) : property final := by
  induction operations generalizing state with
  | nil =>
    cases runs
    exact stays
  | cons operation rest ih =>
    obtain ⟨next, stepped, remaining⟩ := run_cons_eq_some runs
    obtain ⟨_, later⟩ := stays
    rw [stepped] at later
    exact ih later remaining

theorem RunStays.imp {first second : σ → Prop} (implies : ∀ state, first state → second state)
    (stays : RunStays step first operations state) : RunStays step second operations state := by
  induction operations generalizing state with
  | nil => exact implies state stays
  | cons operation rest ih =>
    obtain ⟨here, later⟩ := stays
    refine ⟨implies state here, ?_⟩
    cases stepped : step operation state with
    | none => trivial
    | some next =>
      rw [stepped] at later
      exact ih later

/-- Some operations lead to a state with the property. -/
def Reaches (step : ι → σ → Option σ) (property : σ → Prop) (state : σ) : Prop :=
  ∃ operations final, run step operations state = some final ∧ property final

theorem Reaches.here (holds : property state) : Reaches step property state :=
  ⟨[], state, rfl, holds⟩

theorem Reaches.of_step {state next : σ} (stepped : step operation state = some next)
    (reaches : Reaches step property next) :
    Reaches step property state := by
  obtain ⟨operations, final, runs, holds⟩ := reaches
  exact ⟨operation :: operations, final, by rw [run, stepped, Option.bind_some, runs], holds⟩

def total (step : ι → σ → σ) (operation : ι) (state : σ) : Option σ := some (step operation state)

theorem run_total (step : ι → σ → σ) (operations : List ι) (state : σ) :
    run (total step) operations state =
      some (operations.foldl (fun state operation => step operation state) state) := by
  induction operations generalizing state with
  | nil => rfl
  | cons operation rest ih => exact ih (step operation state)

theorem runStays_total_iff {step : ι → σ → σ}
    (exact : ∀ operation ∈ operations, ∀ state, property state →
      (property (step operation state) ↔ condition state operation)) (start : property state) :
    RunStays (total step) property operations state ↔
      RunMeets (total step) condition operations state := by
  induction operations generalizing state with
  | nil => exact ⟨fun _ => trivial, fun _ => start⟩
  | cons operation rest ih =>
    have kept := exact operation List.mem_cons_self state start
    have ih := fun {next} (there : property next) =>
      ih (fun other mem => exact other (List.mem_cons_of_mem _ mem)) there
    constructor
    · intro stays
      have next : property (step operation state) := by
        cases rest with
        | nil => exact stays.2
        | cons _ _ => exact stays.2.1
      exact ⟨kept.mp next, (ih next).mp stays.2⟩
    · intro meets
      exact ⟨start, (ih (kept.mpr meets.1)).mpr meets.2⟩

/-- If, within an invariant, a step keeps a property exactly under a condition, a run stays in the
property exactly if its steps meet the condition. -/
theorem runStays_iff (invariant : σ → Prop)
    (keeps : ∀ operation before after, invariant before → step operation before = some after →
      invariant after)
    (refused : ∀ operation before, step operation before = none → condition before operation)
    (decides : ∀ operation before after, invariant before → property before →
      step operation before = some after → (property after ↔ condition before operation))
    (held : invariant state) (start : property state) :
    RunStays step property operations state ↔ RunMeets step condition operations state := by
  induction operations generalizing state with
  | nil => exact ⟨fun _ => trivial, fun _ => start⟩
  | cons operation rest ih =>
    rw [RunStays, RunMeets]
    cases stepped : step operation state with
    | none =>
      exact ⟨fun _ => ⟨refused operation state stepped, trivial⟩, fun _ => ⟨start, trivial⟩⟩
    | some next =>
      have kept := decides operation state next held start stepped
      have later := fun there : property next =>
        ih (keeps operation state next held stepped) there
      constructor
      · rintro ⟨-, stays⟩
        have there : property next := by
          cases rest with
          | nil => exact stays
          | cons _ _ => exact stays.1
        exact ⟨kept.mp there, (later there).mp stays⟩
      · rintro ⟨meets, others⟩
        exact ⟨start, (later (kept.mpr meets)).mpr others⟩

/-- If, within an invariant, a step is performed with a relation between the states around it exactly
under a condition, and leads back into the invariant, then the relation holds around every step of a
run exactly if its steps meet the condition. -/
theorem steps_iff_runMeets {relation : σ → ι → σ → Prop} (invariant : σ → Prop)
    (decides : ∀ operation before, invariant before →
      ((∃ after, step operation before = some after ∧ relation before operation after) ↔
        condition before operation))
    (keeps : ∀ operation before after, relation before operation after → invariant after)
    (start : invariant state) :
    (∀ earlier operation later, operations = earlier ++ operation :: later →
      ∃ before after, run step earlier state = some before ∧
        step operation before = some after ∧ relation before operation after) ↔
      RunMeets step condition operations state := by
  induction operations generalizing state with
  | nil =>
    refine iff_of_true (fun earlier operation later impossible => ?_) trivial
    exact absurd impossible.symm (List.append_ne_nil_of_right_ne_nil _ (List.cons_ne_nil _ _))
  | cons first rest ih =>
    rw [RunMeets]
    constructor
    · intro every
      obtain ⟨before, next, here, stepped, holds⟩ := every [] first rest rfl
      obtain rfl := Option.some.inj here
      rw [stepped]
      refine ⟨(decides first _ start).mp ⟨next, stepped, holds⟩,
        (ih (keeps _ _ _ holds)).mp fun earlier operation later parts => ?_⟩
      obtain ⟨before, after, reached, there⟩ :=
        every (first :: earlier) operation later (by rw [parts, List.cons_append])
      rw [run, stepped, Option.bind_some] at reached
      exact ⟨before, after, reached, there⟩
    · intro meets earlier operation later parts
      obtain ⟨here, others⟩ := meets
      obtain ⟨next, stepped, holds⟩ := (decides first state start).mpr here
      rw [stepped] at others
      cases earlier with
      | nil =>
        obtain ⟨rfl, rfl⟩ := List.cons.inj parts
        exact ⟨state, next, rfl, stepped, holds⟩
      | cons _ earlier =>
        obtain ⟨rfl, remaining⟩ := List.cons.inj parts
        obtain ⟨before, after, reached, there⟩ :=
          (ih (keeps _ _ _ holds)).mpr others earlier operation later remaining
        refine ⟨before, after, ?_, there⟩
        rw [run, stepped, Option.bind_some, reached]

/-- **Simulation.** If every operation the specification performs is performed by
the implementation in a related state, so is every run of the specification. -/
theorem run_simulates {spec : ι → τ → Option τ} (related : σ → τ → Prop) {model final : τ}
    (simulates : ∀ operation ∈ operations, ∀ state model next, related state model →
      spec operation model = some next → ∃ after, step operation state = some after ∧
        related after next) (runs : run spec operations model = some final)
    (start : related state model) :
    ∃ after, run step operations state = some after ∧ related after final := by
  induction operations generalizing state model with
  | nil =>
    cases runs
    exact ⟨state, rfl, start⟩
  | cons operation rest ih =>
    obtain ⟨next, stepped, remaining⟩ := run_cons_eq_some runs
    obtain ⟨after, performed, here⟩ :=
      simulates operation List.mem_cons_self state model next start stepped
    obtain ⟨last, performedRest, there⟩ :=
      ih (fun other mem => simulates other (List.mem_cons_of_mem _ mem)) remaining here
    exact ⟨last, by rw [run, performed, Option.bind_some, performedRest], there⟩

end DogeCash
