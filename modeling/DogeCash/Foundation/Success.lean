import Mathlib.Logic.Basic

/-! # Computations that succeed when others do

`Succeeds first second` says that whenever the first computation returns a value,
the second returns the same value. The relation goes through sequencing and
through checks, so that two versions of a program which differ in how much they
check are compared piece by piece. `Returns` says of one computation what holds of the
value it returns, if it returns one, and `Yields` that it does return one.
-/

namespace DogeCash

variable {ε α β : Type}

/-- Whenever `first` returns a value, `second` returns it as well. -/
def Succeeds (first second : Except ε α) : Prop := ∀ value, first = .ok value → second = .ok value

namespace Succeeds

theorem refl (computation : Except ε α) : Succeeds computation computation :=
  fun _ ok => ok

theorem error (reason : ε) (second : Except ε α) : Succeeds (.error reason) second :=
  fun _ ok => (by cases ok)

variable {first second : Except ε α}

theorem bind {firstNext secondNext : α → Except ε β} (start : Succeeds first second)
    (next : ∀ value, Succeeds (firstNext value) (secondNext value)) :
    Succeeds (first >>= firstNext) (second >>= secondNext) := by
  intro result ok
  cases first with
  | error reason => cases ok
  | ok value =>
    rw [start value rfl]
    exact next value result ok

theorem check {firstFails secondFails : Prop} [Decidable firstFails] [Decidable secondFails]
    {reason other : ε} (weaker : secondFails → firstFails) (rest : Succeeds first second) :
    Succeeds (if firstFails then .error reason else first)
      (if secondFails then .error other else second) := by
  by_cases fails : firstFails
  · rw [if_pos fails]
    exact error reason _
  · rw [if_neg fails, if_neg fun also => fails (weaker also)]
    exact rest

theorem choice {condition : Prop} [Decidable condition] {firstElse secondElse : Except ε α}
    (holds : condition → Succeeds first second) (fails : ¬condition → Succeeds firstElse secondElse)
    :
    Succeeds (if condition then first else firstElse)
      (if condition then second else secondElse) := by
  by_cases decided : condition
  · rw [if_pos decided, if_pos decided]
    exact holds decided
  · rw [if_neg decided, if_neg decided]
    exact fails decided

end Succeeds

def Returns (property : α → Prop) (computation : Except ε α) : Prop :=
  ∀ value, computation = .ok value → property value

namespace Returns

variable {property : α → Prop}

theorem ok {value : α} (holds : property value) :
    Returns property (Except.ok value : Except ε α) := by
  intro other same
  cases same
  exact holds

theorem error (reason : ε) : Returns property (.error reason) := fun _ ok => (by cases ok)

theorem any (computation : Except ε α) : Returns (fun _ => True) computation := fun _ _ => trivial

theorem bind {before : β → Prop} {first : Except ε β} {next : β → Except ε α}
    (start : Returns before first) (rest : ∀ value, before value → Returns property (next value)) :
    Returns property (first >>= next) := by
  intro result ok
  cases first with
  | error reason => cases ok
  | ok value => exact rest value (start value rfl) result ok

theorem choice {condition : Prop} [Decidable condition] {first second : Except ε α}
    (holds : Returns property first) (fails : Returns property second) :
    Returns property (if condition then first else second) := by
  by_cases decided : condition
  · rw [if_pos decided]
    exact holds
  · rw [if_neg decided]
    exact fails

end Returns

def Yields (property : α → Prop) (computation : Except ε α) : Prop :=
  ∃ value, computation = .ok value ∧ property value

namespace Yields

variable {before property : α → Prop} {after : β → Prop} {computation : Except ε α}

theorem ok {value : α} (holds : property value) :
    Yields property (Except.ok value : Except ε α) := ⟨value, rfl, holds⟩

theorem mono (yields : Yields before computation)
    (weaker : ∀ value, before value → property value) : Yields property computation := by
  obtain ⟨value, ok, holds⟩ := yields
  exact ⟨value, ok, weaker value holds⟩

theorem bind {next : α → Except ε β} (start : Yields before computation)
    (rest : ∀ value, before value → Yields after (next value)) :
    Yields after (computation >>= next) := by
  obtain ⟨value, rfl, holds⟩ := start
  exact rest value holds

theorem map {change : α → β} (start : Yields before computation)
    (rest : ∀ value, before value → after (change value)) :
    Yields after (computation.map change) := by
  obtain ⟨value, rfl, holds⟩ := start
  exact ⟨change value, rfl, rest value holds⟩

theorem foldlM {ι σ : Type} {step : σ → ι → Except ε σ} (invariant : σ → Prop) {items : List ι}
    (steps : ∀ item ∈ items, ∀ state, invariant state → Yields invariant (step state item))
    {state : σ} (start : invariant state) : Yields invariant (items.foldlM step state) := by
  induction items generalizing state with
  | nil => exact ok start
  | cons item items ih =>
    refine bind (steps item List.mem_cons_self state start) fun next holds => ?_
    exact ih (fun later mem => steps later (List.mem_cons_of_mem _ mem)) holds

end Yields

end DogeCash
