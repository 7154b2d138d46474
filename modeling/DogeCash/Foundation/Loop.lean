import Mathlib.Data.List.Basic

/-! # Loops that run until they are done

Each round of such a loop goes on with a new state, is done with a result, or fails. The loop is
given fuel; it returns as soon as the fuel is above a measure that every round lowers. Where each
round lowers a measure from whatever state, the loop needs no fuel (`loopWithin`).
-/

namespace DogeCash

variable {ε σ α : Type}

/-- Run the rounds of a loop from a state on, as long as there is fuel. -/
def repeatUntil (body : ℕ → σ → Except ε (σ ⊕ α)) : ℕ → ℕ → σ → Option (Except ε α)
  | 0, _, _ => none
  | fuel + 1, round, state =>
    match body round state with
    | .error reason => some (.error reason)
    | .ok (.inl next) => repeatUntil body fuel (round + 1) next
    | .ok (.inr result) => some (.ok result)

section

variable {body : ℕ → σ → Except ε (σ ⊕ α)}

variable {invariant : σ → Prop} {state : σ}

theorem repeatUntil_returns {measure : σ → ℕ}
    (lowers : ∀ round state next, invariant state → body round state = .ok (.inl next) →
      invariant next ∧ measure next < measure state) (start : invariant state) (round : ℕ) :
    ∃ outcome, ∀ fuel, measure state < fuel → repeatUntil body fuel round state = some outcome := by
  suffices returns : ∃ outcome, ∀ fuel, measure state ≤ fuel →
      repeatUntil body (fuel + 1) round state = some outcome by
    obtain ⟨outcome, returned⟩ := returns
    refine ⟨outcome, fun fuel enough => ?_⟩
    obtain ⟨less, rfl⟩ := Nat.exists_eq_add_one_of_ne_zero (Nat.ne_zero_of_lt enough)
    exact returned less (Nat.lt_succ_iff.mp enough)
  induction bound : measure state using Nat.strongRecOn generalizing state round with
  | ind bound ih =>
    cases step : body round state with
    | error reason => exact ⟨.error reason, fun fuel _ => by simp only [repeatUntil, step]⟩
    | ok outcome =>
      cases outcome with
      | inl next =>
        obtain ⟨kept, less⟩ := lowers round state next start step
        obtain ⟨outcome, returned⟩ := ih (measure next) (by omega) kept (round + 1) rfl
        refine ⟨outcome, fun fuel enough => ?_⟩
        obtain ⟨left, rfl⟩ : ∃ left, fuel = left + 1 := ⟨fuel - 1, by omega⟩
        simp only [repeatUntil, step]
        exact returned left (by omega)
      | inr result => exact ⟨.ok result, fun fuel _ => by simp only [repeatUntil, step]⟩

theorem repeatUntil_never (goesOn : ∀ round state, invariant state →
      ∃ next, body round state = .ok (.inl next) ∧ invariant next) (start : invariant state)
    (fuel round : ℕ) :
    repeatUntil body fuel round state = none := by
  induction fuel generalizing round state with
  | zero => rfl
  | succ fuel ih =>
    obtain ⟨next, step, kept⟩ := goesOn round state start
    rw [repeatUntil, step]
    exact ih kept (round + 1)

theorem repeatUntil_result {result : α} {fuel round : ℕ}
    (keeps : ∀ round state next, invariant state → body round state = .ok (.inl next) →
      invariant next) (start : invariant state)
    (returns : repeatUntil body fuel round state = some (.ok result)) :
    ∃ last final, invariant final ∧ body last final = .ok (.inr result) := by
  induction fuel generalizing round state with
  | zero => cases returns
  | succ fuel ih =>
    unfold repeatUntil at returns
    cases step : body round state with
    | error reason =>
      rw [step] at returns
      cases returns
    | ok outcome =>
      rw [step] at returns
      cases outcome with
      | inl next => exact ih (keeps round state next start step) returns
      | inr other =>
        cases returns
        exact ⟨round, state, start, step⟩

end

/-- Run the rounds of a loop, each of which lowers a measure if another one follows. -/
def loopWithin (body : σ → Except ε (σ ⊕ α)) (measure : σ → ℕ)
    (lowers : ∀ state next, body state = .ok (.inl next) → measure next < measure state)
    (state : σ) : Except ε α :=
  match _step : body state with
  | .error reason => .error reason
  | .ok (.inl next) => loopWithin body measure lowers next
  | .ok (.inr result) => .ok result
termination_by measure state
decreasing_by exact lowers state next _step

section

variable {body : σ → Except ε (σ ⊕ α)} {measure : σ → ℕ}
  {lowers : ∀ state next, body state = .ok (.inl next) → measure next < measure state}

theorem loopWithin_of_next {state next : σ} (step : body state = .ok (.inl next)) :
    loopWithin body measure lowers state = loopWithin body measure lowers next := by
  rw [loopWithin]
  split
  case h_1 other found => cases found.symm.trans step
  case h_2 other found => cases found.symm.trans step; rfl
  case h_3 other found => cases found.symm.trans step

theorem loopWithin_of_done {state : σ} {result : α} (step : body state = .ok (.inr result)) :
    loopWithin body measure lowers state = .ok result := by
  rw [loopWithin]
  split
  case h_1 other found => cases found.symm.trans step
  case h_2 other found => cases found.symm.trans step
  case h_3 other found => cases found.symm.trans step; rfl

end

end DogeCash
