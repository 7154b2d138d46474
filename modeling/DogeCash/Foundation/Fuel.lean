import Mathlib.Order.MinMax

/-! # Programs that are given fuel

A program with loops takes the number of rounds that each of its loops may run, and returns
nothing where this is too small. It ends when one result comes back for every large enough number.
-/

namespace DogeCash

variable {σ α β ι : Type}

/-- All large enough amounts of fuel give one result, which has the property. -/
def Ends (property : α → Prop) (program : ℕ → Option α) : Prop :=
  ∃ result, property result ∧ ∃ enough, ∀ fuel, enough ≤ fuel → program fuel = some result

def doWhile (body : σ → σ) (again : σ → Bool) : ℕ → σ → Option σ
  | 0, _ => none
  | fuel + 1, state =>
    if again (body state) then doWhile body again fuel (body state) else some (body state)

namespace Ends

variable {before property : α → Prop} {after : β → Prop} {program : ℕ → Option α}

theorem ret {result : α} (holds : property result) : Ends property fun _ => some result :=
  ⟨result, holds, 0, fun _ _ => rfl⟩

theorem mono (ends : Ends before program) (weaker : ∀ result, before result → property result) :
    Ends property program := by
  obtain ⟨result, holds, returns⟩ := ends
  exact ⟨result, weaker result holds, returns⟩

theorem of_none (never : ∀ fuel, program fuel = none) : ¬Ends property program := by
  rintro ⟨result, -, enough, returns⟩
  have returned := returns enough le_rfl
  rw [never] at returned
  cases returned

theorem bind {next : ℕ → α → Option β} (first : Ends before program)
    (rest : ∀ result, before result → Ends after fun fuel => next fuel result) :
    Ends after fun fuel => program fuel >>= next fuel := by
  obtain ⟨middle, holds, enough, returns⟩ := first
  obtain ⟨result, meets, more, ends⟩ := rest middle holds
  refine ⟨result, meets, max enough more, fun fuel both => ?_⟩
  simp only [returns fuel (le_of_max_le_left both), Option.bind_eq_bind, Option.bind_some]
  exact ends fuel (le_of_max_le_right both)

theorem map {change : α → β} (first : Ends before program)
    (rest : ∀ result, before result → after (change result)) :
    Ends after fun fuel => (program fuel).map change := by
  obtain ⟨middle, holds, enough, returns⟩ := first
  refine ⟨change middle, rest middle holds, enough, fun fuel both => ?_⟩
  simp [returns fuel both]

theorem foldlM {step : ℕ → σ → ι → Option σ} (invariant : List ι → σ → Prop)
    (steps : ∀ item rest state, invariant (item :: rest) state →
      Ends (invariant rest) fun fuel => step fuel state item)
    (items : List ι) {state : σ} (start : invariant items state) :
    Ends (invariant []) fun fuel => items.foldlM (step fuel) state := by
  induction items generalizing state with
  | nil => exact ret start
  | cons item rest ih =>
    exact bind (steps item rest state start) fun next holds => ih holds

theorem loop {body : σ → σ} {again : σ → Bool} (entry exit : σ → Prop)
    (measure : σ → ℕ) (runs : ∀ state, entry state → exit (body state))
    (back : ∀ state, exit state → again state = true → entry state)
    (lowers : ∀ state, entry state → again (body state) = true →
      measure (body state) < measure state) {state : σ} (start : entry state) :
    Ends (fun final => exit final ∧ again final = false) fun fuel =>
      doWhile body again fuel state := by
  induction bound : measure state using Nat.strongRecOn generalizing state with
  | ind bound ih =>
    have ran := runs state start
    cases goesOn : again (body state) with
    | false =>
      refine ⟨body state, ⟨ran, goesOn⟩, 1, fun fuel enough => ?_⟩
      obtain ⟨left, rfl⟩ : ∃ left, fuel = left + 1 := ⟨fuel - 1, by omega⟩
      exact if_neg (by simp [goesOn])
    | true =>
      have less := lowers state start goesOn
      obtain ⟨result, holds, more, returns⟩ := ih _ (bound ▸ less) (back _ ran goesOn) rfl
      refine ⟨result, holds, more + 1, fun fuel enough => ?_⟩
      obtain ⟨left, rfl⟩ : ∃ left, fuel = left + 1 := ⟨fuel - 1, by omega⟩
      exact (if_pos goesOn).trans (returns left (by omega))

end Ends

end DogeCash
