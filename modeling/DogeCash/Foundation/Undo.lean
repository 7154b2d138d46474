import Mathlib.Logic.Basic

/-! # Exact undo of a run

A run leads from a state `before` to a state `after`; an undo procedure works on
a representation of the state and is supposed to lead back. Two relations
between states and representations describe how it goes: `sim`, the
representation is the state, and `bad`, it is damaged beyond repair. `Undoes`
says of one step that its undo keeps damage and that, from an intact
representation, it restores the state exactly when a condition holds. Such
steps compose (`Undoes.comp`), the conditions being conjoined, so the condition
of a whole run is found one step at a time.
-/

namespace DogeCash

variable {σ τ : Type*} {sim bad : σ → τ → Prop}

/-- `undo` leads from `after` back to `before` exactly when `good` holds. -/
structure Undoes (sim bad : σ → τ → Prop) (before after : σ) (good : Prop)
    (undo : τ → Option τ) : Prop where
  restores : good → ∀ image, sim after image → ∃ result, undo image = some result ∧
    sim before result
  damages : ¬good → ∀ image, sim after image → ∃ result, undo image = some result ∧
    bad before result
  keeps : ∀ image, bad after image → ∃ result, undo image = some result ∧ bad before result

namespace Undoes

theorem nothing (state : σ) : Undoes sim bad state state True some where
  restores _ image related := ⟨image, rfl, related⟩
  damages absurd := (absurd trivial).elim
  keeps image related := ⟨image, rfl, related⟩

theorem comp {before middle after : σ} {firstGood secondGood : Prop}
    {firstUndo secondUndo : τ → Option τ}
    (first : Undoes sim bad before middle firstGood firstUndo)
    (second : Undoes sim bad middle after secondGood secondUndo) :
    Undoes sim bad before after (firstGood ∧ secondGood)
      (fun image => (secondUndo image).bind firstUndo) := by
  refine ⟨?_, ?_, ?_⟩
  · rintro ⟨firstHolds, secondHolds⟩ image related
    obtain ⟨result, returned, intact⟩ := second.restores secondHolds image related
    rw [returned, Option.bind_some]
    exact first.restores firstHolds result intact
  · intro fails image related
    by_cases secondHolds : secondGood
    · obtain ⟨result, returned, intact⟩ := second.restores secondHolds image related
      rw [returned, Option.bind_some]
      exact first.damages (fun firstHolds => fails ⟨firstHolds, secondHolds⟩) result intact
    · obtain ⟨result, returned, damaged⟩ := second.damages secondHolds image related
      rw [returned, Option.bind_some]
      exact first.keeps result damaged
  · intro image related
    obtain ⟨result, returned, damaged⟩ := second.keeps image related
    rw [returned, Option.bind_some]
    exact first.keeps result damaged

variable {before after : σ}

theorem congr {good other : Prop} {undo procedure : τ → Option τ}
    (undoes : Undoes sim bad before after good undo) (sameGood : other ↔ good)
    (sameUndo : ∀ image, procedure image = undo image) :
    Undoes sim bad before after other procedure := by
  refine ⟨?_, ?_, ?_⟩
  · intro holds image related
    rw [sameUndo]
    exact undoes.restores (sameGood.mp holds) image related
  · intro fails image related
    rw [sameUndo]
    exact undoes.damages (fun holds => fails (sameGood.mpr holds)) image related
  · intro image related
    rw [sameUndo]
    exact undoes.keeps image related

/-- **Exactness.** When no representation is both intact and damaged, the undo
procedure returns, and it restores the state exactly when the condition holds. -/
theorem exact {good : Prop} {undo : τ → Option τ} (undoes : Undoes sim bad before after good undo)
    (disjoint : ∀ image, bad before image → ¬sim before image) (image : τ)
    (related : sim after image) :
    ∃ result, undo image = some result ∧ (sim before result ↔ good) := by
  by_cases holds : good
  · obtain ⟨result, returned, intact⟩ := undoes.restores holds image related
    exact ⟨result, returned, fun _ => holds, fun _ => intact⟩
  · obtain ⟨result, returned, damaged⟩ := undoes.damages holds image related
    exact ⟨result, returned, fun intact => absurd intact (disjoint result damaged),
      fun holds' => absurd holds' holds⟩

end Undoes

end DogeCash
