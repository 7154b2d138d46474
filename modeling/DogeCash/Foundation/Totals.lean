import Mathlib.Algebra.BigOperators.Group.Finset.Piecewise
import Mathlib.Algebra.Ring.Int.Defs
import Mathlib.Data.Fintype.Basic
import Mathlib.Data.List.DropRight

/-! # Totals of slots and of maps

Each slot of a list has a weight, empty slots having none. The total of a list does not
change when empty slots at its end are dropped, and changes by two weights when a slot is
written. The total of a map over a finite type of keys changes likewise when one key is
updated.
-/

namespace DogeCash.Totals

variable {α κ β : Type*}

def total (weight : α → Int) (slots : List α) : Int := (slots.map weight).sum

variable {weight : α → Int} {slots : List α}

theorem total_eq_zero (weightless : ∀ slot ∈ slots, weight slot = 0) : total weight slots = 0 := by
  refine List.sum_eq_zero ?_
  intro value mem
  obtain ⟨slot, inside, rfl⟩ := List.mem_map.mp mem
  exact weightless slot inside

theorem total_rdropWhile {isEmpty : α → Bool}
    (weightless : ∀ slot, isEmpty slot = true → weight slot = 0) (slots : List α) :
    total weight (slots.rdropWhile isEmpty) = total weight slots := by
  have dropped : total weight (slots.rtakeWhile isEmpty) = 0 :=
    total_eq_zero fun slot mem => weightless slot (List.mem_rtakeWhile_imp mem)
  have split : slots.rdropWhile isEmpty ++ slots.rtakeWhile isEmpty = slots :=
    List.rdropWhile_append_rtakeWhile
  calc total weight (slots.rdropWhile isEmpty)
      = total weight (slots.rdropWhile isEmpty) + total weight (slots.rtakeWhile isEmpty) := by
        rw [dropped, Int.add_zero]
    _ = total weight (slots.rdropWhile isEmpty ++ slots.rtakeWhile isEmpty) := by
        simp only [total, List.map_append, List.sum_append]
    _ = total weight slots := by rw [split]

theorem total_set {position : Nat} {old : α} (inside : slots[position]? = some old) (value : α) :
    total weight (slots.set position value) = total weight slots - weight old + weight value := by
  obtain ⟨-, rfl⟩ := List.getElem?_eq_some_iff.mp inside
  have bound' : position < (slots.map weight).length := by rwa [List.length_map]
  rw [total, total, List.map_set, List.sum_set', dif_pos bound', List.getElem_map]
  omega

theorem sum_add_of_agree {M : Type*} [Fintype κ] [DecidableEq κ] [AddCommMonoid M]
    {first second : κ → M} {place : κ} (agree : ∀ other ≠ place, second other = first other) :
    ∑ other, second other + first place = ∑ other, first other + second place := by
  have rest : ∑ other ∈ Finset.univ.erase place, second other =
      ∑ other ∈ Finset.univ.erase place, first other :=
    Finset.sum_congr rfl fun other mem => agree other (Finset.ne_of_mem_erase mem)
  rw [← Finset.add_sum_erase _ second (Finset.mem_univ place),
    ← Finset.add_sum_erase _ first (Finset.mem_univ place), rest]
  ac_rfl

theorem sum_update [Fintype κ] [DecidableEq κ] (weight : β → Int) (map : κ → β) (key : κ)
    (value : β) :
    ∑ other, weight (Function.update map key value other) =
      (∑ other, weight (map other)) - weight (map key) + weight value := by
  have agree : ∀ other ≠ key, weight (Function.update map key value other) = weight (map other) :=
    fun other ne => by rw [Function.update_of_ne ne]
  have exchanged := sum_add_of_agree agree
  rw [Function.update_self] at exchanged
  omega

end DogeCash.Totals
