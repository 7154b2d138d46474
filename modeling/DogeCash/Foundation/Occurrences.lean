import Mathlib.Data.Finset.Card

/-! # How often a table holds a value

The number of places of a finite table that hold a value, and how it changes when one place is
written.
-/

namespace DogeCash

open Function (update update_of_ne update_self)
open Finset (mem_filter mem_insert mem_univ univ)

variable {κ ι : Type*} [Fintype κ] [DecidableEq ι]

def occurrences (table : κ → ι) (value : ι) : ℕ :=
  (univ.filter fun place => table place = value).card

variable {table : κ → ι} {place : κ} {value entry : ι}

theorem occurrences_eq_zero_iff : occurrences table value = 0 ↔ ∀ place, table place ≠ value := by
  rw [occurrences, Finset.card_eq_zero, Finset.filter_eq_empty_iff]
  exact ⟨fun none place => none (mem_univ place), fun none place _ => none place⟩

theorem occurrences_pos (holds : table place = value) : 0 < occurrences table value :=
  Finset.card_pos.mpr ⟨place, mem_filter.mpr ⟨mem_univ place, holds⟩⟩

variable {other : κ → ι} {image : ι}

theorem occurrences_congr (same : ∀ place, table place = value ↔ other place = image) :
    occurrences table value = occurrences other image := by
  unfold occurrences
  simp only [same]

theorem occurrences_lt (within : ∀ place, table place = value → other place = image)
    (missing : table place ≠ value) (holds : other place = image) :
    occurrences table value < occurrences other image := by
  refine Finset.card_lt_card (Finset.ssubset_iff_of_subset ?_ |>.mpr ⟨place, ?_, ?_⟩)
  · intro there mem
    rw [mem_filter] at mem ⊢
    exact ⟨mem.1, within there mem.2⟩
  · exact mem_filter.mpr ⟨mem_univ place, holds⟩
  · exact fun mem => missing (mem_filter.mp mem).2

variable [DecidableEq κ]

theorem occurrences_update_of_ne (before : table place ≠ value) (after : entry ≠ value) :
    occurrences (update table place entry) value = occurrences table value := by
  unfold occurrences
  congr 1
  ext other
  by_cases same : other = place
  · subst other
    simp [mem_univ, update_self, before, after]
  · simp [mem_univ, update_of_ne same]

theorem occurrences_update_self (before : table place ≠ value) :
    occurrences (update table place value) value = occurrences table value + 1 := by
  unfold occurrences
  have places : (univ.filter fun other => update table place value other = value) =
      insert place (univ.filter fun other => table other = value) := by
    ext other
    by_cases same : other = place
    · subst other
      simp [mem_univ, update_self, mem_insert]
    · simp only [mem_filter, mem_univ, true_and, update_of_ne same, mem_insert, same, false_or]
  rw [places, Finset.card_insert_of_notMem]
  exact fun mem => before (mem_filter.mp mem).2

theorem occurrences_update_add_one (before : table place = value) (after : entry ≠ value) :
    occurrences (update table place entry) value + 1 = occurrences table value := by
  have left : update table place entry place ≠ value := by
    rwa [update_self]
  have back := occurrences_update_self left
  rw [Function.update_idem, ← before, Function.update_eq_self] at back
  rw [← before]
  exact back.symm

end DogeCash
