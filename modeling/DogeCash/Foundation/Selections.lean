import Mathlib.Algebra.BigOperators.Group.Finset.Basic
import Mathlib.Algebra.Order.BigOperators.Group.List

/-! # Selections from a list

A list of flags selects items of a list. What is selected from a list, or from a list in
another order, is worth at most as much as the list if nothing is worth less than zero.
-/

namespace DogeCash

variable {α κ M : Type*}

def selected : List Bool → List α → List α
  | flag :: flags, item :: items =>
    if flag then item :: selected flags items else selected flags items
  | _, _ => []

theorem selected_sublist (flags : List Bool) (items : List α) :
    (selected flags items).Sublist items := by
  induction flags generalizing items with
  | nil => exact List.nil_sublist items
  | cons flag flags ih =>
    cases items with
    | nil => exact List.Sublist.slnil
    | cons item items =>
      unfold selected
      split_ifs
      · exact (ih items).cons_cons item
      · exact (ih items).cons item

theorem selected_replicate_true (items : List α) :
    selected (List.replicate items.length true) items = items := by
  induction items with
  | nil => rfl
  | cons item items ih =>
    rw [List.length_cons, List.replicate_succ, selected, if_pos rfl, ih]

theorem selected_replicate_false (count : ℕ) (items : List α) :
    selected (List.replicate count false) items = [] := by
  induction count generalizing items with
  | zero => rfl
  | succ count ih =>
    cases items with
    | nil => rfl
    | cons item items =>
      rw [List.replicate_succ, selected, if_neg Bool.false_ne_true, ih]

variable {items : List α} {item : α}

theorem sum_selected_set [AddCommMonoid M] (value : α → M) {flags : List Bool} {i : ℕ}
    (off : flags[i]? = some false) (here : items[i]? = some item) :
    ((selected (flags.set i true) items).map value).sum =
      ((selected flags items).map value).sum + value item := by
  induction flags generalizing items i with
  | nil => cases off
  | cons flag flags ih =>
    cases items with
    | nil => cases here
    | cons first items =>
      cases i with
      | zero =>
        cases off
        cases here
        rw [List.set_cons_zero, selected, if_pos rfl, selected, if_neg Bool.false_ne_true,
          List.map_cons, List.sum_cons, add_comm]
      | succ i =>
        have later := ih (List.getElem?_cons_succ.symm.trans off)
          (List.getElem?_cons_succ.symm.trans here)
        rw [List.set_cons_succ, selected, selected]
        split_ifs
        · rw [List.map_cons, List.sum_cons, later, List.map_cons, List.sum_cons, add_assoc]
        · exact later

theorem perm_cons_filter_ne [DecidableEq κ] {key : α → κ} (distinct : (items.map key).Nodup)
    (mem : item ∈ items) :
    items.Perm (item :: items.filter fun other => key other ≠ key item) := by
  induction items with
  | nil => cases mem
  | cons first rest ih =>
    rw [List.map_cons, List.nodup_cons] at distinct
    obtain ⟨absent, restDistinct⟩ := distinct
    rcases List.mem_cons.mp mem with same | later
    · have kept : (rest.filter fun other => key other ≠ key first) = rest :=
        List.filter_eq_self.mpr fun other inside => decide_eq_true fun equal =>
          absent (equal ▸ List.mem_map_of_mem inside)
      rw [same, List.filter_cons_of_neg (by simp), kept]
    · have differs : key first ≠ key item :=
        fun equal => absent (equal ▸ List.mem_map_of_mem later)
      rw [List.filter_cons, if_pos (decide_eq_true differs)]
      exact ((ih restDistinct later).cons first).trans (List.Perm.swap item first _)

theorem sum_keys [AddCommMonoid M] [DecidableEq κ] {value : κ → M} {items : List (M × κ)}
    (distinct : (items.map Prod.snd).Nodup) (worth : ∀ item ∈ items, value item.2 = item.1) :
    ∑ key ∈ (items.map Prod.snd).toFinset, value key = (items.map Prod.fst).sum := by
  rw [List.sum_toFinset value distinct, List.map_map]
  exact congrArg List.sum (List.map_congr_left worth)

theorem nodup_of_subperm {part items : List α} (inside : part.Subperm items)
    (distinct : items.Nodup) : part.Nodup := by
  obtain ⟨arranged, same, sublist⟩ := inside
  exact same.nodup_iff.mp (distinct.sublist sublist)

theorem sum_le_of_subperm [AddCommMonoid M] [PartialOrder M] [IsOrderedAddMonoid M]
    {part items : List M} (inside : part.Subperm items) (nonnegative : ∀ item ∈ items, 0 ≤ item) :
    part.sum ≤ items.sum := by
  obtain ⟨arranged, same, sublist⟩ := inside
  rw [← same.sum_eq]
  exact sublist.sum_le_sum nonnegative

end DogeCash
