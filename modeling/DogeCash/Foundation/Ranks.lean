import Mathlib.Data.List.Sort

/-! # Ranks in a sorted list

A list is sorted from the greatest key to the least by a procedure that may leave equal
keys in any order. Where the keys are distinct, the place of an element is the number of
elements with a greater key, in whatever order the list was given.
-/

namespace DogeCash

variable {α κ : Type*} [LinearOrder κ]

/-- A procedure that sorts a list by a key, from the greatest to the least. What it does
with equal keys is left open. -/
structure DescendingSort (key : α → κ) where
  sort : List α → List α
  perm : ∀ items, (sort items).Perm items
  sorted : ∀ items, (sort items).Pairwise fun first second => key second ≤ key first

def DescendingSort.insertion (key : α → κ) : DescendingSort key where
  sort items := items.insertionSort fun first second => key second ≤ key first
  perm items := List.perm_insertionSort _ items
  sorted items := by
    have total : Std.Total fun first second => key second ≤ key first :=
      ⟨fun first second => le_total (key second) (key first)⟩
    have trans : IsTrans α fun first second => key second ≤ key first :=
      ⟨fun _ _ _ above below => le_trans below above⟩
    exact List.pairwise_insertionSort _ items

def placeOf (test : α → Bool) : List α → Option ℕ
  | [] => none
  | item :: rest => if test item then some 1 else (placeOf test rest).map (· + 1)

variable {test : α → Bool} {items : List α} {item : α}

theorem placeOf_eq_none_iff : placeOf test items = none ↔ ∀ item ∈ items, test item = false := by
  induction items with
  | nil => simp [placeOf]
  | cons item rest ih =>
    rw [placeOf]
    cases accepted : test item with
    | true => simp [accepted]
    | false => simp [accepted, ih]

variable {key : α → κ}

theorem placeOf_of_pairwise_lt (sorted : items.Pairwise fun first second => key second < key first)
    (mem : item ∈ items) (accepted : ∀ other ∈ items, test other = true ↔ other = item) :
    placeOf test items = some (1 + items.countP fun other => key item < key other) := by
  induction items with
  | nil => cases mem
  | cons first rest ih =>
    obtain ⟨below, restSorted⟩ := List.pairwise_cons.mp sorted
    rw [placeOf]
    by_cases here : first = item
    · subst here
      have greater : rest.countP (fun other => key first < key other) = 0 := by
        apply List.countP_eq_zero.mpr
        intro other inside
        simpa using (below other inside).le
      rw [if_pos ((accepted first List.mem_cons_self).mpr rfl), List.countP_cons, greater]
      simp
    · have later : item ∈ rest := (List.mem_cons.mp mem).resolve_left (Ne.symm here)
      have refused : ¬test first = true := fun passed =>
        here ((accepted first List.mem_cons_self).mp passed)
      have found := ih restSorted later fun other inside =>
        accepted other (List.mem_cons_of_mem _ inside)
      have above : decide (key item < key first) = true := decide_eq_true (below item later)
      rw [if_neg refused, found, List.countP_cons, if_pos above, Option.map_some]
      congr 1

/-- **Rank.** After sorting by distinct keys an element has the place that the number of
greater keys gives it. -/
theorem DescendingSort.placeOf_sort (sorting : DescendingSort key)
    (distinct : (items.map key).Nodup) (mem : item ∈ items)
    (accepted : ∀ other ∈ items, test other = true ↔ other = item) :
    placeOf test (sorting.sort items) =
      some (1 + items.countP fun other => key item < key other) := by
  have perm := sorting.perm items
  have sortedDistinct : (sorting.sort items).Pairwise fun first second =>
      key first ≠ key second := by
    have nodup : ((sorting.sort items).map key).Nodup := ((perm.map key).nodup_iff).mpr distinct
    exact List.pairwise_map.mp nodup
  have strict : (sorting.sort items).Pairwise fun first second => key second < key first := by
    apply (sorting.sorted items).imp₂ ?_ sortedDistinct
    intro first second le ne
    exact lt_of_le_of_ne le (Ne.symm ne)
  rw [← perm.countP_eq]
  apply placeOf_of_pairwise_lt strict (perm.mem_iff.mpr mem)
  intro other inside
  exact accepted other (perm.mem_iff.mp inside)

end DogeCash
