import Mathlib.Algebra.Ring.Int.Defs
import Mathlib.Data.List.Induction
import Mathlib.Data.List.Sort

/-! # Greedy choices in a sorted list

The items of a list are visited in order, and each one that still fits under a limit is taken.
The list is sorted by a key that may leave ties. What is taken does not depend on how ties are
left exactly if two tied neighbours never both fit (`greedy_ordering_iff`).
-/

namespace DogeCash

open List (append_assoc cons_append mem_cons mem_cons_of_mem mem_cons_self pairwise_append
  pairwise_cons)

variable {α β κ : Type*}

/-- The items that are taken, in order, with what is left of the limit. -/
def greedy (amount : α → ℤ) (limit : ℤ) : List α → List α
  | [] => []
  | item :: rest =>
    if amount item ≤ limit then item :: greedy amount (limit - amount item) rest
    else greedy amount limit rest

def spent (amount : α → ℤ) (limit : ℤ) (items : List α) : ℤ :=
  ((greedy amount limit items).map amount).sum

section

variable {amount : α → ℤ} {limit : ℤ} {item other : α} {items front back rest : List α}

theorem greedy_of_fits (fits : amount item ≤ limit) :
    greedy amount limit (item :: rest) = item :: greedy amount (limit - amount item) rest :=
  if_pos fits

theorem greedy_of_exceeds (exceeds : limit < amount item) :
    greedy amount limit (item :: rest) = greedy amount limit rest :=
  if_neg (Int.not_le.mpr exceeds)

theorem greedy_sublist (amount : α → ℤ) (limit : ℤ) (items : List α) :
    (greedy amount limit items).Sublist items := by
  induction items generalizing limit with
  | nil => exact .slnil
  | cons item rest ih =>
    rw [greedy]
    split
    · exact (ih _).cons_cons item
    · exact (ih _).cons item

theorem spent_of_fits (fits : amount item ≤ limit) :
    spent amount limit (item :: rest) = amount item + spent amount (limit - amount item) rest := by
  rw [spent, greedy_of_fits fits, List.map_cons, List.sum_cons, spent]

theorem spent_of_exceeds (exceeds : limit < amount item) :
    spent amount limit (item :: rest) = spent amount limit rest := by
  rw [spent, greedy_of_exceeds exceeds, spent]

theorem greedy_append (amount : α → ℤ) (limit : ℤ) (front back : List α) :
    greedy amount limit (front ++ back) =
      greedy amount limit front ++ greedy amount (limit - spent amount limit front) back := by
  induction front generalizing limit with
  | nil => rw [spent, greedy, List.map_nil, List.sum_nil, Int.sub_zero]; rfl
  | cons item rest ih =>
    by_cases fits : amount item ≤ limit
    · rw [cons_append, greedy_of_fits fits, greedy_of_fits fits, ih, spent_of_fits fits,
        ← Int.sub_sub, cons_append]
    · have exceeds := Int.not_le.mp fits
      rw [cons_append, greedy_of_exceeds exceeds, greedy_of_exceeds exceeds, ih,
        spent_of_exceeds exceeds]

theorem spent_le (amount : α → ℤ) (nonneg : 0 ≤ limit) (items : List α) :
    spent amount limit items ≤ limit := by
  induction items generalizing limit with
  | nil => exact nonneg
  | cons item rest ih =>
    by_cases fits : amount item ≤ limit
    · have := ih (Int.sub_nonneg_of_le fits)
      rw [spent_of_fits fits]
      omega
    · rw [spent_of_exceeds (Int.not_le.mp fits)]
      exact ih nonneg

theorem amount_le_of_mem_greedy (nonneg : ∀ item ∈ items, 0 ≤ amount item)
    (taken : item ∈ greedy amount limit items) : amount item ≤ limit := by
  induction items generalizing limit with
  | nil => cases taken
  | cons first rest ih =>
    have others := fun other mem => nonneg other (mem_cons_of_mem first mem)
    by_cases fits : amount first ≤ limit
    · rw [greedy_of_fits fits] at taken
      rcases mem_cons.mp taken with rfl | later
      · exact fits
      · have := ih others later
        have := nonneg first mem_cons_self
        omega
    · rw [greedy_of_exceeds (Int.not_le.mp fits)] at taken
      exact ih others taken

theorem greedy_swap (nonneg : 0 ≤ amount item) (nonneg' : 0 ≤ amount other)
    (notBoth : ¬(amount item ≤ limit ∧ amount other ≤ limit)) :
    greedy amount limit (item :: other :: rest) = greedy amount limit (other :: item :: rest) := by
  by_cases fits : amount item ≤ limit
  · have exceeds : limit < amount other := Int.not_le.mp fun fits' => notBoth ⟨fits, fits'⟩
    have still : limit - amount item < amount other := by omega
    rw [greedy_of_fits fits, greedy_of_exceeds still, greedy_of_exceeds exceeds,
      greedy_of_fits fits]
  · have exceeds := Int.not_le.mp fits
    rw [greedy_of_exceeds exceeds]
    by_cases fits' : amount other ≤ limit
    · rw [greedy_of_fits fits', greedy_of_fits fits', greedy_of_exceeds (by omega)]
    · have exceeds' := Int.not_le.mp fits'
      rw [greedy_of_exceeds exceeds', greedy_of_exceeds exceeds', greedy_of_exceeds exceeds]

end

/-! ## Orders that a sort may leave -/

section

variable [PartialOrder κ] {key : α → κ} {items order order' front back : List α} {a b : α}

/-- The items, from the greatest key to the least. -/
structure IsOrdering (key : α → κ) (items order : List α) : Prop where
  perm : order.Perm items
  sorted : order.Pairwise fun first second => key second ≤ key first

theorem IsOrdering.swap (ordering : IsOrdering key items (front ++ a :: b :: back))
    (tied : key a = key b) : IsOrdering key items (front ++ b :: a :: back) where
  perm := (List.Perm.append_left front (List.Perm.swap a b back)).trans ordering.perm
  sorted := by
    obtain ⟨first, second, across⟩ := pairwise_append.mp ordering.sorted
    obtain ⟨aboveAll, rest⟩ := pairwise_cons.mp second
    obtain ⟨above, last⟩ := pairwise_cons.mp rest
    refine pairwise_append.mpr ⟨first, ?_, fun x mem y later => ?_⟩
    · refine pairwise_cons.mpr
        ⟨fun x mem => ?_, pairwise_cons.mpr ⟨fun x mem => ?_, last⟩⟩
      · rcases mem_cons.mp mem with rfl | mem
        · exact le_of_eq tied
        · exact above x mem
      · exact aboveAll x (mem_cons_of_mem b mem)
    · apply across x mem y
      rcases mem_cons.mp later with rfl | later
      · exact mem_cons_of_mem a mem_cons_self
      · rcases mem_cons.mp later with rfl | later
        · exact mem_cons_self
        · exact mem_cons_of_mem a (mem_cons_of_mem b later)

variable {result : List α → β}

theorem IsOrdering.moveFront
    (swaps : ∀ front a b back, IsOrdering key items (front ++ a :: b :: back) → key a = key b →
      result (front ++ a :: b :: back) = result (front ++ b :: a :: back)) {middle : List α}
    (ordering : IsOrdering key items (front ++ (middle ++ a :: back)))
    (tied : ∀ m ∈ middle, key m = key a) :
    IsOrdering key items (front ++ a :: (middle ++ back)) ∧
      result (front ++ (middle ++ a :: back)) = result (front ++ a :: (middle ++ back)) := by
  induction middle using List.reverseRecOn generalizing back with
  | nil => exact ⟨ordering, rfl⟩
  | append_singleton middle m ih =>
    have same : key m = key a := tied m (List.mem_append_right _ mem_cons_self)
    rw [append_assoc, List.singleton_append, ← append_assoc] at ordering ⊢
    have step := swaps _ m a back ordering same
    have swapped := ordering.swap same
    rw [append_assoc] at swapped
    obtain ⟨moved, equal⟩ := ih swapped fun x mem => tied x (List.mem_append_left _ mem)
    rw [append_assoc, append_assoc] at step
    rw [append_assoc, append_assoc, List.singleton_append]
    exact ⟨moved, step.trans equal⟩

/-- **What is the same after a swap of tied neighbours is the same for all orderings.** -/
theorem IsOrdering.result_eq
    (swaps : ∀ front a b back, IsOrdering key items (front ++ a :: b :: back) → key a = key b →
      result (front ++ a :: b :: back) = result (front ++ b :: a :: back))
    (ordering : IsOrdering key items order) (ordering' : IsOrdering key items order') :
    result order = result order' := by
  suffices behind : ∀ front, IsOrdering key items (front ++ order) →
      IsOrdering key items (front ++ order') → result (front ++ order) = result (front ++ order') by
    exact behind [] ordering ordering'
  clear ordering ordering'
  intro front
  induction order generalizing front order' with
  | nil =>
    intro ordering ordering'
    have perm := ordering.perm.trans ordering'.perm.symm
    rw [(List.perm_append_left_iff front).mp perm |>.symm.eq_nil]
  | cons a order ih =>
    intro ordering ordering'
    have perm := (List.perm_append_left_iff front).mp (ordering.perm.trans ordering'.perm.symm)
    obtain ⟨middle, back, rfl⟩ := List.append_of_mem (perm.mem_iff.mp mem_cons_self)
    have sorted := (pairwise_append.mp ordering.sorted).2.1
    have sorted' := (pairwise_append.mp ordering'.sorted).2.1
    have tied : ∀ m ∈ middle, key m = key a := by
      intro m mem
      apply le_antisymm
      · have inside := perm.mem_iff.mpr (List.mem_append_left (a :: back) mem)
        rcases mem_cons.mp inside with rfl | later
        · exact le_refl _
        · exact (pairwise_cons.mp sorted).1 m later
      · exact (pairwise_append.mp sorted').2.2 m mem a mem_cons_self
    obtain ⟨moved, equal⟩ := ordering'.moveFront swaps tied
    rw [equal]
    have assoc : ∀ rest : List α, front ++ [a] ++ rest = front ++ a :: rest := fun rest => by
      rw [append_assoc, List.singleton_append]
    rw [← assoc order, ← assoc (middle ++ back)] at *
    exact ih (front ++ [a]) ordering moved

/-- **When the order of ties does not matter.** All orderings lead to the same choice exactly if
in none of them two tied neighbours both fit under what the items before them leave. -/
theorem greedy_ordering_iff {amount : α → ℤ} {limit : ℤ} (nodup : items.Nodup)
    (nonneg : ∀ item ∈ items, 0 ≤ amount item) :
    (∀ order order', IsOrdering key items order → IsOrdering key items order' →
      greedy amount limit order = greedy amount limit order') ↔
    ∀ front a b back, IsOrdering key items (front ++ a :: b :: back) → key a = key b →
      ¬(amount a ≤ limit - spent amount limit front ∧
        amount b ≤ limit - spent amount limit front) := by
  constructor
  · intro same front a b back ordering tied ⟨fits, fits'⟩
    have equal := same _ _ ordering (ordering.swap tied)
    rw [greedy_append, greedy_append, greedy_of_fits fits, greedy_of_fits fits',
      List.append_cancel_left_eq, List.cons.injEq] at equal
    have distinct := (pairwise_append.mp (ordering.perm.nodup_iff.mpr nodup)).2.1
    exact (pairwise_cons.mp distinct).1 b mem_cons_self equal.1
  · intro notBoth order order' ordering ordering'
    refine ordering.result_eq (fun front a b back between tied => ?_) ordering'
    have inside : ∀ item ∈ a :: b :: back, 0 ≤ amount item := fun item mem =>
      nonneg item (between.perm.mem_iff.mp (List.mem_append_right front mem))
    rw [greedy_append, greedy_append, greedy_swap (inside a mem_cons_self)
      (inside b (mem_cons_of_mem a mem_cons_self)) (notBoth front a b back between tied)]

end

end DogeCash
