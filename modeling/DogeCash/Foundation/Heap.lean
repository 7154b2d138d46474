import Mathlib.Data.List.Sort

/-! # Heaps in a vector

`make_heap`, `push_heap` and `pop_heap` of the standard library rearrange the elements of a
vector so that none is greater than the first one. Which of the rearrangements they choose is
left open; `HeapOps` is any choice of them.
-/

namespace DogeCash

variable {α : Type*}

/-- `make_heap`, `push_heap` and `pop_heap` for a comparison. `pop_heap` brings the first element
to the end. -/
structure HeapOps (α : Type*) where
  makeHeap : (α → α → Bool) → List α → List α
  pushHeap : (α → α → Bool) → List α → List α
  popHeap : (α → α → Bool) → List α → List α
  makeHeap_perm : ∀ less items, (makeHeap less items).Perm items
  pushHeap_perm : ∀ less items, (pushHeap less items).Perm items
  popHeap_perm : ∀ less first rest, ∃ others,
    popHeap less (first :: rest) = others ++ [first] ∧ others.Perm rest

namespace HeapOps

/-- A vector in descending order is a heap. -/
def sorting : HeapOps α where
  makeHeap less items := items.insertionSort fun a b => less a b = false
  pushHeap less items := items.insertionSort fun a b => less a b = false
  popHeap _ items := items.drop 1 ++ items.take 1
  makeHeap_perm _ items := List.perm_insertionSort _ items
  pushHeap_perm _ items := List.perm_insertionSort _ items
  popHeap_perm _ _ rest := ⟨rest, rfl, .refl rest⟩

variable (heap : HeapOps α) (less : α → α → Bool)

/-- `pop_heap` followed by `pop_back`. -/
def removeFirst (items : List α) : List α := (heap.popHeap less items).dropLast

theorem removeFirst_perm (first : α) (rest : List α) :
    (heap.removeFirst less (first :: rest)).Perm rest := by
  obtain ⟨others, pops, perm⟩ := heap.popHeap_perm less first rest
  rw [removeFirst, pops, List.dropLast_concat]
  exact perm

theorem push_perm (items : List α) (item : α) :
    (heap.pushHeap less (items ++ [item])).Perm (item :: items) :=
  (heap.pushHeap_perm less _).trans List.perm_append_comm

end HeapOps

end DogeCash
