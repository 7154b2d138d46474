import Mathlib.Order.Lattice

/-! # Sorted multimaps

Pairs of a key and a value in the order of the keys, where a key may have several values. A new
pair comes behind the pairs of the same key. As a collection of pairs a multimap changes by exactly
the pairs that are put in and taken out; the order says that the first pair has a least key.
-/

namespace DogeCash

/-- Pairs in the order of their keys. -/
structure SortedMultimap (κ ν : Type*) [LinearOrder κ] where
  entries : List (κ × ν)
  sorted : entries.Pairwise fun first second => first.1 ≤ second.1

namespace SortedMultimap

variable {κ ν : Type*} [LinearOrder κ]

def empty : SortedMultimap κ ν := ⟨[], List.Pairwise.nil⟩

/-- Put a pair in, behind the pairs of the same key. -/
def insert (map : SortedMultimap κ ν) (key : κ) (value : ν) : SortedMultimap κ ν where
  entries := (map.entries.filter fun entry => entry.1 ≤ key) ++
    (key, value) :: map.entries.filter fun entry => key < entry.1
  sorted := by
    refine List.pairwise_append.mpr ⟨map.sorted.filter _,
      List.pairwise_cons.mpr ⟨fun entry mem => ?_, map.sorted.filter _⟩, ?_⟩
    · exact (of_decide_eq_true (List.mem_filter.mp mem).2 : key < entry.1).le
    · intro entry mem other later
      have below : entry.1 ≤ key := of_decide_eq_true (List.mem_filter.mp mem).2
      rcases List.mem_cons.mp later with rfl | later
      · exact below
      · exact below.trans (of_decide_eq_true (List.mem_filter.mp later).2 : key < other.1).le

def eraseFirst (map : SortedMultimap κ ν) : SortedMultimap κ ν :=
  ⟨map.entries.tail, map.sorted.sublist (List.tail_sublist _)⟩

def erase [DecidableEq ν] (map : SortedMultimap κ ν) (key : κ) (value : ν) : SortedMultimap κ ν :=
  ⟨map.entries.erase (key, value), map.sorted.sublist (List.erase_sublist)⟩

theorem insert_perm (map : SortedMultimap κ ν) (key : κ) (value : ν) :
    (map.insert key value).entries.Perm ((key, value) :: map.entries) := by
  have parts := List.filter_append_perm (fun entry : κ × ν => decide (entry.1 ≤ key)) map.entries
  have above : (map.entries.filter fun entry => key < entry.1) =
      map.entries.filter fun entry => !decide (entry.1 ≤ key) := by
    refine List.filter_congr fun entry _ => ?_
    rw [← decide_not, decide_eq_decide, not_le]
  rw [← above] at parts
  exact List.perm_middle.trans (parts.cons _)

end SortedMultimap

end DogeCash
