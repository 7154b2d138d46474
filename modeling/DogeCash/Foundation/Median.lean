import Mathlib.Data.List.Sort

/-! # Medians

A median of some values is one of them, with at most half of them below it and at most half above
it. The middle of an odd number of sorted values is their median.
-/

namespace DogeCash

variable {α : Type*} [LinearOrder α] {values others : List α} {m n : α}

/-- One of the values, with at most half of them below it and at most half above it. -/
structure IsMedian (m : α) (values : List α) : Prop where
  mem : m ∈ values
  below : 2 * values.countP (· < m) ≤ values.length
  above : 2 * values.countP (m < ·) ≤ values.length

theorem IsMedian.perm (median : IsMedian m values) (same : values.Perm others) :
    IsMedian m others := by
  refine ⟨same.mem_iff.mp median.mem, ?_, ?_⟩
  · rw [← same.countP_eq, ← same.length_eq]
    exact median.below
  · rw [← same.countP_eq, ← same.length_eq]
    exact median.above

theorem countP_le_add_countP_lt (values : List α) (m : α) :
    values.countP (· ≤ m) + values.countP (m < ·) = values.length := by
  rw [List.length_eq_countP_add_countP (l := values) fun value => decide (value ≤ m)]
  congr 1
  exact List.countP_congr fun value _ => by simp

theorem IsMedian.not_before (first : IsMedian m values) (second : IsMedian n values)
    (odd : values.length % 2 = 1) : ¬m < n := by
  intro less
  have upTo := countP_le_add_countP_lt values m
  have fewer : values.countP (· ≤ m) ≤ values.countP (· < n) :=
    List.countP_mono_left fun value _ atMost => by
      simp only [decide_eq_true_eq] at atMost ⊢
      exact atMost.trans_lt less
  have := first.above
  have := second.below
  omega

theorem IsMedian.unique (first : IsMedian m values) (second : IsMedian n values)
    (odd : values.length % 2 = 1) : m = n :=
  le_antisymm (not_lt.mp (second.not_before first odd)) (not_lt.mp (first.not_before second odd))

theorem isMedian_middle (sorted : values.Pairwise (· ≤ ·)) (odd : values.length % 2 = 1)
    (middle : values[values.length / 2]? = some m) : IsMedian m values := by
  obtain ⟨inside, rfl⟩ := List.getElem?_eq_some_iff.mp middle
  generalize place : values.length / 2 = i at inside
  have split : values.take i ++ values[i] :: values.drop (i + 1) = values := by
    rw [← List.drop_eq_getElem_cons inside, List.take_append_drop]
  generalize values[i] = m at split ⊢
  have front : (values.take i).length = i := List.length_take_of_le (by omega)
  have back : (values.drop (i + 1)).length = values.length - (i + 1) := List.length_drop
  generalize values.take i = low at split front
  generalize values.drop (i + 1) = high at split back
  have parts := split ▸ sorted
  obtain ⟨-, later, before⟩ := List.pairwise_append.mp parts
  have after := (List.pairwise_cons.mp later).1
  have noneBelow : (m :: high).countP (· < m) = 0 := by
    refine List.countP_eq_zero.mpr fun value mem => ?_
    rcases List.mem_cons.mp mem with rfl | mem
    · simp
    · simpa using after value mem
  have noneAbove : (low ++ [m]).countP (m < ·) = 0 := by
    refine List.countP_eq_zero.mpr fun value mem => ?_
    rcases List.mem_append.mp mem with mem | mem
    · simpa using before value mem m List.mem_cons_self
    · simp [List.mem_singleton.mp mem]
  have lows : low.countP (· < m) ≤ low.length := List.countP_le_length
  have highs : high.countP (m < ·) ≤ high.length := List.countP_le_length
  refine ⟨?_, ?_, ?_⟩
  · rw [← split]
    exact List.mem_append_right _ List.mem_cons_self
  · have count := congrArg (List.countP (· < m)) split
    rw [List.countP_append, noneBelow] at count
    omega
  · have count := congrArg (List.countP (m < ·)) split
    rw [List.append_cons, List.countP_append, noneAbove] at count
    omega

theorem isMedian_least (least : ∀ value, m ≤ value) (odd : values.length % 2 = 1) :
    IsMedian m values ↔ values.length < 2 * values.count m := by
  have noneBelow : values.countP (· < m) = 0 :=
    List.countP_eq_zero.mpr fun value _ => by simpa using least value
  have atLeast : values.countP (· ≤ m) = values.count m := by
    refine List.countP_congr fun value _ => ?_
    simpa using ⟨fun atMost => le_antisymm atMost (least value), le_of_eq⟩
  have upTo := countP_le_add_countP_lt values m
  constructor
  · intro median
    have := median.above
    omega
  · intro most
    refine ⟨List.count_pos_iff.mp (by omega), ?_, by omega⟩
    rw [noneBelow]
    exact Nat.zero_le _

end DogeCash
