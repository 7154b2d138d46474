import Mathlib.Data.Nat.Bitwise

/-! # Bit masks and sparse sequences

A set of positions as the bits of a number, and a sequence of masks that is read until as many
masks with a bit have come as were announced: the masks at the end must have one.
-/

namespace DogeCash.BitMask

/-- The number whose bits below `n` are those of a function. -/
def setBits (bit : ℕ → Bool) (n : ℕ) : ℕ :=
  (List.range n).foldl (fun mask i => if bit i then mask ||| 1 <<< i else mask) 0

section

variable (bit : ℕ → Bool)
include bit

theorem setBits_succ (n : ℕ) :
    setBits bit (n + 1) = if bit n then setBits bit n ||| 1 <<< n else setBits bit n := by
  rw [setBits, List.range_succ, List.foldl_append]
  rfl

theorem testBit_setBits (n i : ℕ) : (setBits bit n).testBit i = (decide (i < n) && bit i) := by
  induction n with
  | zero => exact Nat.zero_testBit i
  | succ n ih =>
    rw [setBits_succ]
    by_cases set : bit n = true
    · rw [if_pos set, Nat.testBit_or, ih, Nat.one_shiftLeft, Nat.testBit_two_pow]
      by_cases last : n = i
      · subst last
        simp [set]
      · have : (i < n + 1) ↔ i < n := by omega
        simp [last, this]
    · rw [if_neg set, ih]
      by_cases last : n = i
      · subst last
        simp [set]
      · have : (i < n + 1) ↔ i < n := by omega
        simp [this]

theorem setBits_lt (n : ℕ) : setBits bit n < 2 ^ n := by
  apply Nat.lt_pow_two_of_testBit
  intro i beyond
  rw [testBit_setBits, decide_eq_false (Nat.not_lt.mpr beyond), Bool.false_and]

theorem setBits_eq_zero_iff (n : ℕ) : setBits bit n = 0 ↔ ∀ i < n, bit i = false := by
  constructor
  · intro zero i inside
    have := testBit_setBits bit n i
    rw [zero, Nat.zero_testBit, decide_eq_true inside, Bool.true_and] at this
    exact this.symm
  · intro clear
    apply Nat.zero_of_testBit_eq_false
    intro i
    rw [testBit_setBits]
    by_cases inside : i < n
    · rw [clear i inside, Bool.and_false]
    · rw [decide_eq_false inside, Bool.false_and]

end

variable {α β : Type*}

/-- Take elements until `n` of those taken have the property. -/
def takeCounted (p : α → Bool) : ℕ → List α → Option (List α × List α)
  | 0, s => some ([], s)
  | _ + 1, [] => none
  | n + 1, x :: s =>
    (takeCounted p (if p x then n else n + 1) s).map fun (taken, s) => (x :: taken, s)

theorem takeCounted_append {p : α → Bool} {taken : List α}
    (ends : ∀ last ∈ taken.getLast?, p last = true) (s : List α) :
    takeCounted p (taken.countP p) (taken ++ s) = some (taken, s) := by
  induction taken with
  | nil => rw [List.countP_nil, List.nil_append, takeCounted]
  | cons x rest ih =>
    have restEnds : ∀ last ∈ rest.getLast?, p last = true := by
      intro last mem
      apply ends
      cases rest with
      | nil => cases mem
      | cons => exact mem
    have counted : ∃ n, (x :: rest).countP p = n + 1 := by
      have positive : 0 < (x :: rest).countP p := by
        rw [List.countP_pos_iff]
        exact ⟨_, List.getLast_mem (List.cons_ne_nil x rest),
          ends _ (List.getLast?_eq_some_getLast (List.cons_ne_nil x rest))⟩
      exact ⟨_, (Nat.succ_pred_eq_of_pos positive).symm⟩
    obtain ⟨n, count⟩ := counted
    have next : (if p x then n else n + 1) = rest.countP p := by
      rw [List.countP_cons] at count
      split at count <;> simp_all
    rw [count, List.cons_append, takeCounted, next, ih restEnds]
    rfl

theorem flatMap_range_mul (f : ℕ → β) (k m : ℕ) :
    ((List.range m).flatMap fun b => (List.range k).map fun i => f (b * k + i)) =
      (List.range (m * k)).map f := by
  induction m with
  | zero => simp
  | succ m ih =>
    rw [List.range_succ, List.flatMap_append, ih, Nat.succ_mul, List.range_add]
    simp

theorem flatMap_range_eq {f : ℕ → List β} {n m : ℕ} (fromN : ∀ i, n ≤ i → f i = [])
    (fromM : ∀ i, m ≤ i → f i = []) : (List.range n).flatMap f = (List.range m).flatMap f := by
  have extend (k d : ℕ) (nothing : ∀ i, k ≤ i → f i = []) :
      (List.range (k + d)).flatMap f = (List.range k).flatMap f := by
    induction d with
    | zero => rfl
    | succ d ih =>
      rw [← Nat.add_assoc, List.range_succ, List.flatMap_append, ih]
      simp [nothing (k + d) (Nat.le_add_right k d)]
  rw [← extend n m fromN, ← extend m n fromM, Nat.add_comm]

end DogeCash.BitMask
