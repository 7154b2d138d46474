import DogeCash.Foundation.MerkleTree
import DogeCash.Validation.CheckBlock
import Mathlib.Tactic.Ring

/-! # The merkle root of a block

`MerkleComputation` keeps one subtree for every bit of the number of leaves so far, compares
the siblings that it combines, and at the end sweeps up the right branch, where a missing
sibling is replaced by a copy. It computes the root of the smallest tree, and it reports a
mutation exactly if a subtree is repeated; up to 2^31 leaves no counter wraps around.
-/

namespace DogeCash

/-- What `MerkleComputation` keeps while it goes through the leaves. -/
structure MerkleState (α : Type*) where
  count : ℕ
  inner : ℕ → α
  mutated : Bool

section Computation

variable {α : Type*} [DecidableEq α] (hash : α → α → α)

/-- The loop of `MerkleComputation` over the low bits of `count` that are zero, with the number
of levels that a shift still allows. -/
def combineInner (count : ℕ) (inner : ℕ → α) : ℕ → ℕ → α → Bool → Option (ℕ × α × Bool)
  | 0, _, _, _ => none
  | left + 1, level, h, mutated =>
    if count.testBit level then some (level, h, mutated)
    else
      combineInner count inner left (level + 1) (hash (inner level) h)
        (mutated || decide (inner level = h))

/-- One round of the loop of `MerkleComputation` over the leaves. -/
def addLeaf (state : MerkleState α) (leaf : α) : Option (MerkleState α) :=
  let count := (state.count + 1) % 2 ^ 32
  (combineInner hash count state.inner 32 0 leaf state.mutated).map fun (level, h, mutated) =>
    ⟨count, Function.update state.inner level h, mutated⟩

/-- The loop that skips the low bits of `count` that are zero. -/
def skipLevels (count : ℕ) : ℕ → ℕ → Option ℕ
  | 0, _ => none
  | left + 1, level => if count.testBit level then some level else skipLevels count left (level + 1)

/-- The inner loop of the sweep, which combines with the subtrees to the left. -/
def propagate (count : ℕ) (inner : ℕ → α) : ℕ → ℕ → α → Option (ℕ × α)
  | 0, _, _ => none
  | left + 1, level, h =>
    if count.testBit level then some (level, h)
    else propagate count inner left (level + 1) (hash (inner level) h)

/-- The sweep of `MerkleComputation` up the right branch, for some number of rounds. -/
def sweepUp (inner : ℕ → α) : ℕ → ℕ → ℕ → α → Option α
  | 0, _, _, _ => none
  | rounds + 1, count, level, h =>
    if count = 2 ^ level then some h
    else
      let next := (count + 2 ^ level) % 2 ^ 32
      (propagate hash next inner (31 - level) (level + 1) (hash h h)).bind fun (level, h) =>
        sweepUp inner rounds next level h

/-- `MerkleComputation` without a branch: the root and `mutated`. There is no result if a
shift would leave the 32 bits of `count`. -/
def merkleComputation [Inhabited α] (leaves : List α) : Option (α × Bool) :=
  if leaves = [] then some (default, false)
  else
    (leaves.foldlM (addLeaf hash) ⟨0, fun _ => default, false⟩).bind fun state =>
      (skipLevels state.count 32 0).bind fun level =>
        (sweepUp hash state.inner 32 state.count level (state.inner level)).map fun root =>
          (root, state.mutated)

def computeMerkleRoot [Inhabited α] (leaves : List α) : Option (α × Bool) :=
  merkleComputation hash leaves

end Computation

namespace MerkleTree

variable {α : Type*} [Inhabited α] {hash : α → α → α}

/-! ## Numbers by their bits -/

theorem testBit_iff {n level : ℕ} :
    n.testBit level = true ↔ ∃ q r, n = (2 * q + 1) * 2 ^ level + r ∧ r < 2 ^ level := by
  have positive : 0 < 2 ^ level := Nat.two_pow_pos level
  rw [Nat.testBit_eq_decide_div_mod_eq, decide_eq_true_eq]
  constructor
  · intro odd
    refine ⟨n / 2 ^ level / 2, n % 2 ^ level, ?_, Nat.mod_lt _ positive⟩
    have half : 2 * (n / 2 ^ level / 2) + 1 = n / 2 ^ level := by omega
    rw [half, Nat.mul_comm, Nat.div_add_mod]
  · rintro ⟨q, r, rfl, small⟩
    rw [Nat.mul_comm, Nat.mul_add_div positive, Nat.div_eq_of_lt small]
    omega

theorem testBit_mul {m level : ℕ} : (m * 2 ^ level).testBit level = decide (m % 2 = 1) := by
  rw [Nat.testBit_eq_decide_div_mod_eq, Nat.mul_div_cancel _ (Nat.two_pow_pos level)]

theorem mul_pow_succ (q level : ℕ) : q * 2 ^ (level + 1) = 2 * q * 2 ^ level := by
  ring

theorem testBit_below {m level top : ℕ} (lower : level < top) :
    (m * 2 ^ top).testBit level = false := by
  rw [Nat.testBit_mul_two_pow, decide_eq_false (Nat.not_le.mpr lower), Bool.false_and]

theorem level_ne_top {count m level : ℕ} (positive : 0 < count) (bounded : count < 2 ^ 32)
    (aligned : count = m * 2 ^ level) : level ≠ 32 := by
  rintro rfl
  omega

variable {leaves : List α} {count : ℕ} {inner : ℕ → α}

theorem hash_halves {level q : ℕ} {left right : α}
    (large : 2 * q * 2 ^ level + 2 ^ level < leaves.length)
    (leftRoot : left = rootAt hash level ((leaves.drop (2 * q * 2 ^ level)).take (2 ^ level)))
    (rightRoot : right = rootAt hash level (leaves.drop (2 * q * 2 ^ level + 2 ^ level))) :
    hash left right = rootAt hash (level + 1) (leaves.drop ((q + 1 - 1) * 2 ^ (level + 1))) := by
  rw [Nat.add_sub_cancel, mul_pow_succ, rootAt_drop large, leftRoot, rightRoot]

/-! ## The loop over the leaves -/

variable (hash) in
def HoldsInner (inner : ℕ → α) (leaves : List α) : Prop :=
  ∀ level q r, leaves.length = (2 * q + 1) * 2 ^ level + r → r < 2 ^ level →
    inner level = rootAt hash level ((leaves.drop (2 * q * 2 ^ level)).take (2 ^ level))

section Loop

variable [DecidableEq α]

variable (hash) in
/-- The state after some leaves. -/
structure Processed (leaves : List α) (state : MerkleState α) : Prop where
  count : state.count = leaves.length
  inner : HoldsInner hash state.inner leaves
  mutated : state.mutated = true ↔ Repeats hash leaves

/-- Adding a leaf combines the complete subtrees that end with it, and compares the halves of
each. -/
theorem combineInner_spec {before leaves : List α} {leaf : α} {inner : ℕ → α}
    (holds : HoldsInner hash inner before) (grown : leaves = before ++ [leaf])
    (bounded : leaves.length < 2 ^ 32) (left level m : ℕ) (h : α) (mutated : Bool)
    (levels : level + left = 32) (aligned : leaves.length = m * 2 ^ level)
    (subtree : h = rootAt hash level (leaves.drop ((m - 1) * 2 ^ level))) :
    ∃ top q flag, combineInner hash leaves.length inner left level h mutated =
        some (top, rootAt hash top (leaves.drop (2 * q * 2 ^ top)), flag) ∧
      leaves.length = (2 * q + 1) * 2 ^ top ∧
        (flag = true ↔ mutated = true ∨ ∃ lower start, level ≤ lower ∧
          start + 2 ^ (lower + 1) = leaves.length ∧ RepeatsAt hash leaves lower start) := by
  have size : leaves.length = before.length + 1 := by
    rw [grown, List.length_append, List.length_singleton]
  induction left generalizing level m h mutated with
  | zero => exact absurd (by omega) (level_ne_top (by omega) bounded aligned)
  | succ left ih =>
    have bit : leaves.length.testBit level = decide (m % 2 = 1) := by rw [aligned, testBit_mul]
    have positive : 0 < 2 ^ level := Nat.two_pow_pos level
    unfold combineInner
    rw [bit]
    rcases Nat.even_or_odd' m with ⟨half, rfl | rfl⟩
    · -- A subtree of this level is complete, and so is the one to its left.
      obtain ⟨q, rfl⟩ : ∃ q, half = q + 1 := by
        refine Nat.exists_eq_succ_of_ne_zero ?_
        rintro rfl
        omega
      have total : leaves.length = 2 * q * 2 ^ level + 2 ^ level + 2 ^ level := by
        rw [aligned]
        ring
      have here : inner level =
          rootAt hash level ((leaves.drop (2 * q * 2 ^ level)).take (2 ^ level)) := by
        rw [holds level q (2 ^ level - 1) (by rw [Nat.add_mul]; omega) (by omega), grown,
          slice_append leaf (by omega)]
      have right : h = rootAt hash level (leaves.drop (2 * q * 2 ^ level + 2 ^ level)) := by
        rw [subtree]
        congr 2
        have less : 2 * (q + 1) - 1 = 2 * q + 1 := by omega
        rw [less]
        ring
      have combined := hash_halves (by omega) here right
      have compared : inner level = h ↔ RepeatsAt hash leaves level (2 * q * 2 ^ level) := by
        have whole : (leaves.drop (2 * q * 2 ^ level + 2 ^ level)).take (2 ^ level) =
            leaves.drop (2 * q * 2 ^ level + 2 ^ level) :=
          List.take_of_length_le (by rw [List.length_drop]; omega)
        rw [here, right, RepeatsAt, whole]
        refine ⟨fun same => ⟨⟨q, ?_⟩, by omega, same⟩, fun repeats => repeats.2.2⟩
        rw [Nat.mul_comm (2 ^ (level + 1)), mul_pow_succ]
      rw [if_neg (by simp)]
      obtain ⟨top, q', flag, result, final, flags⟩ := ih (level + 1) (q + 1) _ _ (by omega)
        (by rw [aligned, mul_pow_succ]) combined
      refine ⟨top, q', flag, result, final, flags.trans ?_⟩
      rw [Bool.or_eq_true, decide_eq_true_eq, compared, or_assoc]
      refine or_congr_right ⟨?_, ?_⟩
      · rintro (same | ⟨lower, start, above, ends, repeats⟩)
        · exact ⟨level, _, le_rfl, by omega, same⟩
        · exact ⟨lower, start, by omega, ends, repeats⟩
      · rintro ⟨lower, start, above, ends, repeats⟩
        rcases Nat.eq_or_lt_of_le above with rfl | higher
        · have begins : start = 2 * q * 2 ^ level := by omega
          rw [← begins]
          exact Or.inl repeats
        · exact Or.inr ⟨lower, start, higher, ends, repeats⟩
    · -- The bit is set: a longer run of leaves cannot end here.
      rw [if_pos (by simp)]
      have start : (2 * half + 1 - 1) * 2 ^ level = 2 * half * 2 ^ level := by
        rw [Nat.add_sub_cancel]
      refine ⟨level, half, mutated, by rw [subtree, start], aligned, ?_⟩
      refine ⟨Or.inl, ?_⟩
      rintro (same | ⟨lower, start, above, ends, ⟨low, -, -⟩⟩)
      · exact same
      · have divides : 2 ^ (level + 1) ∣ leaves.length := by
          rw [← ends]
          exact Nat.dvd_trans (Nat.pow_dvd_pow 2 (by omega)) (Nat.dvd_add low (Nat.dvd_refl _))
        rw [aligned, Nat.pow_succ, Nat.mul_comm (2 ^ level)] at divides
        have even := Nat.dvd_of_mul_dvd_mul_right positive divides
        omega

variable {before : List α} {state : MerkleState α}

theorem processed_addLeaf (processed : Processed hash before state) (leaf : α)
    (bounded : before.length + 1 < 2 ^ 32) :
    ∃ next, addLeaf hash state leaf = some next ∧ Processed hash (before ++ [leaf]) next := by
  have size : (before ++ [leaf]).length = before.length + 1 := by
    rw [List.length_append, List.length_singleton]
  have last : leaf = rootAt hash 0 ((before ++ [leaf]).drop
      (((before ++ [leaf]).length - 1) * 2 ^ 0)) := by
    rw [size, pow_zero, Nat.mul_one, Nat.add_sub_cancel, List.drop_left]
    rfl
  obtain ⟨top, q, flag, result, final, flags⟩ := combineInner_spec processed.inner rfl
    (by omega) 32 0 _ leaf state.mutated rfl (by rw [pow_zero, Nat.mul_one]) last
  have count : (state.count + 1) % 2 ^ 32 = (before ++ [leaf]).length := by
    rw [processed.count, size, Nat.mod_eq_of_lt bounded]
  have positive : 0 < 2 ^ top := Nat.two_pow_pos top
  refine ⟨⟨(before ++ [leaf]).length, Function.update state.inner top
    (rootAt hash top ((before ++ [leaf]).drop (2 * q * 2 ^ top))), flag⟩, ?_, rfl, ?_, ?_⟩
  · simp only [addLeaf, count]
    rw [result, Option.map_some]
  · intro level q' r length small
    by_cases same : level = top
    · subst same
      have equal : q' = q := by
        have twice : (2 * q' + 1) * 2 ^ level + r = (2 * q + 1) * 2 ^ level := by omega
        have quotient := congrArg (· / 2 ^ level) twice
        simp only [Nat.mul_comm _ (2 ^ level), Nat.mul_add_div positive, Nat.div_eq_of_lt small,
          Nat.mul_div_cancel_left _ positive] at quotient
        omega
      subst equal
      change Function.update state.inner level _ level = _
      rw [Function.update_self, List.take_of_length_le]
      rw [List.length_drop, final, Nat.add_mul]
      omega
    · -- A higher bit of the number of leaves was set before, for the same leaves.
      have bit : (before ++ [leaf]).length.testBit level = true :=
        testBit_iff.mpr ⟨q', r, length, small⟩
      have higher : top < level := by
        refine Nat.lt_of_le_of_ne (Nat.not_lt.mp fun lower => ?_) (Ne.symm same)
        rw [final, testBit_below lower] at bit
        exact Bool.false_ne_true bit
      have rest : 0 < r := by
        refine Nat.pos_of_ne_zero ?_
        rintro rfl
        have lowest : (before ++ [leaf]).length.testBit top = true :=
          testBit_iff.mpr ⟨q, 0, final, positive⟩
        rw [length, Nat.add_zero, testBit_below higher] at lowest
        exact Bool.false_ne_true lowest
      change Function.update state.inner top _ level = _
      rw [Function.update_of_ne same, processed.inner level q' (r - 1) (by omega) (by omega),
        slice_append leaf]
      rw [Nat.add_mul] at length
      omega
  · rw [flags, processed.mutated]
    constructor
    · rintro (repeats | ⟨lower, start, -, -, repeats⟩)
      · rw [← @List.take_left _ before [leaf]] at repeats
        exact repeats.of_take
      · exact ⟨lower, start, repeats⟩
    · rintro ⟨lower, start, aligned, within, same⟩
      rcases Nat.eq_or_lt_of_le within with ends | inside
      · exact Or.inr ⟨lower, start, Nat.zero_le _, ends, aligned, within, same⟩
      · refine Or.inl ⟨lower, start, aligned, by omega, ?_⟩
        rwa [slice_append leaf (by omega), slice_append leaf (by omega)] at same

theorem processed_foldlM (rest : List α) (processed : Processed hash before state)
    (bounded : before.length + rest.length < 2 ^ 32) :
    ∃ final, rest.foldlM (addLeaf hash) state = some final ∧
      Processed hash (before ++ rest) final := by
  induction rest generalizing before state with
  | nil => exact ⟨state, rfl, by rwa [List.append_nil]⟩
  | cons leaf rest ih =>
    rw [List.length_cons] at bounded
    obtain ⟨next, added, processedNext⟩ := processed_addLeaf processed leaf (by omega)
    obtain ⟨final, later, result⟩ := ih processedNext (by
      rw [List.length_append, List.length_singleton]
      omega)
    refine ⟨final, ?_, by rwa [List.append_assoc] at result⟩
    rw [List.foldlM_cons, added]
    exact later

end Loop

/-! ## The sweep -/

theorem skipLevels_spec (left level m : ℕ) (levels : level + left = 32)
    (aligned : count = m * 2 ^ level) (positive : 0 < count) (bounded : count < 2 ^ 32) :
    ∃ top q, skipLevels count left level = some top ∧ count = (2 * q + 1) * 2 ^ top := by
  induction left generalizing level m with
  | zero => exact absurd (by omega) (level_ne_top positive bounded aligned)
  | succ left ih =>
    have bit : count.testBit level = decide (m % 2 = 1) := by rw [aligned, testBit_mul]
    unfold skipLevels
    rw [bit]
    rcases Nat.even_or_odd' m with ⟨half, rfl | rfl⟩
    · rw [if_neg (by simp)]
      exact ih (level + 1) half (by omega) (by rw [aligned, mul_pow_succ])
    · rw [if_pos (by simp)]
      exact ⟨level, half, rfl, aligned⟩

theorem propagate_spec (holds : HoldsInner hash inner leaves) (bounded : count < 2 ^ 32)
    (within : leaves.length < count) (left level m : ℕ) (h : α) (levels : level + left = 32)
    (aligned : count = m * 2 ^ level) (started : (m - 1) * 2 ^ level < leaves.length)
    (subtree : h = rootAt hash level (leaves.drop ((m - 1) * 2 ^ level))) :
    ∃ top q, propagate hash count inner left level h =
        some (top, rootAt hash top (leaves.drop (2 * q * 2 ^ top))) ∧
      count = (2 * q + 1) * 2 ^ top ∧ 2 * q * 2 ^ top < leaves.length ∧ level ≤ top := by
  induction left generalizing level m h with
  | zero => exact absurd (by omega) (level_ne_top (by omega) bounded aligned)
  | succ left ih =>
    have bit : count.testBit level = decide (m % 2 = 1) := by rw [aligned, testBit_mul]
    have step : 2 ^ (level + 1) = 2 ^ level + 2 ^ level := Nat.two_pow_succ level
    unfold propagate
    rw [bit]
    rcases Nat.even_or_odd' m with ⟨half, rfl | rfl⟩
    · obtain ⟨q, rfl⟩ : ∃ q, half = q + 1 := by
        refine Nat.exists_eq_succ_of_ne_zero ?_
        rintro rfl
        omega
      have less : 2 * (q + 1) - 1 = 2 * q + 1 := by omega
      have total : count = 2 * q * 2 ^ level + 2 ^ level + 2 ^ level := by
        rw [aligned]
        ring
      have begins : (2 * q + 1) * 2 ^ level = 2 * q * 2 ^ level + 2 ^ level := by ring
      rw [less, begins] at started subtree
      have here : inner level =
          rootAt hash level ((leaves.drop (2 * q * 2 ^ level)).take (2 ^ level)) := by
        refine holds level q (leaves.length - (2 * q * 2 ^ level + 2 ^ level)) ?_ (by omega)
        omega
      have start : (q + 1 - 1) * 2 ^ (level + 1) = 2 * q * 2 ^ level := by
        rw [Nat.add_sub_cancel, mul_pow_succ]
      have combined := hash_halves (by omega) here subtree
      rw [if_neg (by simp)]
      obtain ⟨top, q', result, final, startedTop, above⟩ := ih (level + 1) (q + 1) _ (by omega)
        (by rw [aligned, step]; ring) (by rw [start]; omega) combined
      exact ⟨top, q', result, final, startedTop, by omega⟩
    · rw [if_pos (by simp)]
      rw [Nat.add_sub_cancel] at started subtree
      exact ⟨level, half, by rw [subtree], aligned, started, le_rfl⟩

theorem sweepUp_spec (holds : HoldsInner hash inner leaves) (bounded : leaves.length ≤ 2 ^ 31)
    (rounds count level q : ℕ) (h : α) (levels : 32 ≤ level + rounds)
    (aligned : count = (2 * q + 1) * 2 ^ level) (started : 2 * q * 2 ^ level < leaves.length)
    (within : leaves.length ≤ count) (near : count < 2 * leaves.length)
    (subtree : h = rootAt hash level (leaves.drop (2 * q * 2 ^ level))) :
    sweepUp hash inner rounds count level h = some (root hash leaves) := by
  induction rounds generalizing count level q h with
  | zero =>
    have high : 2 ^ 32 ≤ 2 ^ level := Nat.pow_le_pow_right (by decide) (by omega)
    rw [Nat.add_mul] at aligned
    omega
  | succ rounds ih =>
    have total : count = 2 * q * 2 ^ level + 2 ^ level := by
      rw [aligned]
      ring
    unfold sweepUp
    by_cases final : count = 2 ^ level
    · -- The whole list has been combined, in the smallest tree that holds it.
      have least : Nat.clog 2 leaves.length = level := by
        refine le_antisymm (Nat.clog_le_of_le_pow (by omega)) ?_
        cases level with
        | zero => exact Nat.zero_le _
        | succ lower =>
          exact (Nat.lt_clog_iff_pow_lt (by decide)).mpr (by omega)
      have start : 2 * q * 2 ^ level = 0 := by omega
      rw [if_pos final, subtree, start, List.drop_zero, root, least]
    · have left : 0 < q := by
        refine Nat.pos_of_ne_zero ?_
        rintro rfl
        exact final (by omega)
      have wide : 2 ^ (level + 1) ≤ q * 2 ^ (level + 1) := Nat.le_mul_of_pos_left _ left
      have base : q * 2 ^ (level + 1) = 2 * q * 2 ^ level := mul_pow_succ q level
      have next : (count + 2 ^ level) % 2 ^ 32 = (q + 1) * 2 ^ (level + 1) := by
        rw [Nat.mod_eq_of_lt (by omega), Nat.add_mul, Nat.one_mul]
        omega
      have below : level < 31 := by
        have inside : 2 ^ level < 2 ^ 31 := by omega
        exact (Nat.pow_lt_pow_iff_right (by decide)).mp inside
      have shorter : leaves.length - 2 * q * 2 ^ level ≤ 2 ^ level := by omega
      have combined : hash h h =
          rootAt hash (level + 1) (leaves.drop ((q + 1 - 1) * 2 ^ (level + 1))) := by
        rw [Nat.add_sub_cancel, base,
          rootAt_succ_of_le (by rw [List.length_drop]; exact shorter), subtree]
      obtain ⟨top, q', result, finalCount, startedTop, above⟩ :=
        propagate_spec holds (by omega) (by omega) (31 - level) (level + 1) (q + 1) _ (by omega)
          (rfl : (q + 1) * 2 ^ (level + 1) = _)
          (by rw [Nat.add_sub_cancel, base]; exact started) combined
      simp only [next]
      rw [if_neg final, result, Option.bind_some]
      refine ih _ top q' _ (by omega) finalCount startedTop ?_ ?_ rfl
      · omega
      · omega

/-! ## The result -/

variable (hash) in
theorem processed_nil [DecidableEq α] (inner : ℕ → α) : Processed hash [] ⟨0, inner, false⟩ where
  count := rfl
  inner level q r length _ := by
    rw [Nat.add_mul, List.length_nil] at length
    omega
  mutated := by
    refine ⟨fun impossible => absurd impossible Bool.false_ne_true, ?_⟩
    rintro ⟨level, start, -, within, -⟩
    have positive : 0 < 2 ^ (level + 1) := Nat.two_pow_pos _
    rw [List.length_nil] at within
    omega

variable (hash) in
/-- `MerkleComputation` returns the root of the smallest tree, and reports whether a subtree
is repeated. -/
theorem merkleComputation_eq [DecidableEq α] (filled : leaves ≠ [])
    (bounded : leaves.length ≤ 2 ^ 31) :
    ∃ mutated, merkleComputation hash leaves = some (root hash leaves, mutated) ∧
      (mutated = true ↔ Repeats hash leaves) := by
  have nonempty : 0 < leaves.length := List.length_pos_iff.mpr filled
  obtain ⟨state, consumed, processed⟩ := processed_foldlM leaves
    (processed_nil hash fun _ => default) (by rw [List.length_nil]; omega)
  rw [List.nil_append] at processed
  obtain ⟨top, q, skipped, count⟩ := skipLevels_spec 32 0 leaves.length rfl
    (by rw [pow_zero, Nat.mul_one]) nonempty (by omega)
  have positive : 0 < 2 ^ top := Nat.two_pow_pos top
  have total : leaves.length = 2 * q * 2 ^ top + 2 ^ top := by
    rw [count]
    ring
  have subtree : state.inner top = rootAt hash top (leaves.drop (2 * q * 2 ^ top)) := by
    rw [processed.inner top q 0 count positive, List.take_of_length_le]
    rw [List.length_drop]
    omega
  refine ⟨state.mutated, ?_, processed.mutated⟩
  rw [merkleComputation, if_neg filled, consumed, Option.bind_some, processed.count, skipped,
    Option.bind_some, sweepUp_spec processed.inner bounded 32 _ top q _ (by omega) count
      (by omega) le_rfl (by omega) subtree, Option.map_some]

end MerkleTree

end DogeCash
