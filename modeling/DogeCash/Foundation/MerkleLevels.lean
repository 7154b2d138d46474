import DogeCash.Foundation.MerkleTree
import Mathlib.Tactic.Ring

/-! # Merkle trees level by level

The level above some nodes has the hashes of neighbours, and a last node without a neighbour
is hashed with itself. A node of a level is the root of an aligned block of leaves
(`getElem?_levelOf`), and the last level is the root of the smallest tree
(`rootByLevels_eq_root`). A level with two equal siblings is a repeated subtree if both blocks
are complete, and without collisions it always comes with one.
-/

namespace DogeCash.MerkleTree

open List (drop_nil length_cons length_drop length_take take_nil)

variable {α : Type*} (node : α → α → α)

def nextLevel : List α → List α
  | [] => []
  | [last] => [node last last]
  | left :: right :: rest => node left right :: nextLevel rest

def levelOf : ℕ → List α → List α
  | 0, nodes => nodes
  | level + 1, nodes => levelOf level (nextLevel node nodes)

variable {node}

variable (node) in
theorem length_nextLevel (nodes : List α) :
    (nextLevel node nodes).length = (nodes.length + 1) / 2 := by
  fun_induction nextLevel node nodes with
  | case1 => simp
  | case2 last => simp
  | case3 left right rest ih =>
    simp only [length_cons, ih]
    omega

variable (node) in
/-- The root that is left when the levels are built until one node remains. -/
def rootByLevels [Inhabited α] (nodes : List α) : α :=
  match nodes with
  | [] => default
  | [top] => top
  | left :: right :: rest => rootByLevels (nextLevel node (left :: right :: rest))
termination_by nodes.length
decreasing_by
  rw [length_nextLevel]
  simp only [length_cons]
  omega

theorem nextLevel_drop (nodes : List α) (size : ℕ) :
    nextLevel node (nodes.drop (2 * size)) = (nextLevel node nodes).drop size := by
  induction size generalizing nodes with
  | zero => rfl
  | succ size ih =>
    rw [Nat.mul_succ]
    match nodes with
    | [] => simp only [drop_nil, nextLevel]
    | [last] => simp only [List.drop_succ_cons, drop_nil, nextLevel]
    | left :: right :: rest => exact ih rest

theorem nextLevel_take (nodes : List α) (size : ℕ) :
    nextLevel node (nodes.take (2 * size)) = (nextLevel node nodes).take size := by
  induction size generalizing nodes with
  | zero => rfl
  | succ size ih =>
    rw [Nat.mul_succ]
    match nodes with
    | [] => simp only [take_nil, nextLevel]
    | [last] => simp only [List.take_succ_cons, take_nil, nextLevel]
    | left :: right :: rest => exact congrArg (node left right :: ·) (ih rest)

def blockOf (leaves : List α) (level j : ℕ) : List α :=
  (leaves.drop (j * 2 ^ level)).take (2 ^ level)

theorem length_blockOf_le (leaves : List α) (level j : ℕ) :
    (blockOf leaves level j).length ≤ 2 ^ level :=
  List.length_take_le _ _

variable {leaves : List α} {level j : ℕ}

theorem blockOf_ne_nil (within : j * 2 ^ level < leaves.length) : blockOf leaves level j ≠ [] := by
  have positive : 0 < 2 ^ level := Nat.two_pow_pos level
  apply List.length_pos_iff.mp
  rw [blockOf, length_take, length_drop]
  omega

theorem mem_blockOf {leaf : α} :
    leaf ∈ blockOf leaves level j ↔
      ∃ p, (j * 2 ^ level ≤ p ∧ p < j * 2 ^ level + 2 ^ level) ∧ leaves[p]? = some leaf := by
  rw [blockOf, List.mem_iff_getElem?]
  constructor
  · intro found
    obtain ⟨i, found⟩ := found
    rw [List.getElem?_take] at found
    split_ifs at found with inside
    rw [List.getElem?_drop] at found
    exact ⟨j * 2 ^ level + i, ⟨Nat.le_add_right _ _, Nat.add_lt_add_left inside _⟩, found⟩
  · intro found
    obtain ⟨p, ⟨start, stop⟩, found⟩ := found
    obtain ⟨i, rfl⟩ := Nat.exists_eq_add_of_le start
    refine ⟨i, ?_⟩
    rw [List.getElem?_take, if_pos (Nat.lt_of_add_lt_add_left stop), List.getElem?_drop]
    exact found

theorem nextLevel_blockOf (leaves : List α) (level j : ℕ) :
    nextLevel node (blockOf leaves (level + 1) j) = blockOf (nextLevel node leaves) level j := by
  have twice : j * (2 * 2 ^ level) = 2 * (j * 2 ^ level) := Nat.mul_left_comm _ _ _
  rw [blockOf, blockOf, Nat.pow_succ', twice, nextLevel_take, nextLevel_drop]

/-! ## Blocks by their halves -/

theorem blockOf_succ (leaves : List α) (level j : ℕ) :
    blockOf leaves (level + 1) j =
      blockOf leaves level (2 * j) ++ blockOf leaves level (2 * j + 1) := by
  have first : j * 2 ^ (level + 1) = 2 * j * 2 ^ level := by
    ring
  have second : (2 * j + 1) * 2 ^ level = 2 * j * 2 ^ level + 2 ^ level := Nat.succ_mul _ _
  rw [blockOf, blockOf, blockOf, first, second, Nat.two_pow_succ, List.take_add, List.drop_drop]

theorem blockOf_eq_nil (beyond : leaves.length ≤ j * 2 ^ level) : blockOf leaves level j = [] := by
  rw [blockOf, List.drop_eq_nil_of_le beyond, take_nil]

theorem length_blockOf_of_le (complete : (j + 1) * 2 ^ level ≤ leaves.length) :
    (blockOf leaves level j).length = 2 ^ level := by
  rw [Nat.succ_mul] at complete
  rw [blockOf, length_take, length_drop]
  omega

theorem blockOf_halves (within : (2 * j + 1) * 2 ^ level < leaves.length) :
    2 ^ level < (blockOf leaves (level + 1) j).length ∧
      (blockOf leaves (level + 1) j).take (2 ^ level) = blockOf leaves level (2 * j) ∧
        (blockOf leaves (level + 1) j).drop (2 ^ level) = blockOf leaves level (2 * j + 1) := by
  have left := length_blockOf_of_le within.le
  have right := List.length_pos_iff.mpr (blockOf_ne_nil within)
  rw [blockOf_succ]
  exact ⟨by rw [List.length_append]; omega, List.take_left' left, List.drop_left' left⟩

variable [Inhabited α]

theorem rootAt_nextLevel {depth : ℕ} (filled : leaves ≠ []) (fits : leaves.length ≤ 2 ^ (depth + 1))
    :
    rootAt node (depth + 1) leaves = rootAt node depth (nextLevel node leaves) := by
  induction depth generalizing leaves with
  | zero =>
    match leaves with
    | [] => exact absurd rfl filled
    | [last] => rfl
    | [left, right] => rfl
    | left :: right :: third :: rest =>
      simp only [length_cons] at fits
      omega
  | succ depth ih =>
    have half : 2 ^ (depth + 1) = 2 * 2 ^ depth := Nat.pow_succ'
    have size := length_nextLevel node leaves
    by_cases small : leaves.length ≤ 2 ^ (depth + 1)
    · rw [rootAt_succ_of_le small, ih filled small]
      exact (rootAt_succ_of_le (by omega)).symm
    · have large := Nat.not_le.mp small
      have left := ih (take_half large).1 (take_half large).2.le
      have right := ih (drop_half large fits).1 (drop_half large fits).2
      rw [half, nextLevel_take] at left
      rw [half, nextLevel_drop] at right
      rw [rootAt_succ_of_lt large, half, left, right]
      exact (rootAt_succ_of_lt (by omega)).symm

/-- **The level-by-level root.** It is the root of the smallest tree. -/
theorem rootByLevels_eq_root (leaves : List α) : rootByLevels node leaves = root node leaves := by
  fun_induction rootByLevels node leaves with
  | case1 => rfl
  | case2 top => rfl
  | case3 left right rest ih =>
    rw [ih, root, root, length_nextLevel]
    generalize whole : left :: right :: rest = leaves
    have size : 2 ≤ leaves.length := by
      rw [← whole]
      exact Nat.le_add_left 2 _
    have depth : Nat.clog 2 leaves.length = Nat.clog 2 ((leaves.length + 1) / 2) + 1 :=
      Nat.clog_of_two_le Nat.one_lt_two size
    have fits : leaves.length ≤ 2 ^ (Nat.clog 2 ((leaves.length + 1) / 2) + 1) := by
      rw [← depth]
      exact Nat.le_pow_clog Nat.one_lt_two _
    rw [depth]
    exact (rootAt_nextLevel (List.length_pos_iff.mp (by omega)) fits).symm

theorem getElem?_levelOf (level j : ℕ) (leaves : List α) :
    (levelOf node level leaves)[j]? =
      if j * 2 ^ level < leaves.length then some (rootAt node level (blockOf leaves level j))
      else none := by
  induction level generalizing leaves with
  | zero =>
    rw [pow_zero, Nat.mul_one]
    split_ifs with within
    · simp only [levelOf, blockOf, rootAt, pow_zero, Nat.mul_one, List.headD_eq_head?_getD,
        List.head?_take, Nat.one_ne_zero, if_false, List.head?_drop,
        List.getElem?_eq_getElem within, Option.getD_some]
    · exact List.getElem?_eq_none (Nat.not_lt.mp within)
  | succ level ih =>
    have twice : j * 2 ^ (level + 1) = 2 * (j * 2 ^ level) := by
      rw [Nat.pow_succ', Nat.mul_left_comm]
    rw [levelOf, ih, length_nextLevel]
    by_cases within : j * 2 ^ (level + 1) < leaves.length
    · rw [if_pos (by omega), if_pos within, ← nextLevel_blockOf,
        rootAt_nextLevel (blockOf_ne_nil within) (length_blockOf_le _ _ _)]
    · rw [if_neg (by omega), if_neg within]

variable (node) in
/-- The root and the hashed pairs of a block with two halves. -/
theorem blockOf_both (within : (2 * j + 1) * 2 ^ level < leaves.length) :
    rootAt node (level + 1) (blockOf leaves (level + 1) j) =
        node (rootAt node level (blockOf leaves level (2 * j)))
          (rootAt node level (blockOf leaves level (2 * j + 1))) ∧
      pairsAt node (level + 1) (blockOf leaves (level + 1) j) =
        (rootAt node level (blockOf leaves level (2 * j)),
            rootAt node level (blockOf leaves level (2 * j + 1))) ::
          (pairsAt node level (blockOf leaves level (2 * j)) ++
            pairsAt node level (blockOf leaves level (2 * j + 1))) := by
  obtain ⟨large, left, right⟩ := blockOf_halves within
  rw [rootAt_succ_of_lt large, pairsAt_succ_of_lt large, left, right]
  exact ⟨rfl, rfl⟩

variable (node) in
/-- The root and the hashed pairs of a block with one half. -/
theorem blockOf_only (beyond : leaves.length ≤ (2 * j + 1) * 2 ^ level) :
    blockOf leaves (level + 1) j = blockOf leaves level (2 * j) ∧
      rootAt node (level + 1) (blockOf leaves (level + 1) j) =
        node (rootAt node level (blockOf leaves level (2 * j)))
          (rootAt node level (blockOf leaves level (2 * j))) ∧
      pairsAt node (level + 1) (blockOf leaves (level + 1) j) =
        (rootAt node level (blockOf leaves level (2 * j)),
            rootAt node level (blockOf leaves level (2 * j))) ::
          pairsAt node level (blockOf leaves level (2 * j)) := by
  have same : blockOf leaves (level + 1) j = blockOf leaves level (2 * j) := by
    rw [blockOf_succ, blockOf_eq_nil beyond, List.append_nil]
  have small : (blockOf leaves level (2 * j)).length ≤ 2 ^ level := length_blockOf_le _ _ _
  rw [same, rootAt_succ_of_le small, pairsAt_succ_of_le small]
  exact ⟨rfl, rfl, rfl⟩

/-! ## Equal siblings -/

/-- The two existing nodes of a pair hold equal hashes. -/
def SiblingsEqual (nodes : List α) (i : ℕ) : Prop :=
  2 * i + 1 < nodes.length ∧ nodes[2 * i]? = nodes[2 * i + 1]?

instance [DecidableEq α] (nodes : List α) (i : ℕ) : Decidable (SiblingsEqual nodes i) :=
  inferInstanceAs (Decidable (_ ∧ _))

theorem siblingsEqual_levelOf {level i : ℕ} :
    SiblingsEqual (levelOf node level leaves) i ↔
      (2 * i + 1) * 2 ^ level < leaves.length ∧
        rootAt node level (blockOf leaves level (2 * i)) =
          rootAt node level (blockOf leaves level (2 * i + 1)) := by
  have before : 2 * i * 2 ^ level ≤ (2 * i + 1) * 2 ^ level :=
    Nat.mul_le_mul_right _ (Nat.le_succ _)
  have exists_iff : 2 * i + 1 < (levelOf node level leaves).length ↔
      (2 * i + 1) * 2 ^ level < leaves.length := by
    rw [← Nat.not_le, ← List.getElem?_eq_none_iff, getElem?_levelOf]
    split_ifs with within
    · exact iff_of_true not_false within
    · exact iff_of_false (fun missing => missing rfl) within
  refine and_congr_right_iff.mpr ?_ |>.trans (and_congr_left' exists_iff)
  intro inside
  have within := exists_iff.mp inside
  rw [getElem?_levelOf, getElem?_levelOf, if_pos (lt_of_le_of_lt before within), if_pos within,
    Option.some_inj]

theorem repeats_iff_siblingsEqual :
    Repeats node leaves ↔ ∃ level i, (2 * i + 2) * 2 ^ level ≤ leaves.length ∧
      SiblingsEqual (levelOf node level leaves) i := by
  have bounds : ∀ level i : ℕ, i * 2 ^ (level + 1) = 2 * i * 2 ^ level ∧
      i * 2 ^ (level + 1) + 2 ^ (level + 1) = (2 * i + 2) * 2 ^ level ∧
        i * 2 ^ (level + 1) + 2 ^ level = (2 * i + 1) * 2 ^ level := by
    intro level i
    exact ⟨by ring, by ring, by ring⟩
  constructor
  · rintro ⟨level, -, ⟨i, rfl⟩, within, same⟩
    obtain ⟨first, final, second⟩ := bounds level i
    rw [Nat.mul_comm (2 ^ (level + 1)) i] at within same
    have complete : (2 * i + 2) * 2 ^ level ≤ leaves.length := final ▸ within
    refine ⟨level, i, complete, siblingsEqual_levelOf.mpr ⟨lt_of_lt_of_le ?_ complete, ?_⟩⟩
    · exact Nat.mul_lt_mul_of_pos_right (Nat.lt_succ_self _) (Nat.two_pow_pos level)
    · rw [blockOf, blockOf, ← first, ← second]
      exact same
  · rintro ⟨level, i, within, siblings⟩
    obtain ⟨first, final, second⟩ := bounds level i
    have same := (siblingsEqual_levelOf.mp siblings).2
    rw [blockOf, blockOf, ← first, ← second] at same
    exact ⟨level, i * 2 ^ (level + 1), Nat.dvd_mul_left _ _, final ▸ within, same⟩

variable (node) in
theorem blockOf_inside {depth level j : ℕ} (fits : leaves.length ≤ 2 ^ depth)
    (lower : level ≤ depth) (within : j * 2 ^ level < leaves.length) :
    pairsAt node level (blockOf leaves level j) ⊆ pairsAt node depth leaves ∧
      (Repeats node (blockOf leaves level j) → Repeats node leaves) := by
  induction depth, lower using Nat.le_induction generalizing leaves j with
  | base =>
    obtain rfl : j = 0 := by
      by_contra nonzero
      have whole : 1 * 2 ^ level ≤ j * 2 ^ level :=
        Nat.mul_le_mul_right _ (Nat.one_le_iff_ne_zero.mpr nonzero)
      omega
    have whole : blockOf leaves level 0 = leaves := by
      rw [blockOf, Nat.zero_mul, List.drop_zero, List.take_of_length_le fits]
    rw [whole]
    exact ⟨List.Subset.refl _, id⟩
  | succ depth lower ih =>
    by_cases small : leaves.length ≤ 2 ^ depth
    · obtain ⟨pairs, repeats⟩ := ih small within
      exact ⟨List.Subset.trans pairs (pairsAt_subset_of_le small), repeats⟩
    · have large := Nat.not_le.mp small
      obtain ⟨blocks, power⟩ : ∃ blocks, 2 ^ depth = blocks * 2 ^ level :=
        (Nat.pow_dvd_pow 2 lower).imp fun blocks same => same.trans (Nat.mul_comm _ _)
      by_cases left : j < blocks
      · have ends : (j + 1) * 2 ^ level ≤ blocks * 2 ^ level := Nat.mul_le_mul_right _ left
        rw [Nat.succ_mul] at ends
        have positive : 0 < 2 ^ level := Nat.two_pow_pos level
        have block : blockOf (leaves.take (2 ^ depth)) level j = blockOf leaves level j := by
          rw [blockOf, List.drop_take, List.take_take, Nat.min_eq_left (by omega), blockOf]
        have inside : j * 2 ^ level < (leaves.take (2 ^ depth)).length := by
          rw [(take_half large).2]
          omega
        obtain ⟨pairs, repeats⟩ := ih (take_half large).2.le inside
        rw [block] at pairs repeats
        exact ⟨List.Subset.trans pairs (pairsAt_take_subset large),
          fun repeated => (repeats repeated).of_take⟩
      · obtain ⟨shift, rfl⟩ := Nat.exists_eq_add_of_le (Nat.not_lt.mp left)
        have start : (blocks + shift) * 2 ^ level = 2 ^ depth + shift * 2 ^ level := by
          rw [Nat.add_mul, power]
        have block : blockOf (leaves.drop (2 ^ depth)) level shift =
            blockOf leaves level (blocks + shift) := by
          rw [blockOf, List.drop_drop, ← start, blockOf]
        have inside : shift * 2 ^ level < (leaves.drop (2 ^ depth)).length := by
          rw [length_drop]
          omega
        obtain ⟨pairs, repeats⟩ := ih (drop_half large fits).2 inside
        rw [block] at pairs repeats
        exact ⟨List.Subset.trans pairs (pairsAt_drop_subset large),
          fun repeated => (repeats repeated).of_drop fits⟩

/-- **Equal siblings without collisions.** If two siblings are equal, then a subtree is
repeated: where the right one has the smaller block, the two blocks would have to be equal. -/
theorem repeats_of_siblingsEqual {level i : ℕ}
    (injects : Injects node (pairs node leaves) (pairs node leaves))
    (siblings : SiblingsEqual (levelOf node level leaves) i) : Repeats node leaves := by
  obtain ⟨within, same⟩ := siblingsEqual_levelOf.mp siblings
  have positive : 0 < 2 ^ level := Nat.two_pow_pos level
  have split : (2 * i + 1) * 2 ^ level = 2 * i * 2 ^ level + 2 ^ level := Nat.succ_mul _ _
  have fits : leaves.length ≤ 2 ^ Nat.clog 2 leaves.length := Nat.le_pow_clog Nat.one_lt_two _
  have lower : level ≤ Nat.clog 2 leaves.length := by
    apply (Nat.pow_le_pow_iff_right Nat.one_lt_two).mp
    omega
  have leftWithin : 2 * i * 2 ^ level < leaves.length := by omega
  obtain ⟨leftPairs, leftRepeats⟩ := blockOf_inside node fits lower leftWithin
  obtain ⟨rightPairs, rightRepeats⟩ := blockOf_inside node fits lower within
  by_contra fresh
  have blocks : blockOf leaves level (2 * i) = blockOf leaves level (2 * i + 1) :=
    eq_of_rootAt_eq (length_blockOf_le _ _ _) (length_blockOf_le _ _ _) (blockOf_ne_nil leftWithin)
      (blockOf_ne_nil within) (injects.mono leftPairs rightPairs) same
      (fun repeated => fresh (leftRepeats repeated)) (fun repeated => fresh (rightRepeats repeated))
  have sizes := congrArg List.length blocks
  rw [blockOf, blockOf, length_take, length_take, length_drop, length_drop, split] at sizes
  have complete : (2 * i + 2) * 2 ^ level ≤ leaves.length := by
    have next : (2 * i + 2) * 2 ^ level = (2 * i + 1) * 2 ^ level + 2 ^ level := Nat.succ_mul _ _
    omega
  exact fresh (repeats_iff_siblingsEqual.mpr ⟨level, i, complete, siblings⟩)

end DogeCash.MerkleTree
