import Mathlib.Algebra.Ring.Nat
import Mathlib.Data.Nat.Log

/-! # Trees with a repeated last node

A list of leaves is hashed into one value in a binary tree of some depth; where the right
half of a subtree is empty, its left half takes the place of the right one. Lists of different
lengths can then have the same root. If no two pairs that are hashed collide and no leaf is
itself a hash, this happens only if one of the lists repeats a subtree: two complete siblings
in it have the same root (`eq_of_root_eq`).
-/

namespace DogeCash.MerkleTree

variable {α : Type*}

theorem slice_append {before : List α} (item : α) {start size : ℕ}
    (within : start + size ≤ before.length) :
    ((before ++ [item]).drop start).take size = (before.drop start).take size := by
  rw [List.drop_append_of_le_length (by omega), List.take_append_of_le_length]
  rw [List.length_drop]
  omega

variable {leaves : List α} {depth : ℕ}

theorem take_half (large : 2 ^ depth < leaves.length) :
    leaves.take (2 ^ depth) ≠ [] ∧ (leaves.take (2 ^ depth)).length = 2 ^ depth := by
  have positive : 0 < 2 ^ depth := Nat.two_pow_pos depth
  have size : (leaves.take (2 ^ depth)).length = 2 ^ depth := by
    rw [List.length_take, Nat.min_eq_left large.le]
  exact ⟨List.length_pos_iff.mp (by omega), size⟩

theorem drop_half (large : 2 ^ depth < leaves.length) (fits : leaves.length ≤ 2 ^ (depth + 1)) :
    leaves.drop (2 ^ depth) ≠ [] ∧ (leaves.drop (2 ^ depth)).length ≤ 2 ^ depth := by
  have size : (leaves.drop (2 ^ depth)).length = leaves.length - 2 ^ depth := List.length_drop
  exact ⟨List.length_pos_iff.mp (by omega), by omega⟩

section Collisions

variable (node : α → α → α)

def Injects (first second : List (α × α)) : Prop :=
  ∀ pair ∈ first, ∀ other ∈ second, node pair.1 pair.2 = node other.1 other.2 → pair = other

def Avoids (leaves : List α) (hashed : List (α × α)) : Prop :=
  ∀ leaf ∈ leaves, ∀ pair ∈ hashed, leaf ≠ node pair.1 pair.2

instance [DecidableEq α] (first second : List (α × α)) : Decidable (Injects node first second) :=
  inferInstanceAs (Decidable (∀ pair ∈ first, ∀ other ∈ second, _ → _))

instance [DecidableEq α] (leaves : List α) (hashed : List (α × α)) :
    Decidable (Avoids node leaves hashed) :=
  inferInstanceAs (Decidable (∀ leaf ∈ leaves, ∀ pair ∈ hashed, _))

variable {node}

theorem Injects.mono {first second less fewer : List (α × α)} (injects : Injects node first second)
    (left : less ⊆ first) (right : fewer ⊆ second) : Injects node less fewer :=
  fun pair mem other inside => injects pair (left mem) other (right inside)

theorem Injects.symm {first second : List (α × α)} (injects : Injects node first second) :
    Injects node second first :=
  fun pair mem other inside same => (injects other inside pair mem same.symm).symm

end Collisions

variable [Inhabited α] (node : α → α → α)

/-- The root of leaves in a tree of some depth. -/
def rootAt : ℕ → List α → α
  | 0, leaves => leaves.headD default
  | depth + 1, leaves =>
    if leaves.length ≤ 2 ^ depth then node (rootAt depth leaves) (rootAt depth leaves)
    else node (rootAt depth (leaves.take (2 ^ depth))) (rootAt depth (leaves.drop (2 ^ depth)))

/-- The pairs that are hashed on the way to the root. -/
def pairsAt : ℕ → List α → List (α × α)
  | 0, _ => []
  | depth + 1, leaves =>
    if leaves.length ≤ 2 ^ depth then
      (rootAt node depth leaves, rootAt node depth leaves) :: pairsAt depth leaves
    else
      (rootAt node depth (leaves.take (2 ^ depth)), rootAt node depth (leaves.drop (2 ^ depth))) ::
        (pairsAt depth (leaves.take (2 ^ depth)) ++ pairsAt depth (leaves.drop (2 ^ depth)))

def root (leaves : List α) : α := rootAt node (Nat.clog 2 leaves.length) leaves

def pairs (leaves : List α) : List (α × α) := pairsAt node (Nat.clog 2 leaves.length) leaves

def RepeatsAt (leaves : List α) (level start : ℕ) : Prop :=
  2 ^ (level + 1) ∣ start ∧ start + 2 ^ (level + 1) ≤ leaves.length ∧
    rootAt node level ((leaves.drop start).take (2 ^ level)) =
      rootAt node level ((leaves.drop (start + 2 ^ level)).take (2 ^ level))

def Repeats (leaves : List α) : Prop := ∃ level start, RepeatsAt node leaves level start

variable {node} {depth : ℕ} {leaves others : List α}

theorem rootAt_succ_of_le (small : leaves.length ≤ 2 ^ depth) :
    rootAt node (depth + 1) leaves = node (rootAt node depth leaves) (rootAt node depth leaves) :=
  if_pos small

theorem rootAt_succ_of_lt (large : 2 ^ depth < leaves.length) :
    rootAt node (depth + 1) leaves = node (rootAt node depth (leaves.take (2 ^ depth)))
      (rootAt node depth (leaves.drop (2 ^ depth))) :=
  if_neg (Nat.not_le.mpr large)

theorem rootAt_drop {start : ℕ} (large : start + 2 ^ depth < leaves.length) :
    rootAt node (depth + 1) (leaves.drop start) =
      node (rootAt node depth ((leaves.drop start).take (2 ^ depth)))
        (rootAt node depth (leaves.drop (start + 2 ^ depth))) := by
  rw [rootAt_succ_of_lt (by rw [List.length_drop]; omega), List.drop_drop]

theorem pairsAt_succ_of_le (small : leaves.length ≤ 2 ^ depth) :
    pairsAt node (depth + 1) leaves =
      (rootAt node depth leaves, rootAt node depth leaves) :: pairsAt node depth leaves :=
  if_pos small

theorem pairsAt_succ_of_lt (large : 2 ^ depth < leaves.length) :
    pairsAt node (depth + 1) leaves =
      (rootAt node depth (leaves.take (2 ^ depth)), rootAt node depth (leaves.drop (2 ^ depth))) ::
        (pairsAt node depth (leaves.take (2 ^ depth)) ++
          pairsAt node depth (leaves.drop (2 ^ depth))) :=
  if_neg (Nat.not_le.mpr large)

theorem pairsAt_subset_of_le (small : leaves.length ≤ 2 ^ depth) :
    pairsAt node depth leaves ⊆ pairsAt node (depth + 1) leaves := by
  rw [pairsAt_succ_of_le small]
  exact List.subset_cons_self _ _

theorem pairsAt_take_subset (large : 2 ^ depth < leaves.length) :
    pairsAt node depth (leaves.take (2 ^ depth)) ⊆ pairsAt node (depth + 1) leaves := by
  rw [pairsAt_succ_of_lt large]
  exact List.Subset.trans (List.subset_append_left _ _) (List.subset_cons_self _ _)

theorem pairsAt_drop_subset (large : 2 ^ depth < leaves.length) :
    pairsAt node depth (leaves.drop (2 ^ depth)) ⊆ pairsAt node (depth + 1) leaves := by
  rw [pairsAt_succ_of_lt large]
  exact List.Subset.trans (List.subset_append_right _ _) (List.subset_cons_self _ _)

theorem mem_pairsAt_of_le (small : leaves.length ≤ 2 ^ depth) :
    (rootAt node depth leaves, rootAt node depth leaves) ∈ pairsAt node (depth + 1) leaves := by
  rw [pairsAt_succ_of_le small]
  exact List.mem_cons_self

theorem mem_pairsAt_of_lt (large : 2 ^ depth < leaves.length) :
    (rootAt node depth (leaves.take (2 ^ depth)), rootAt node depth (leaves.drop (2 ^ depth))) ∈
      pairsAt node (depth + 1) leaves := by
  rw [pairsAt_succ_of_lt large]
  exact List.mem_cons_self

theorem Repeats.of_take {size : ℕ} (repeats : Repeats node (leaves.take size)) :
    Repeats node leaves := by
  obtain ⟨level, start, aligned, within, same⟩ := repeats
  rw [List.length_take] at within
  refine ⟨level, start, aligned, le_trans within (Nat.min_le_right _ _), ?_⟩
  have slice : ∀ position, position + 2 ^ level ≤ size →
      ((leaves.take size).drop position).take (2 ^ level) =
        (leaves.drop position).take (2 ^ level) := by
    intro position inside
    rw [List.drop_take, List.take_take, Nat.min_eq_left (by omega)]
  rwa [slice start (by omega), slice (start + 2 ^ level) (by omega)] at same

theorem Repeats.of_drop (fits : leaves.length ≤ 2 ^ (depth + 1))
    (repeats : Repeats node (leaves.drop (2 ^ depth))) : Repeats node leaves := by
  obtain ⟨level, start, aligned, within, same⟩ := repeats
  rw [List.length_drop] at within
  have lower : level + 1 ≤ depth := by
    have inside : 2 ^ (level + 1) ≤ 2 ^ depth := by omega
    exact (Nat.pow_le_pow_iff_right (by decide)).mp inside
  refine ⟨level, 2 ^ depth + start, ?_, by omega, ?_⟩
  · exact Nat.dvd_add (Nat.pow_dvd_pow 2 lower) aligned
  · rw [List.drop_drop, List.drop_drop] at same
    rw [same, Nat.add_assoc]

/-- **Lists without repeats.** Two lists with the same root in trees of the same depth are
equal if neither repeats a subtree. -/
theorem eq_of_rootAt_eq (fits : leaves.length ≤ 2 ^ depth) (fitsOther : others.length ≤ 2 ^ depth)
    (filled : leaves ≠ []) (filledOther : others ≠ [])
    (injects : Injects node (pairsAt node depth leaves) (pairsAt node depth others))
    (same : rootAt node depth leaves = rootAt node depth others)
    (fresh : ¬Repeats node leaves) (freshOther : ¬Repeats node others) : leaves = others := by
  induction depth generalizing leaves others with
  | zero =>
    obtain ⟨leaf, rfl⟩ : ∃ leaf, leaves = [leaf] :=
      List.length_eq_one_iff.mp (le_antisymm fits (List.length_pos_iff.mpr filled))
    obtain ⟨other, rfl⟩ : ∃ other, others = [other] :=
      List.length_eq_one_iff.mp (le_antisymm fitsOther (List.length_pos_iff.mpr filledOther))
    exact congrArg (fun leaf => [leaf]) same
  | succ depth ih =>
    -- A list that fills one half has no equal with two halves, which would be the same.
    have unbalanced : ∀ {short long : List α}, short.length ≤ 2 ^ depth → 2 ^ depth < long.length →
        long.length ≤ 2 ^ (depth + 1) → short ≠ [] →
        Injects node (pairsAt node (depth + 1) short) (pairsAt node (depth + 1) long) →
        rootAt node (depth + 1) short = rootAt node (depth + 1) long →
        ¬Repeats node short → ¬Repeats node long → False := by
      intro short long small large fitsLong filledShort injects same freshShort freshLong
      rw [rootAt_succ_of_le small, rootAt_succ_of_lt large] at same
      obtain ⟨left, right⟩ :=
        Prod.mk.inj (injects _ (mem_pairsAt_of_le small) _ (mem_pairsAt_of_lt large) same)
      obtain ⟨takeFilled, takeLength⟩ := take_half large
      obtain ⟨dropFilled, dropFits⟩ := drop_half large fitsLong
      have first : short = long.take (2 ^ depth) :=
        ih small takeLength.le filledShort takeFilled
          (injects.mono (pairsAt_subset_of_le small) (pairsAt_take_subset large)) left freshShort
          (fun repeats => freshLong repeats.of_take)
      have second : short = long.drop (2 ^ depth) :=
        ih small dropFits filledShort dropFilled
          (injects.mono (pairsAt_subset_of_le small) (pairsAt_drop_subset large)) right freshShort
          (fun repeats => freshLong (repeats.of_drop fitsLong))
      have full : (long.drop (2 ^ depth)).length = 2 ^ depth := by
        rw [← second, first, takeLength]
      rw [List.length_drop] at full
      refine freshLong ⟨depth, 0, Nat.dvd_zero _, by omega, ?_⟩
      rw [List.drop_zero, Nat.zero_add, List.take_of_length_le dropFits, ← first, ← second]
    by_cases small : leaves.length ≤ 2 ^ depth <;> by_cases smallOther : others.length ≤ 2 ^ depth
    · rw [rootAt_succ_of_le small, rootAt_succ_of_le smallOther] at same
      have halves := injects _ (mem_pairsAt_of_le small) _ (mem_pairsAt_of_le smallOther) same
      exact ih small smallOther filled filledOther
        (injects.mono (pairsAt_subset_of_le small) (pairsAt_subset_of_le smallOther))
        (Prod.mk.inj halves).1 fresh freshOther
    · exact (unbalanced small (Nat.not_le.mp smallOther) fitsOther filled injects same fresh
        freshOther).elim
    · exact (unbalanced smallOther (Nat.not_le.mp small) fits filledOther injects.symm same.symm
        freshOther fresh).elim
    · have large := Nat.not_le.mp small
      have largeOther := Nat.not_le.mp smallOther
      rw [rootAt_succ_of_lt large, rootAt_succ_of_lt largeOther] at same
      obtain ⟨left, right⟩ :=
        Prod.mk.inj (injects _ (mem_pairsAt_of_lt large) _ (mem_pairsAt_of_lt largeOther) same)
      obtain ⟨takeFilled, takeLength⟩ := take_half large
      obtain ⟨takeFilledOther, takeLengthOther⟩ := take_half largeOther
      obtain ⟨dropFilled, dropFits⟩ := drop_half large fits
      obtain ⟨dropFilledOther, dropFitsOther⟩ := drop_half largeOther fitsOther
      have first : leaves.take (2 ^ depth) = others.take (2 ^ depth) :=
        ih takeLength.le takeLengthOther.le takeFilled takeFilledOther
          (injects.mono (pairsAt_take_subset large) (pairsAt_take_subset largeOther)) left
          (fun repeats => fresh repeats.of_take) (fun repeats => freshOther repeats.of_take)
      have second : leaves.drop (2 ^ depth) = others.drop (2 ^ depth) :=
        ih dropFits dropFitsOther dropFilled dropFilledOther
          (injects.mono (pairsAt_drop_subset large) (pairsAt_drop_subset largeOther)) right
          (fun repeats => fresh (repeats.of_drop fits))
          (fun repeats => freshOther (repeats.of_drop fitsOther))
      rw [← List.take_append_drop (2 ^ depth) leaves, first, second, List.take_append_drop]

theorem exists_half (node : α → α → α) (depth : ℕ) (filled : leaves ≠ []) :
    ∃ half right, half ≠ [] ∧ half ⊆ leaves ∧
      pairsAt node depth half ⊆ pairsAt node (depth + 1) leaves ∧
        (rootAt node depth half, right) ∈ pairsAt node (depth + 1) leaves ∧
          rootAt node (depth + 1) leaves = node (rootAt node depth half) right := by
  by_cases small : leaves.length ≤ 2 ^ depth
  · exact ⟨leaves, _, filled, List.Subset.refl _, pairsAt_subset_of_le small,
      mem_pairsAt_of_le small, rootAt_succ_of_le small⟩
  · have large := Nat.not_le.mp small
    exact ⟨leaves.take (2 ^ depth), _, (take_half large).1, List.take_subset _ _,
      pairsAt_take_subset large, mem_pairsAt_of_lt large, rootAt_succ_of_lt large⟩

theorem rootAt_ne (depth more : ℕ) (filled : leaves ≠ []) (filledOther : others ≠ [])
    (injects : Injects node (pairsAt node depth leaves) (pairsAt node (depth + more + 1) others))
    (avoids : Avoids node leaves (pairsAt node (depth + more + 1) others)) :
    rootAt node depth leaves ≠ rootAt node (depth + more + 1) others := by
  induction depth generalizing leaves others with
  | zero =>
    obtain ⟨half, right, -, -, -, mem, hashed⟩ := exists_half node (0 + more) filledOther
    rw [hashed]
    obtain ⟨leaf, rest, rfl⟩ := List.exists_cons_of_ne_nil filled
    exact avoids leaf List.mem_cons_self _ mem
  | succ depth ih =>
    have deeper : depth + 1 + more + 1 = depth + more + 1 + 1 := by omega
    rw [deeper] at injects avoids ⊢
    obtain ⟨half, right, halfFilled, subset, pairsSubset, mem, hashed⟩ :=
      exists_half node depth filled
    obtain ⟨other, otherRight, otherFilled, -, otherPairs, otherMember, otherHashed⟩ :=
      exists_half node (depth + more + 1) filledOther
    intro same
    rw [hashed, otherHashed] at same
    have halves := injects _ mem _ otherMember same
    refine ih halfFilled otherFilled (injects.mono pairsSubset otherPairs) ?_
      (Prod.mk.inj halves).1
    exact fun leaf inside pair hashedPair => avoids leaf (subset inside) pair
      (otherPairs hashedPair)

/-- **Roots determine lists.** Two lists with the same root are equal if neither repeats a
subtree, no two of the pairs that are hashed for them collide, and no leaf is one of the
hashes. -/
theorem eq_of_root_eq (filled : leaves ≠ []) (filledOther : others ≠ [])
    (injects : Injects node (pairs node leaves) (pairs node others))
    (avoids : Avoids node leaves (pairs node others))
    (avoidsOther : Avoids node others (pairs node leaves))
    (same : root node leaves = root node others)
    (fresh : ¬Repeats node leaves) (freshOther : ¬Repeats node others) : leaves = others := by
  unfold root at same
  unfold pairs at injects avoids avoidsOther
  have fits : leaves.length ≤ 2 ^ Nat.clog 2 leaves.length := Nat.le_pow_clog (by decide) _
  have fitsOther : others.length ≤ 2 ^ Nat.clog 2 others.length := Nat.le_pow_clog (by decide) _
  generalize Nat.clog 2 leaves.length = depth at *
  generalize Nat.clog 2 others.length = otherDepth at *
  rcases Nat.lt_trichotomy depth otherDepth with lower | rfl | higher
  · obtain ⟨more, rfl⟩ := Nat.exists_eq_add_of_lt lower
    exact absurd same (rootAt_ne depth more filled filledOther injects avoids)
  · exact eq_of_rootAt_eq fits fitsOther filled filledOther injects same fresh freshOther
  · obtain ⟨more, rfl⟩ := Nat.exists_eq_add_of_lt higher
    exact absurd same.symm
      (rootAt_ne otherDepth more filledOther filled injects.symm avoidsOther)

end DogeCash.MerkleTree
