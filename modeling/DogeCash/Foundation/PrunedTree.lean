import DogeCash.Foundation.MerkleLevels
import Mathlib.Data.List.GetD

/-! # Merkle trees without some of their subtrees

A pruned tree shows some of the leaves of a merkle tree. A subtree without such a leaf is
hidden behind its root; the others are given by their halves, of which there is only one where
the list of leaves ends. Pruning a list keeps its root and shows the chosen leaves
(`digest_prune`, `shown_prune`). Whatever pruned tree of the same shape has the root of a list
shows leaves of that list in their order, if no pair that is hashed for the one collides with
one that is hashed for the other (`shown_sublist`).
-/

namespace DogeCash.MerkleTree

open List (length_append length_cons length_pos_iff mem_cons_self nil_sublist)

/-- A pruned tree of some height. -/
inductive Pruned (α : Type*) : ℕ → Type _ where
  | leaf (shown : Bool) (value : α) : Pruned α 0
  | hidden {height : ℕ} (root : α) : Pruned α (height + 1)
  | only {height : ℕ} (left : Pruned α height) : Pruned α (height + 1)
  | both {height : ℕ} (left right : Pruned α height) : Pruned α (height + 1)

namespace Pruned

variable {α : Type*}

def digest (node : α → α → α) : {height : ℕ} → Pruned α height → α
  | _, leaf _ value => value
  | _, hidden root => root
  | _, only left => node (left.digest node) (left.digest node)
  | _, both left right => node (left.digest node) (right.digest node)

/-- The leaves that are shown. -/
def shown : {height : ℕ} → Pruned α height → List α
  | _, leaf shown value => if shown then [value] else []
  | _, hidden _ => []
  | _, only left => left.shown
  | _, both left right => left.shown ++ right.shown

/-- The pairs that are hashed for the root. -/
def hashed (node : α → α → α) : {height : ℕ} → Pruned α height → List (α × α)
  | _, leaf _ _ => []
  | _, hidden _ => []
  | _, only left => (left.digest node, left.digest node) :: left.hashed node
  | _, both left right =>
    (left.digest node, right.digest node) :: (left.hashed node ++ right.hashed node)

/-- For every subtree whether a leaf of it is shown, those of a hidden one apart. -/
def bits : {height : ℕ} → Pruned α height → List Bool
  | _, leaf shown _ => [shown]
  | _, hidden _ => [false]
  | _, only left => true :: left.bits
  | _, both left right => true :: (left.bits ++ right.bits)

/-- The leaves and the roots of hidden subtrees. -/
def hashes : {height : ℕ} → Pruned α height → List α
  | _, leaf _ value => [value]
  | _, hidden root => [root]
  | _, only left => left.hashes
  | _, both left right => left.hashes ++ right.hashes

/-- The tree has the shape of a subtree of a list: there is a right half exactly if the list
reaches it. -/
def Fits (count : ℕ) : {height : ℕ} → Pruned α height → ℕ → Prop
  | _, leaf _ _, _ => True
  | _, hidden _, _ => True
  | height + 1, only left, pos => count ≤ (2 * pos + 1) * 2 ^ height ∧ left.Fits count (2 * pos)
  | height + 1, both left right, pos =>
    (2 * pos + 1) * 2 ^ height < count ∧ left.Fits count (2 * pos) ∧ right.Fits count (2 * pos + 1)

theorem length_hashes_le_bits {height : ℕ} (tree : Pruned α height) :
    tree.hashes.length ≤ tree.bits.length := by
  induction tree with
  | leaf shown value => exact le_rfl
  | hidden root => exact le_rfl
  | only left ih => exact Nat.le_succ_of_le ih
  | both left right ihLeft ihRight =>
    rw [hashes, bits, length_append, length_cons, length_append]
    omega

theorem left_start {count height pos : ℕ} (within : pos * 2 ^ (height + 1) < count) :
    2 * pos * 2 ^ height < count := by
  rwa [Nat.mul_comm 2 pos, Nat.mul_assoc, ← Nat.pow_succ']

variable [Inhabited α] {node : α → α → α}

/-! ## Soundness -/

variable (node) in
theorem shown_sublist {leaves : List α} {height pos : ℕ} {tree : Pruned α height}
    (fits : tree.Fits leaves.length pos) (within : pos * 2 ^ height < leaves.length)
    (injects : Injects node (pairsAt node height (blockOf leaves height pos)) (tree.hashed node))
    (same : tree.digest node = rootAt node height (blockOf leaves height pos)) :
    tree.shown.Sublist (blockOf leaves height pos) := by
  induction tree generalizing pos with
  | leaf shown value =>
    obtain ⟨first, rest, block⟩ := List.exists_cons_of_ne_nil (blockOf_ne_nil within)
    obtain rfl : value = first := by
      rw [block] at same
      exact same
    rw [block]
    cases shown with
    | false => exact nil_sublist _
    | true => exact List.Sublist.cons_cons value (nil_sublist rest)
  | hidden root => exact nil_sublist _
  | @only height left ih =>
    obtain ⟨beyond, fitsLeft⟩ := fits
    obtain ⟨block, root, pairs⟩ := blockOf_only node beyond
    rw [root] at same
    rw [pairs] at injects
    have halves := injects _ mem_cons_self _ mem_cons_self same.symm
    rw [block]
    exact ih fitsLeft (left_start within)
      (injects.mono (List.subset_cons_self _ _) (List.subset_cons_self _ _))
      (Prod.mk.inj halves).1.symm
  | @both height left right ihLeft ihRight =>
    obtain ⟨inside, fitsLeft, fitsRight⟩ := fits
    obtain ⟨root, pairs⟩ := blockOf_both node inside
    rw [root] at same
    rw [pairs] at injects
    obtain ⟨first, second⟩ := Prod.mk.inj
      (injects _ mem_cons_self _ mem_cons_self same.symm)
    have start := left_start within
    rw [blockOf_succ]
    apply List.Sublist.append
    · exact ihLeft fitsLeft start
        (injects.mono (List.subset_cons_of_subset _ (List.subset_append_left _ _))
          (List.subset_cons_of_subset _ (List.subset_append_left _ _))) first.symm
    · exact ihRight fitsRight inside
        (injects.mono (List.subset_cons_of_subset _ (List.subset_append_right _ _))
          (List.subset_cons_of_subset _ (List.subset_append_right _ _))) second.symm

/-! ## Pruning a list -/

variable (node) in
/-- The subtree of a list that shows the marked leaves. -/
def prune (leaves : List α) (marks : List Bool) : (height pos : ℕ) → Pruned α height
  | 0, pos => leaf (marks.getD pos false) (leaves.getD pos default)
  | height + 1, pos =>
    if (blockOf marks (height + 1) pos).any id then
      if (2 * pos + 1) * 2 ^ height < leaves.length then
        both (prune leaves marks height (2 * pos)) (prune leaves marks height (2 * pos + 1))
      else only (prune leaves marks height (2 * pos))
    else hidden (rootAt node (height + 1) (blockOf leaves (height + 1) pos))

def marked (leaves : List α) (marks : List Bool) : List α :=
  ((leaves.zip marks).filter Prod.snd).map Prod.fst

omit [Inhabited α] in
theorem marked_append {first second : List α} {marks more : List Bool}
    (length : first.length = marks.length) :
    marked (first ++ second) (marks ++ more) = marked first marks ++ marked second more := by
  rw [marked, List.zip_append length, List.filter_append, List.map_append]
  rfl

omit [Inhabited α] in
theorem marked_eq_nil {leaves : List α} {marks : List Bool} (clear : marks.any id = false) :
    marked leaves marks = [] := by
  rw [marked, List.map_eq_nil_iff, List.filter_eq_nil_iff]
  intro pair mem
  have mark := List.any_eq_false.mp clear _ (List.of_mem_zip mem).2
  exact mark

variable {leaves : List α} {marks : List Bool}

theorem fits_prune (height pos : ℕ) :
    (prune node leaves marks height pos).Fits leaves.length pos := by
  induction height generalizing pos with
  | zero => trivial
  | succ height ih =>
    unfold prune
    split_ifs with some right
    · exact ⟨right, ih _, ih _⟩
    · exact ⟨Nat.not_lt.mp right, ih _⟩
    · trivial

theorem blockOf_zero {pos : ℕ} (within : pos < leaves.length) :
    blockOf leaves 0 pos = [leaves.getD pos default] := by
  rw [blockOf, pow_zero, Nat.mul_one, List.drop_eq_getElem_cons within,
    List.getD_eq_getElem _ _ within]
  rfl

theorem digest_prune {height pos : ℕ} (within : pos * 2 ^ height < leaves.length) :
    (prune node leaves marks height pos).digest node =
      rootAt node height (blockOf leaves height pos) := by
  induction height generalizing pos with
  | zero =>
    rw [pow_zero, Nat.mul_one] at within
    rw [blockOf_zero within]
    rfl
  | succ height ih =>
    have start := left_start within
    unfold prune
    split_ifs with some right
    · rw [digest, ih start, ih right, (blockOf_both node right).1]
    · rw [digest, ih start, (blockOf_only node (Nat.not_lt.mp right)).2.1]
    · rfl

theorem shown_prune {height pos : ℕ} (lengths : marks.length = leaves.length)
    (within : pos * 2 ^ height < leaves.length) :
    (prune node leaves marks height pos).shown =
      marked (blockOf leaves height pos) (blockOf marks height pos) := by
  induction height generalizing pos with
  | zero =>
    rw [pow_zero, Nat.mul_one] at within
    rw [blockOf_zero within, blockOf_zero (lengths ▸ within), prune, shown]
    change _ = marked [_] [marks.getD pos false]
    cases marks.getD pos false with
    | false => rfl
    | true => rfl
  | succ height ih =>
    have start := left_start within
    have halves : (blockOf leaves height (2 * pos)).length =
        (blockOf marks height (2 * pos)).length := by
      rw [blockOf, blockOf, List.length_take, List.length_take, List.length_drop,
        List.length_drop, lengths]
    unfold prune
    split_ifs with some right
    · rw [shown, ih start, ih right, blockOf_succ, blockOf_succ, marked_append halves]
    · have none : blockOf marks height (2 * pos + 1) = [] :=
        blockOf_eq_nil (by rw [lengths]; exact Nat.not_lt.mp right)
      rw [shown, ih start, (blockOf_only node (Nat.not_lt.mp right)).1, blockOf_succ marks,
        none, List.append_nil]
    · exact (marked_eq_nil (Bool.eq_false_iff.mpr some)).symm

variable (node marks) in
theorem length_hashes_prune_le {height pos : ℕ} (within : pos * 2 ^ height < leaves.length) :
    (prune node leaves marks height pos).hashes.length ≤ (blockOf leaves height pos).length := by
  induction height generalizing pos with
  | zero => exact length_pos_iff.mpr (blockOf_ne_nil within)
  | succ height ih =>
    have start := left_start within
    unfold prune
    split_ifs with some right
    · rw [hashes, blockOf_succ, length_append, length_append]
      exact Nat.add_le_add (ih start) (ih right)
    · rw [(blockOf_only node (Nat.not_lt.mp right)).1]
      exact ih start
    · exact length_pos_iff.mpr (blockOf_ne_nil within)

variable (node marks) in
theorem length_bits_prune_le {height pos : ℕ} (within : pos * 2 ^ height < leaves.length) :
    (prune node leaves marks height pos).bits.length ≤
      (height + 1) * (blockOf leaves height pos).length := by
  have nonempty := length_pos_iff.mpr (blockOf_ne_nil within)
  induction height generalizing pos with
  | zero =>
    rw [Nat.zero_add, Nat.one_mul]
    exact nonempty
  | succ height ih =>
    have start := left_start within
    have left := ih start (length_pos_iff.mpr (blockOf_ne_nil start))
    rw [Nat.succ_mul]
    unfold prune
    split_ifs with some right
    · have second := ih right (length_pos_iff.mpr (blockOf_ne_nil right))
      rw [blockOf_succ, length_append] at nonempty ⊢
      rw [bits, length_cons, length_append, Nat.mul_add]
      omega
    · rw [(blockOf_only node (Nat.not_lt.mp right)).1] at nonempty ⊢
      rw [bits, length_cons]
      omega
    · exact Nat.le_add_left_of_le nonempty

end Pruned

end DogeCash.MerkleTree
