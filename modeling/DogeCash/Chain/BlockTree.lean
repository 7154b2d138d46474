import Mathlib.Algebra.BigOperators.Group.List.Basic
import Mathlib.Algebra.Ring.Nat
import DogeCash.Foundation.Ancestry

/-! # The tree of block index entries

The fields of a `CBlockIndex` that are written once, when `AddToBlockIndex` creates the
entry: the predecessor, the height and the chain work. Entries are named by their
addresses; `mapBlockIndex` has one entry for each block hash, so the address stands for
the hash too. That predecessors are known and one lower is part of the structure.
-/

namespace DogeCash

open Function (update update_of_ne update_self)

/-- The entries of `mapBlockIndex` and their places in the tree. -/
structure BlockTree (Ptr : Type) where
  blocks : List Ptr
  pprev : Ptr → Option Ptr
  nHeight : Ptr → ℕ
  nChainWork : Ptr → ℕ
  known : ∀ b p, pprev b = some p → b ∈ blocks ∧ p ∈ blocks
  grows : ∀ b p, pprev b = some p → nHeight b = nHeight p + 1

namespace BlockTree

variable {Ptr : Type}

def genesis (b : Ptr) (nProof : ℕ) : BlockTree Ptr where
  blocks := [b]
  pprev _ := none
  nHeight _ := 0
  nChainWork _ := nProof % 2 ^ 256
  known _ _ impossible := by cases impossible
  grows _ _ impossible := by cases impossible

variable (tree : BlockTree Ptr)

/-- `a` is `b` or an ancestor of `b`. -/
def IsAncestor (a b : Ptr) : Prop := DogeCash.IsAncestor tree.pprev a b

/-- The block and its ancestors, by the `pprev` pointers. -/
def lineage (b : Ptr) : List Ptr := DogeCash.lineage tree.pprev (tree.nHeight b) b

/-- `CBlockIndex::GetAncestor`. The skip pointers only shorten the walk. -/
def getAncestor (b : Ptr) (height : ℕ) : Option Ptr :=
  if height ≤ tree.nHeight b then climb tree.pprev (tree.nHeight b - height) b else none

def chainTx (nTx : Ptr → ℕ) (b : Ptr) : ℕ := ((tree.lineage b).map nTx).sum

section Add

variable [DecidableEq Ptr]

/-- A new entry after a known block, as `AddToBlockIndex` links it. -/
def add (b prev : Ptr) (nProof : ℕ) (fresh : b ∉ tree.blocks) (found : prev ∈ tree.blocks) :
    BlockTree Ptr where
  blocks := b :: tree.blocks
  pprev := update tree.pprev b (some prev)
  nHeight := update tree.nHeight b (tree.nHeight prev + 1)
  nChainWork := update tree.nChainWork b ((tree.nChainWork prev + nProof) % 2 ^ 256)
  known child p above := by
    by_cases new : child = b
    · subst new
      rw [update_self] at above
      cases above
      exact ⟨List.mem_cons_self, List.mem_cons_of_mem _ found⟩
    · rw [update_of_ne new] at above
      have old := tree.known child p above
      exact ⟨List.mem_cons_of_mem _ old.1, List.mem_cons_of_mem _ old.2⟩
  grows child p above := by
    by_cases new : child = b
    · subst new
      rw [update_self] at above
      cases above
      have ne : prev ≠ child := ne_of_mem_of_not_mem found fresh
      rw [update_self, update_of_ne ne]
    · rw [update_of_ne new] at above
      have old : p ≠ b := ne_of_mem_of_not_mem (tree.known child p above).2 fresh
      rw [update_of_ne new, update_of_ne old]
      exact tree.grows child p above

end Add

variable {tree} {a b c p : Ptr}

theorem isAncestor_refl (b : Ptr) : tree.IsAncestor b b := DogeCash.IsAncestor.refl _ b

namespace IsAncestor

theorem trans (lower : tree.IsAncestor a b) (upper : tree.IsAncestor b c) : tree.IsAncestor a c :=
  DogeCash.IsAncestor.trans lower upper

theorem mem (ancestor : tree.IsAncestor a b) (mem : b ∈ tree.blocks) : a ∈ tree.blocks :=
  DogeCash.IsAncestor.induct (· ∈ tree.blocks) ancestor mem
    fun child above link _ => (tree.known child above link).2

end IsAncestor

theorem isAncestor_of_pprev (above : tree.pprev b = some p) : tree.IsAncestor p b :=
  DogeCash.IsAncestor.of_parent above

theorem isAncestor_iff_pprev :
    tree.IsAncestor a b ↔ a = b ∨ ∃ p, tree.pprev b = some p ∧ tree.IsAncestor a p :=
  DogeCash.IsAncestor.iff_parent

@[simp] theorem mem_lineage : a ∈ tree.lineage b ↔ tree.IsAncestor a b := mem_lineage_iff tree.grows

theorem nHeight_le_of_lineage {front rest : List Ptr} (split : tree.lineage b = front ++ a :: rest)
    (behind : c ∈ a :: rest) : tree.nHeight c ≤ tree.nHeight a := by
  rcases List.mem_cons.mp behind with rfl | later
  · exact Nat.le_refl _
  · have ordered : (tree.lineage b).Pairwise fun x y => tree.IsAncestor y x :=
      lineage_pairwise tree.pprev (tree.nHeight b) b
    rw [split] at ordered
    have ancestor := (List.pairwise_cons.mp (List.pairwise_append.mp ordered).2.1).1 c later
    exact IsAncestor.height_le tree.grows ancestor

theorem getAncestor_eq_some : tree.getAncestor b (tree.nHeight a) = some a ↔
    tree.IsAncestor a b := by
  rw [IsAncestor, ← climb_eq_some_iff tree.grows, getAncestor]
  by_cases lower : tree.nHeight a ≤ tree.nHeight b
  · simp [lower]
  · simp [lower]

theorem isAncestor_of_getAncestor {height : ℕ} (found : tree.getAncestor b height = some a) :
    tree.IsAncestor a b := by
  unfold getAncestor at found
  split at found
  · exact isAncestor_of_climb found
  · cases found

theorem chainTx_of_pprev (nTx : Ptr → ℕ) (above : tree.pprev b = some p) :
    tree.chainTx nTx b = nTx b + tree.chainTx nTx p := by
  rw [chainTx, lineage, lineage_of_parent tree.grows above, List.map_cons, List.sum_cons]
  rfl

theorem chainTx_of_root (nTx : Ptr → ℕ) (root : tree.pprev b = none) :
    tree.chainTx nTx b = nTx b := by
  rw [chainTx, lineage, lineage_of_root root, List.map_singleton, List.sum_singleton]

theorem chainTx_congr {nTx other : Ptr → ℕ} (same : ∀ a, tree.IsAncestor a b → nTx a = other a) :
    tree.chainTx nTx b = tree.chainTx other b := by
  refine congrArg List.sum (List.map_congr_left fun a mem => ?_)
  exact same a (mem_lineage.mp mem)

section Add

variable [DecidableEq Ptr] {prev : Ptr} {nProof : ℕ} {fresh : b ∉ tree.blocks}
  {found : prev ∈ tree.blocks}

theorem add_pprev (old : c ∈ tree.blocks) :
    (tree.add b prev nProof fresh found).pprev c = tree.pprev c :=
  update_of_ne (ne_of_mem_of_not_mem old fresh) _ _

theorem add_isAncestor (old : c ∈ tree.blocks) :
    (tree.add b prev nProof fresh found).IsAncestor a c ↔ tree.IsAncestor a c := by
  have same : ∀ x, tree.IsAncestor x c →
      (tree.add b prev nProof fresh found).pprev x = tree.pprev x :=
    fun x ancestor => add_pprev (ancestor.mem old)
  refine ⟨fun ancestor => ?_, fun ancestor => DogeCash.IsAncestor.congr ancestor same⟩
  have stays : a ∈ tree.blocks ∧ tree.IsAncestor a c := by
    refine DogeCash.IsAncestor.induct (fun x => x ∈ tree.blocks ∧ tree.IsAncestor x c) ancestor
      ⟨old, isAncestor_refl c⟩ fun child above link lower => ?_
    have before : tree.pprev child = some above := (add_pprev lower.1).symm.trans link
    exact ⟨(tree.known child above before).2, (isAncestor_of_pprev before).trans lower.2⟩
  exact stays.2

theorem add_chainTx (nTx : Ptr → ℕ) (old : c ∈ tree.blocks) :
    (tree.add b prev nProof fresh found).chainTx nTx c = tree.chainTx nTx c := by
  have height : (tree.add b prev nProof fresh found).nHeight c = tree.nHeight c :=
    update_of_ne (ne_of_mem_of_not_mem old fresh) _ _
  have same : DogeCash.lineage (tree.add b prev nProof fresh found).pprev (tree.nHeight c) c =
      DogeCash.lineage tree.pprev (tree.nHeight c) c :=
    lineage_congr (fun x ancestor => add_pprev (IsAncestor.mem ancestor old)) _
  rw [chainTx, lineage, height, same]
  rfl

end Add

end BlockTree

end DogeCash
