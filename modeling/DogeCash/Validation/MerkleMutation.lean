import DogeCash.Validation.MerkleRoot

/-! # The mutation check of the merkle root

A missing sibling is replaced by a copy, so two lists of transactions can have the same merkle
root. `CheckBlock` therefore rejects a list that `ComputeMerkleRoot` reports as mutated, and
with one root at most one list is left. What is assumed of the hash of two nodes is that the
pairs that are hashed for the two lists do not collide and that no transaction id is such a
hash.
-/

namespace DogeCash

open MerkleTree

/-- Of the hashes that are computed for two lists no two of different pairs are the same, and
none is a leaf. -/
structure CollisionFree (hash : UInt256 → UInt256 → UInt256) (leaves others : List UInt256) :
    Prop where
  injects : Injects hash (pairs hash leaves) (pairs hash others)
  avoids : Avoids hash leaves (pairs hash others)
  avoidsOther : Avoids hash others (pairs hash leaves)

/-- The merkle roots of a node are those of `ComputeMerkleRoot` with a hash of two nodes. -/
def Node.ComputesMerkleRoot (node : Node) (hash : UInt256 → UInt256 → UInt256) : Prop :=
  ∀ ids, ids.length ≤ 2 ^ 31 → computeMerkleRoot hash ids = some (node.blockMerkleRoot ids)

variable {hash : UInt256 → UInt256 → UInt256} {leaves others : List UInt256}

theorem exists_computeMerkleRoot (hash : UInt256 → UInt256 → UInt256) (leaves : List UInt256)
    (bounded : leaves.length ≤ 2 ^ 31) : ∃ result, computeMerkleRoot hash leaves = some result := by
  by_cases filled : leaves = []
  · exact ⟨_, if_pos filled⟩
  · obtain ⟨mutated, result, -⟩ := merkleComputation_eq hash filled bounded
    exact ⟨_, result⟩

theorem eq_of_computeMerkleRoot (filled : leaves ≠ []) (filledOther : others ≠ [])
    (bounded : leaves.length ≤ 2 ^ 31) (boundedOther : others.length ≤ 2 ^ 31)
    (free : CollisionFree hash leaves others) {top : UInt256}
    (computed : computeMerkleRoot hash leaves = some (top, false))
    (computedOther : computeMerkleRoot hash others = some (top, false)) : leaves = others := by
  obtain ⟨mutated, result, repeats⟩ := merkleComputation_eq hash filled bounded
  obtain ⟨mutatedOther, resultOther, repeatsOther⟩ :=
    merkleComputation_eq hash filledOther boundedOther
  obtain ⟨rootEq, flag⟩ := Prod.mk.inj (Option.some.inj (result.symm.trans computed))
  obtain ⟨rootEqOther, flagOther⟩ :=
    Prod.mk.inj (Option.some.inj (resultOther.symm.trans computedOther))
  refine eq_of_root_eq filled filledOther free.injects free.avoids free.avoidsOther
    (rootEq.trans rootEqOther.symm) ?_ ?_
  · intro repeated
    exact Bool.false_ne_true (flag.symm.trans (repeats.mpr repeated))
  · intro repeated
    exact Bool.false_ne_true (flagOther.symm.trans (repeatsOther.mpr repeated))

theorem Node.computeMerkleRoot_of_checkMerkleRoot {node : Node} {block : CBlock}
    (computes : node.ComputesMerkleRoot hash) (bounded : block.vtx.length ≤ 2 ^ 31)
    (passed : node.checkMerkleRoot block = .ok ()) :
    computeMerkleRoot hash (block.vtx.map CTransaction.hash) =
      some (block.hashMerkleRoot, false) := by
  obtain ⟨sameRoot, passed⟩ := require_bind_eq_ok.mp passed
  have unmutated := require_eq_ok.mp passed
  rw [computes _ (by rwa [List.length_map]), Option.some_inj]
  refine Prod.ext ?_ ?_
  · exact (beq_iff_eq.mp sameRoot).symm
  · simpa using unmutated

theorem eq_of_map_eq {txs others : List CTransaction}
    (ids : txs.map CTransaction.hash = others.map CTransaction.hash)
    (determined : ∀ tx ∈ txs, ∀ other ∈ others, tx.hash = other.hash → tx = other) :
    txs = others := by
  have sameLength : txs.length = others.length := by
    simpa using congrArg List.length ids
  refine List.ext_getElem sameLength ?_
  intro i inside insideOther
  refine determined _ (List.getElem_mem inside) _ (List.getElem_mem insideOther) ?_
  have same := List.getElem_of_eq ids (by rwa [List.length_map])
  rwa [List.getElem_map, List.getElem_map] at same

/-- **Merkle mutation check.** For up to 2^31 leaves `ComputeMerkleRoot` returns a root, two
lists with one root that it reports as not mutated are equal, and so are the transactions of
two blocks with one merkle root that pass the merkle checks, in whatever state the node was. -/
theorem merkleRoot_unique (filled : leaves ≠ []) (filledOther : others ≠ [])
    (bounded : leaves.length ≤ 2 ^ 31) (boundedOther : others.length ≤ 2 ^ 31)
    (free : CollisionFree hash leaves others) :
    (∃ top mutated, computeMerkleRoot hash leaves = some (top, mutated)) ∧
    (∀ top, computeMerkleRoot hash leaves = some (top, false) →
      computeMerkleRoot hash others = some (top, false) → leaves = others) ∧
    ∀ (node otherNode : Node) (block other : CBlock), node.ComputesMerkleRoot hash →
      otherNode.ComputesMerkleRoot hash → block.vtx.map CTransaction.hash = leaves →
      other.vtx.map CTransaction.hash = others → block.hashMerkleRoot = other.hashMerkleRoot →
      node.checkMerkleRoot block = .ok () → otherNode.checkMerkleRoot other = .ok () →
        leaves = others ∧
          ((∀ tx ∈ block.vtx, ∀ tx' ∈ other.vtx, tx.hash = tx'.hash → tx = tx') →
            block.vtx = other.vtx) := by
  refine ⟨?_, ?_, ?_⟩
  · obtain ⟨⟨top, mutated⟩, result⟩ := exists_computeMerkleRoot hash leaves bounded
    exact ⟨top, mutated, result⟩
  · intro top
    exact eq_of_computeMerkleRoot filled filledOther bounded boundedOther free
  · rintro node otherNode block other computes computesOther rfl rfl sameRoot passed passedOther
    rw [List.length_map] at bounded boundedOther
    have computed := Node.computeMerkleRoot_of_checkMerkleRoot computes bounded passed
    have computedOther :=
      Node.computeMerkleRoot_of_checkMerkleRoot computesOther boundedOther passedOther
    rw [← sameRoot] at computedOther
    have ids := eq_of_computeMerkleRoot filled filledOther (by rwa [List.length_map])
      (by rwa [List.length_map]) free computed computedOther
    exact ⟨ids, eq_of_map_eq ids⟩

/-! ## A repeated transaction -/

def sampleNodeHash (left right : UInt256) : UInt256 := 3 * left + 5 * right + 7

def merkleNode : Node :=
  { Node.sample .main with
    blockMerkleRoot := fun ids => (computeMerkleRoot sampleNodeHash ids).getD default }

theorem merkleNode_computes : merkleNode.ComputesMerkleRoot sampleNodeHash := by
  intro ids bounded
  obtain ⟨result, computed⟩ := exists_computeMerkleRoot sampleNodeHash ids bounded
  change _ = some ((computeMerkleRoot sampleNodeHash ids).getD default)
  rw [computed, Option.getD_some]

def merkleBlock (ids : List UInt256) : CBlock where
  hash := 2
  hashPrevBlock := 149
  hashMerkleRoot := 222
  nTime := 1600000060
  nBits := 0
  vtx := ids.map fun id => { hash := id, nVersion := 1, vin := [], vout := [], nLockTime := 0 }

/-- Three transactions pass, and the same with the last one twice have the same root but do
not. -/
theorem merkleRoot_unique_sample :
    computeMerkleRoot sampleNodeHash [1, 2, 3] = some (222, false) ∧
    (computeMerkleRoot sampleNodeHash [1, 2, 3, 3]).map Prod.fst = some 222 ∧
    merkleNode.checkMerkleRoot (merkleBlock [1, 2, 3]) = .ok () ∧
    merkleNode.checkMerkleRoot (merkleBlock [1, 2, 3, 3]) ≠ .ok () := by
  have free : CollisionFree sampleNodeHash [1, 2, 3] [1, 2, 3, 3] :=
    ⟨by decide, by decide, by decide⟩
  obtain ⟨-, -, blocks⟩ := merkleRoot_unique (by decide) (by decide) (by decide) (by decide) free
  have passed : merkleNode.checkMerkleRoot (merkleBlock [1, 2, 3]) = .ok () := by decide
  refine ⟨by decide, by decide, passed, ?_⟩
  intro passedOther
  obtain ⟨equal, -⟩ := blocks merkleNode merkleNode (merkleBlock [1, 2, 3])
    (merkleBlock [1, 2, 3, 3]) merkleNode_computes merkleNode_computes rfl rfl rfl passed
    passedOther
  exact absurd equal (by decide)

end DogeCash
