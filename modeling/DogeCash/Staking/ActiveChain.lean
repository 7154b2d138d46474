import DogeCash.Staking.Kernel

/-! # Proofs of stake on two nodes

Two nodes with the same blocks and transactions but different active chains. They come to
the same verdict on a block, with the same hash, exactly if they read the same of their
active chains: whether the origin of the stake is in it, and the modifier above it
(`checkProofOfStake_eq_iff`).
-/

namespace DogeCash.StakeIndex

variable {index : StakeIndex} {tip first second : UInt256} {block : CBlock} {stake : CDOGECStake}
  {blockFrom : UInt256}

/-- The modifier that a node finds for a block, if the origin of the stake is in its active
chain. -/
def seenModifier (index : StakeIndex) (tip pindexPrev blockFrom : UInt256) :
    Option KernelModifier :=
  if index.contains tip blockFrom then index.kernelModifier tip pindexPrev blockFrom else none

/-- Two active chains give the same to read for a block. A stake that cannot be set up, that
has no indexed origin or that is too young is rejected whatever they are. -/
def Agree (index : StakeIndex) (first second : UInt256) (block : CBlock) : Prop :=
  ∀ stake blockFrom, index.initStakeInput block = .ok stake →
    index.originOf stake = some blockFrom →
    if index.isUnchecked block then index.contains first blockFrom = index.contains second blockFrom
    else
      index.isMature block blockFrom = true →
        index.seenModifier first block.hashPrevBlock blockFrom =
          index.seenModifier second block.hashPrevBlock blockFrom

/-- What the check of the kernel returns for the modifier that was found. -/
def verdict (index : StakeIndex) (block : CBlock) (stake : CDOGECStake) (blockFrom : UInt256) :
    Option KernelModifier → Except KernelFailure Unit × Option UInt256
  | none => (.error .rejected, none)
  | some modifier =>
    let hashProofOfStake := index.hashKernel modifier (index.nTime blockFrom)
      ⟨stake.txFrom.hash, stake.nPosition⟩ block.nTime
    (if hashProofOfStake < kernelTarget block.nBits stake.getValue then .ok ()
      else .error .rejected, some hashProofOfStake)

theorem getIndexFrom_of_originOf (origin : index.originOf stake = some blockFrom) :
    index.getIndexFrom tip stake =
      if index.contains tip blockFrom then some blockFrom else none := by
  rw [getIndexFrom, origin]
  rfl

section

variable (set : index.initStakeInput block = .ok stake)
include set

theorem checkProofOfStake_of_noOrigin (origin : index.originOf stake = none) :
    index.checkProofOfStake tip block = (.error .rejected, none) := by
  have missing : index.getIndexFrom tip stake = none := by
    rw [getIndexFrom, origin]
    rfl
  simp only [checkProofOfStake, set, missing]

section

variable (origin : index.originOf stake = some blockFrom)
include origin

theorem checkProofOfStake_of_unchecked (early : index.isUnchecked block = true) :
    index.checkProofOfStake tip block =
      if index.contains tip blockFrom then (.ok (), none) else (.error .rejected, none) := by
  cases inside : index.contains tip blockFrom with
  | true =>
    simp [checkProofOfStake, set, getIndexFrom_of_originOf origin, inside, early]
  | false =>
    simp [checkProofOfStake, set, getIndexFrom_of_originOf origin, inside]

theorem checkProofOfStake_of_immature (late : index.isUnchecked block = false)
    (young : index.isMature block blockFrom = false) :
    index.checkProofOfStake tip block = (.error .rejected, none) := by
  cases inside : index.contains tip blockFrom with
  | true =>
    simp [checkProofOfStake, set, getIndexFrom_of_originOf origin, inside, late, young]
  | false =>
    simp [checkProofOfStake, set, getIndexFrom_of_originOf origin, inside]

theorem checkProofOfStake_of_mature (late : index.isUnchecked block = false)
    (mature : index.isMature block blockFrom = true) :
    index.checkProofOfStake tip block =
      index.verdict block stake blockFrom
        (index.seenModifier tip block.hashPrevBlock blockFrom) := by
  cases inside : index.contains tip blockFrom with
  | true =>
    simp only [checkProofOfStake, set, checkStakeKernelHash, getHashProofOfStake,
      getIndexFrom_of_originOf origin, seenModifier, inside, ↓reduceIte, late,
      Bool.false_eq_true, mature, Bool.not_true]
    cases index.kernelModifier tip block.hashPrevBlock blockFrom with
    | none => rfl
    | some modifier => rfl
  | false =>
    simp [checkProofOfStake, set, getIndexFrom_of_originOf origin, seenModifier, inside, verdict]

end

end

/-- Kernel hashes of one output at one time differ if the modifiers do. -/
def CollisionFree (index : StakeIndex) : Prop :=
  ∀ modifier other time out nTime, index.hashKernel (.v1 modifier) time out nTime =
    index.hashKernel (.v1 other) time out nTime → modifier = other

variable {pindexPrev : UInt256}

theorem seenModifier_cases {modifier other : KernelModifier}
    (found : index.seenModifier first pindexPrev blockFrom = some modifier)
    (otherFound : index.seenModifier second pindexPrev blockFrom = some other) :
    (∃ x y, modifier = .v1 x ∧ other = .v1 y) ∨ modifier = other := by
  unfold seenModifier kernelModifier at found otherFound
  split_ifs at found otherFound with inFirst version inSecond
  · obtain ⟨x, -, rfl⟩ := Option.map_eq_some_iff.mp found
    obtain ⟨y, -, rfl⟩ := Option.map_eq_some_iff.mp otherFound
    exact .inl ⟨x, y, rfl, rfl⟩
  · cases found
    cases otherFound
    exact .inr rfl

theorem seenModifier_eq_of_verdict (collisionFree : index.CollisionFree)
    (same : index.verdict block stake blockFrom (index.seenModifier first pindexPrev blockFrom) =
      index.verdict block stake blockFrom (index.seenModifier second pindexPrev blockFrom)) :
    index.seenModifier first pindexPrev blockFrom =
      index.seenModifier second pindexPrev blockFrom := by
  have hashes := congrArg Prod.snd same
  cases found : index.seenModifier first pindexPrev blockFrom with
  | none =>
    cases otherFound : index.seenModifier second pindexPrev blockFrom with
    | none => rfl
    | some other =>
      rw [found, otherFound] at hashes
      cases hashes
  | some modifier =>
    cases otherFound : index.seenModifier second pindexPrev blockFrom with
    | none =>
      rw [found, otherFound] at hashes
      cases hashes
    | some other =>
      rw [found, otherFound] at hashes
      rcases seenModifier_cases found otherFound with ⟨x, y, rfl, rfl⟩ | rfl
      · rw [collisionFree x y _ _ _ (Option.some.inj hashes)]
      · rfl

/-- **When a proof of stake does not depend on the active chain.** Two nodes with the same
blocks and transactions judge a block alike exactly if they read the same of their active
chains. -/
theorem checkProofOfStake_eq_iff (collisionFree : index.CollisionFree) (first second : UInt256)
    (block : CBlock) :
    index.checkProofOfStake first block = index.checkProofOfStake second block ↔
      index.Agree first second block := by
  unfold Agree
  cases set : index.initStakeInput block with
  | error failure =>
    have same : index.checkProofOfStake first block = index.checkProofOfStake second block := by
      simp only [checkProofOfStake, set]
    apply iff_of_true same
    intro stake blockFrom impossible
    cases impossible
  | ok stake =>
    cases origin : index.originOf stake with
    | none =>
      rw [checkProofOfStake_of_noOrigin set origin, checkProofOfStake_of_noOrigin set origin]
      apply iff_of_true rfl
      intro other blockFrom same found
      cases same
      rw [origin] at found
      cases found
    | some blockFrom =>
      have only : ∀ property : UInt256 → Prop,
          (∀ other block, Except.ok stake = (.ok other : Except KernelFailure CDOGECStake) →
            index.originOf other = some block → property block) ↔ property blockFrom := by
        intro property
        constructor
        · intro every
          exact every stake blockFrom rfl origin
        · intro holds other block same found
          cases same
          rw [origin] at found
          cases found
          exact holds
      rw [only fun blockFrom => if index.isUnchecked block then
          index.contains first blockFrom = index.contains second blockFrom
        else index.isMature block blockFrom = true →
          index.seenModifier first block.hashPrevBlock blockFrom =
            index.seenModifier second block.hashPrevBlock blockFrom]
      cases early : index.isUnchecked block with
      | true =>
        rw [checkProofOfStake_of_unchecked set origin early,
          checkProofOfStake_of_unchecked set origin early, if_pos rfl]
        cases index.contains first blockFrom with
        | true => cases index.contains second blockFrom <;> simp
        | false => cases index.contains second blockFrom <;> simp
      | false =>
        cases mature : index.isMature block blockFrom with
        | false =>
          rw [checkProofOfStake_of_immature set origin early mature,
            checkProofOfStake_of_immature set origin early mature]
          simp
        | true =>
          rw [checkProofOfStake_of_mature set origin early mature,
            checkProofOfStake_of_mature set origin early mature]
          constructor
          · intro same _
            exact seenModifier_eq_of_verdict collisionFree same
          · intro same
            rw [same rfl]

/-! ## A fork below the origin of a stake -/

def forkedTree : BlockTree UInt256 :=
  (((BlockTree.genesis 10 1).add 11 10 1 (by decide) (by decide)).add 12 11 1 (by decide)
    (by decide)).add 21 10 1 (by decide) (by decide)

/-- The regression test network with these blocks, where transaction 7 is in block 11. -/
def sampleIndex : StakeIndex where
  params := .regtest
  script := ⟨CheckInputs.sampleCrypto, fun _ _ _ _ _ => true⟩
  tree := forkedTree
  nTime _ := 1600000000
  nStakeModifier _ := 0
  generatedStakeModifier _ := false
  nStakeModifierV2 _ := 0
  getTransaction txid :=
    if txid = 7 then some (⟨7, 1, [], [.of (100 * COIN) [0x51]], 0⟩, 11) else none
  hashKernel modifier _ _ _ :=
    match modifier with
    | .v1 nStakeModifier => BitVec.ofNat 256 nStakeModifier.toNat
    | .v2 nStakeModifierV2 => nStakeModifierV2

theorem collisionFree_sampleIndex : sampleIndex.CollisionFree := by
  intro modifier other time out nTime same
  have values := congrArg BitVec.toNat same
  simp only [sampleIndex, BitVec.toNat_ofNat] at values
  have small := modifier.toNat_lt
  have otherSmall := other.toNat_lt
  apply UInt64.toNat_inj.mp
  omega

/-- A block after block 12 that stakes the output of transaction 7. -/
def stakingBlock : CBlock where
  hash := 13
  hashPrevBlock := 12
  hashMerkleRoot := 0
  nTime := 1600000500
  nBits := 0x207fffff
  vtx :=
    [⟨1, 1, [⟨.null, [0x51, 0x51], 0xffffffff⟩], [.of 0 []], 0⟩,
      ⟨2, 1, [⟨⟨7, 0⟩, [], 0xffffffff⟩], [.of 0 [], .of (100 * COIN) [0x51]], 0⟩]

/-- Nodes with the active tips 11 and 12 judge the block alike. -/
theorem checkProofOfStake_eq_sample :
    sampleIndex.checkProofOfStake 11 stakingBlock =
      sampleIndex.checkProofOfStake 12 stakingBlock := by
  apply (checkProofOfStake_eq_iff collisionFree_sampleIndex 11 12 stakingBlock).mpr
  intro stake blockFrom same origin
  cases same
  cases origin
  intro _
  decide

/-- The block is accepted by a node on its own branch and rejected by a node on the other
one. -/
theorem checkProofOfStake_ne_sample :
    sampleIndex.tree.IsAncestor 11 stakingBlock.hashPrevBlock ∧
      (sampleIndex.checkProofOfStake 12 stakingBlock).1.isOk = true ∧
      (sampleIndex.checkProofOfStake 21 stakingBlock).1.isOk = false := by
  refine ⟨?_, ?_, ?_⟩
  · apply BlockTree.isAncestor_of_pprev
    decide
  · decide
  · decide

end DogeCash.StakeIndex
