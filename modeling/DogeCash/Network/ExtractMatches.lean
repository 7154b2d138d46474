import DogeCash.Network.PartialMerkleTree

/-! # What a light client extracts

`ExtractMatches` accepts a partial merkle tree if its bits and hashes are those of a pruned tree,
up to the bits that fill the last byte, and returns the root and the shown leaves of that tree.
What a node builds is therefore extracted again after it was sent, and whatever tree is sent
instead, if its root is that of a block, its matches are transaction ids of the block in their
order.
-/

namespace DogeCash.CPartialMerkleTree

open MerkleTree
open Nat (clog zero_mul)

variable {hash : UInt256 → UInt256 → UInt256} {tree : CPartialMerkleTree}

/-- The bits and the hashes are those of a pruned tree. -/
structure Holds (tree : CPartialMerkleTree) {height : ℕ} (pruned : Pruned UInt256 height) :
    Prop where
  fits : pruned.Fits tree.nTransactions.toNat 0
  bits : pruned.bits <+: tree.vBits
  hashes : tree.vHash = pruned.hashes

theorem clog_fits {count : ℕ} (bounded : count ≤ maxBlockSizeCurrent / 60) :
    count + 2 ^ clog 2 count ≤ 2 ^ 32 := by
  have limit : maxBlockSizeCurrent / 60 ≤ 2 ^ 16 := by decide
  have height : clog 2 count ≤ 16 := Nat.clog_le_of_le_pow (by omega)
  have power : 2 ^ clog 2 count ≤ 2 ^ 16 := Nat.pow_le_pow_right Nat.two_pos height
  omega

variable (hash) in
theorem extractMatches_of_holds (filled : 0 < tree.nTransactions.toNat)
    (bounded : tree.nTransactions.toNat ≤ maxBlockSizeCurrent / 60) (unfailed : tree.fBad = false)
    {height : ℕ} (heights : clog 2 tree.nTransactions.toNat = height)
    {pruned : Pruned UInt256 height} (holds : tree.Holds pruned)
    (padding : (pruned.bits.length + 7) / 8 = (tree.vBits.length + 7) / 8)
    (few : pruned.hashes.length ≤ tree.nTransactions.toNat) :
    tree.extractMatches hash = some (pruned.digest hash, pruned.shown, tree) := by
  obtain ⟨rest, bits⟩ := holds.bits
  have enough : tree.vHash.length ≤ tree.vBits.length := by
    rw [holds.hashes, ← bits, List.length_append]
    exact Nat.le_add_right_of_le pruned.length_hashes_le_bits
  have nonzero : tree.nTransactions ≠ 0 := by
    intro zero
    rw [zero] at filled
    exact Nat.lt_irrefl 0 filled
  subst heights
  have extracted := traverseAndExtract_of_drop hash filled pruned (clog_fits bounded) holds.fits
    ⟨0, 0, [], tree.fBad⟩ bits.symm (holds.hashes.trans (List.append_nil _).symm)
  have limit : maxBlockSizeCurrent / 60 ≤ 2 ^ 31 := by decide
  rw [extractMatches, if_neg nonzero, if_neg (Nat.not_lt.mpr bounded),
    if_neg (by rw [holds.hashes]; exact Nat.not_lt.mpr few), if_neg (Nat.not_lt.mpr enough),
    treeHeight_eq filled (by omega) rfl (Nat.zero_le _), Option.map_some, extracted]
  simp only [Nat.zero_add, List.nil_append, unfailed, Bool.false_eq_true, if_false, padding, ne_eq,
    not_true_eq_false, holds.hashes]
  have same : { tree with fBad := false } = tree := by rw [← unfailed]
  rw [← holds.hashes, same]

theorem holds_of_extractMatches (filled : 0 < tree.nTransactions.toNat) {height : ℕ}
    (heights : clog 2 tree.nTransactions.toNat = height) {root : UInt256}
    {matched : List UInt256} {after : CPartialMerkleTree}
    (extracted : tree.extractMatches hash = some (root, matched, after)) (succeeded : root ≠ 0) :
    ∃ pruned : Pruned UInt256 height,
      tree.Holds pruned ∧ root = pruned.digest hash ∧ matched = pruned.shown := by
  subst heights
  have failed : ∀ {other : List UInt256} {copy : CPartialMerkleTree},
      some ((0 : UInt256), other, copy) ≠ some (root, matched, after) := by
    intro other copy same
    exact succeeded (congrArg Prod.fst (Option.some.inj same)).symm
  unfold extractMatches at extracted
  split_ifs at extracted with none many hashes bits
  · exact absurd extracted failed
  · exact absurd extracted failed
  · exact absurd extracted failed
  · exact absurd extracted failed
  · have bounded := Nat.not_lt.mp many
    have limit : maxBlockSizeCurrent / 60 ≤ 2 ^ 31 := by decide
    rw [treeHeight_eq filled (by omega) rfl (Nat.zero_le _), Option.map_some] at extracted
    rcases result : traverseAndExtract hash tree (clog 2 tree.nTransactions.toNat) 0
      ⟨0, 0, [], tree.fBad⟩ with ⟨value, used⟩
    simp only [result] at extracted
    split_ifs at extracted with bad leftBits leftHashes
    · exact absurd extracted failed
    · exact absurd extracted failed
    · exact absurd extracted failed
    · obtain ⟨rfl, rest⟩ := Prod.mk.inj (Option.some.inj extracted)
      obtain ⟨rfl, -⟩ := Prod.mk.inj rest
      obtain ⟨-, pruned, fits, readBits, readHashes, digest, shown⟩ :=
        exists_pruned filled (clog_fits bounded) result (Bool.eq_false_iff.mpr bad)
      refine ⟨pruned, ⟨fits, ⟨_, readBits.symm⟩, ?_⟩, digest, shown⟩
      have all : used.nHashUsed = tree.vHash.length := not_not.mp leftHashes
      rw [all, List.drop_length, List.append_nil] at readHashes
      exact readHashes

theorem blockOf_whole {α : Type} (leaves : List α) :
    blockOf leaves (clog 2 leaves.length) 0 = leaves := by
  rw [blockOf, zero_mul, List.drop_zero]
  exact List.take_of_length_le (Nat.le_pow_clog Nat.one_lt_two _)

/-- **Sound.** The matches of any tree with the root of a list are ids of that list, in their
order. -/
theorem sublist_of_extractMatches {vTxid : List UInt256} (filled : vTxid ≠ [])
    (size : tree.nTransactions.toNat = vTxid.length) {matched : List UInt256}
    {after : CPartialMerkleTree}
    (injects : ∀ pruned : Pruned UInt256 (clog 2 vTxid.length), tree.Holds pruned →
      Injects hash (pairs hash vTxid) (pruned.hashed hash))
    (succeeded : root hash vTxid ≠ 0)
    (extracted : tree.extractMatches hash = some (root hash vTxid, matched, after)) :
    matched.Sublist vTxid := by
  have positive : 0 < vTxid.length := List.length_pos_iff.mpr filled
  obtain ⟨pruned, holds, digest, rfl⟩ := holds_of_extractMatches (by omega)
    (congrArg (clog 2) size) extracted succeeded
  have fits := holds.fits
  have free := injects pruned holds
  rw [size] at fits
  have whole := blockOf_whole vTxid
  have shows := pruned.shown_sublist hash fits (by rwa [zero_mul]) (by rwa [whole])
    (by rw [whole]; exact digest.symm)
  rwa [whole] at shows

variable (hash) in
/-- **Round trip.** What is built, sent and read is extracted with the root and the marked
ids. -/
theorem extractMatches_build {vTxid : List UInt256} {vMatch : List Bool} (filled : vTxid ≠ [])
    (bounded : vTxid.length ≤ maxBlockSizeCurrent / 60) (lengths : vMatch.length = vTxid.length) :
    ∃ tree, build hash vTxid vMatch = some tree ∧ ∀ suffix,
      unserialize (tree.serialize ++ suffix) = some (tree.padded, suffix) ∧
        tree.padded.extractMatches hash =
          some (root hash vTxid, Pruned.marked vTxid vMatch, tree.padded) := by
  have positive : 0 < vTxid.length := List.length_pos_iff.mpr filled
  have limit : maxBlockSizeCurrent / 60 ≤ 2 ^ 31 := by decide
  have size : (UInt32.ofNat vTxid.length).toNat = vTxid.length :=
    UInt32.toNat_ofNat_of_lt' (show vTxid.length < 2 ^ 32 by omega)
  let pruned := Pruned.prune hash vTxid vMatch (clog 2 vTxid.length) 0
  have within : 0 * 2 ^ clog 2 vTxid.length < vTxid.length := by rwa [zero_mul]
  have built := traverseAndBuild_eq hash size lengths
    (by rw [size]; exact clog_fits bounded) within [] [] false
  have height := treeHeight_eq (by rwa [size]) (by omega) (rfl : 0 + 32 = 32)
    (Nat.zero_le (clog 2 (UInt32.ofNat vTxid.length).toNat))
  rw [size] at height
  let tree : CPartialMerkleTree := ⟨UInt32.ofNat vTxid.length, pruned.bits, pruned.hashes, false⟩
  have whole := blockOf_whole vTxid
  have wholeMatch := blockOf_whole vMatch
  rw [lengths] at wholeMatch
  have fewHashes : pruned.hashes.length ≤ vTxid.length := by
    have few := Pruned.length_hashes_prune_le hash vMatch within
    rwa [whole] at few
  have fewBits : pruned.bits.length ≤ (clog 2 vTxid.length + 1) * vTxid.length := by
    have few := Pruned.length_bits_prune_le hash vMatch within
    rwa [whole] at few
  refine ⟨tree, ?_, fun suffix => ⟨?_, ?_⟩⟩
  · simp only [build, height, Option.map_some, built]
    rfl
  · -- At most 17 bits for each of at most 33333 ids fit a vector.
    have ids : maxBlockSizeCurrent / 60 = 33333 := by decide
    have high : clog 2 vTxid.length ≤ 16 := Nat.clog_le_of_le_pow (by omega)
    have bits : (clog 2 vTxid.length + 1) * vTxid.length ≤ 17 * 33333 :=
      Nat.mul_le_mul (by omega) (by omega)
    apply unserialize_serialize
    · exact le_trans fewHashes (by rw [maxSize]; omega)
    · change (pruned.bits.length + 7) / 8 ≤ _
      rw [maxSize]
      omega
  · have count : tree.padded.nTransactions.toNat = vTxid.length := size
    have holds : tree.padded.Holds pruned :=
      ⟨by rw [count]; exact Pruned.fits_prune _ _, List.prefix_append _ _, rfl⟩
    have padding : (pruned.bits.length + 7) / 8 = (tree.padded.vBits.length + 7) / 8 := by
      change _ = ((pruned.bits ++ List.replicate
        ((pruned.bits.length + 7) / 8 * 8 - pruned.bits.length) false).length + 7) / 8
      rw [List.length_append, List.length_replicate]
      omega
    have extracted := extractMatches_of_holds hash (by rwa [count]) (by rwa [count]) rfl
      (congrArg (clog 2) count) holds padding (by rwa [count])
    rw [extracted, Pruned.digest_prune within, Pruned.shown_prune lengths within, whole, wholeMatch]
    rfl

variable (hash) in
/-- Partial merkle trees round-trip and are sound. The copy of a tree that was built for a list of
ids gives the merkle root and the matched ids in their order. Any tree for as many transactions
with that root gives some of the ids in their order, if no pair that is hashed for the root
collides with one that is hashed in the extraction. A root of 0 would stand for a failure. -/
theorem partialMerkleTree_sound {vTxid : List UInt256} (filled : 1 ≤ vTxid.length)
    (bounded : vTxid.length ≤ maxBlockSizeCurrent / 60) :
    ∃ merkleRoot mutated, computeMerkleRoot hash vTxid = some (merkleRoot, mutated) ∧
      (∀ vMatch : List Bool, vMatch.length = vTxid.length →
        ∃ tree, build hash vTxid vMatch = some tree ∧ ∀ suffix,
          ∃ copy, unserialize (tree.serialize ++ suffix) = some (copy, suffix) ∧
            copy.extractMatches hash =
              some (merkleRoot, ((vTxid.zip vMatch).filter Prod.snd).map Prod.fst, copy)) ∧
      (merkleRoot ≠ 0 → ∀ tree : CPartialMerkleTree, tree.nTransactions.toNat = vTxid.length →
        (∀ pruned : Pruned UInt256 (clog 2 vTxid.length), tree.Holds pruned →
          Injects hash (pairs hash vTxid) (pruned.hashed hash)) →
        ∀ matched after, tree.extractMatches hash = some (merkleRoot, matched, after) →
          matched.Sublist vTxid) := by
  have nonempty : vTxid ≠ [] := List.length_pos_iff.mp filled
  have limit : maxBlockSizeCurrent / 60 ≤ 2 ^ 31 := by decide
  obtain ⟨mutated, computed, -⟩ := merkleComputation_eq hash nonempty (by omega)
  refine ⟨root hash vTxid, mutated, computed, ?_, ?_⟩
  · intro vMatch lengths
    obtain ⟨tree, built, received⟩ := extractMatches_build hash nonempty bounded lengths
    exact ⟨tree, built, fun suffix => ⟨tree.padded, received suffix⟩⟩
  · intro succeeded tree size injects matched after extracted
    exact sublist_of_extractMatches nonempty size injects succeeded extracted

/-- A tree for two ids, as someone could send it. -/
def sentTree : CPartialMerkleTree :=
  { nTransactions := 2
    vBits := [true, true, false, false, false, false, false, false]
    vHash := [1, 2]
    fBad := false }

theorem injects_sentTree (pruned : Pruned UInt256 1) (holds : sentTree.Holds pruned) :
    Injects sampleNodeHash (pairs sampleNodeHash [1, 2]) (pruned.hashed sampleNodeHash) := by
  cases pruned with
  | hidden root => exact nofun
  | only left => exact absurd holds.fits.1 (by decide)
  | both left right =>
    obtain ⟨shownLeft, first⟩ := left
    obtain ⟨shownRight, second⟩ := right
    obtain ⟨rfl, rest⟩ := List.cons.inj holds.hashes
    obtain ⟨rfl, -⟩ := List.cons.inj rest
    change Injects sampleNodeHash (pairs sampleNodeHash [1, 2]) [(1, 2)]
    decide

/-- Seven ids of which two are matched: the tree has hidden subtrees, and levels of odd width.
Two ids, and a tree that was sent for them. -/
theorem partialMerkleTree_sound_samples :
    (∃ tree copy merkleRoot,
      build sampleNodeHash [1, 2, 3, 4, 5, 6, 7] [false, true, false, false, false, false, true] =
        some tree ∧
      unserialize tree.serialize = some (copy, []) ∧
      copy.extractMatches sampleNodeHash = some (merkleRoot, [2, 7], copy)) ∧
    ∃ matched after, sentTree.extractMatches sampleNodeHash = some (20, matched, after) ∧
      matched.Sublist [1, 2] := by
  constructor
  · obtain ⟨merkleRoot, -, -, received, -⟩ := partialMerkleTree_sound sampleNodeHash
      (show 1 ≤ ([1, 2, 3, 4, 5, 6, 7] : List UInt256).length by decide) (by decide)
    obtain ⟨tree, built, copied⟩ := received [false, true, false, false, false, false, true] rfl
    obtain ⟨copy, copiedTree, extracted⟩ := copied []
    rw [List.append_nil] at copiedTree
    exact ⟨tree, copy, merkleRoot, built, copiedTree, extracted⟩
  · obtain ⟨merkleRoot, mutated, computed, -, sound⟩ := partialMerkleTree_sound sampleNodeHash
      (show 1 ≤ ([1, 2] : List UInt256).length by decide) (by decide)
    have twenty : computeMerkleRoot sampleNodeHash [1, 2] = some (20, false) := by decide
    obtain ⟨rfl, -⟩ := Prod.mk.inj (Option.some.inj (twenty.symm.trans computed))
    have extracted : sentTree.extractMatches sampleNodeHash = some (20, [1], sentTree) := by
      decide
    exact ⟨[1], sentTree, extracted, sound (by decide) sentTree rfl injects_sentTree _ _ extracted⟩

end DogeCash.CPartialMerkleTree
