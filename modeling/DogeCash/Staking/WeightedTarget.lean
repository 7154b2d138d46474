import DogeCash.Primitives.BaseUint
import DogeCash.Staking.Kernel

/-! # The weighted target of a stake

`CheckStakeKernelHash` multiplies the target by the value that is staked, in units of a hundred,
and compares the hash with the product. The product is a `uint256` and wraps around without a
sign of it: near the limit of the difficulty a stake of a few coins is enough. Below that the
comparison is that of the unbounded product, and a larger stake never does worse.
-/

namespace DogeCash

open ChainParams (ofNetwork)

/-- `CChainParams::ProofOfStakeLimit`, the same on all networks. -/
def proofOfStakeLimit (fV2 : Bool) : UInt256 :=
  if fV2 then (~~~0 : UInt256) >>> 20 else (~~~0 : UInt256) >>> 24

theorem nMaxMoneyOut_ofNetwork (network : Network) :
    (ofNetwork network).nMaxMoneyOut = 21000000 * COIN := by
  cases network with
  | main | testnet | regtest => rfl

namespace StakeIndex

/-- The comparison of `CheckStakeKernelHash`. -/
def meetsTarget (hashProofOfStake : UInt256) (nBits : UInt32) (nValueIn : Int) : Bool :=
  hashProofOfStake < kernelTarget nBits nValueIn

def decodedTarget (nBits : UInt32) : Int := (UInt256.setCompact nBits).toNat

theorem kernelTarget_eq (nBits : UInt32) (nValueIn : Int) :
    (UInt256.divAssign (BitVec.ofInt 256 (nValueIn % 2 ^ 64)) 100).map
        (UInt256.mulAssign (UInt256.setCompact nBits)) =
      some (kernelTarget nBits nValueIn) := by
  rw [UInt256.divAssign_eq (by decide), Option.map_some, UInt256.mulAssign_eq]
  rfl

theorem checkStakeKernelHash_eq (index : StakeIndex) (tip pindexPrev : UInt256) (nBits : UInt32)
    (stake : CDOGECStake) (nTimeTx : UInt32) {hashProofOfStake : UInt256}
    (hashed : index.getHashProofOfStake tip pindexPrev stake nTimeTx = some hashProofOfStake) :
    (index.checkStakeKernelHash tip pindexPrev nBits stake nTimeTx).1 =
      require (meetsTarget hashProofOfStake nBits stake.getValue) .rejected := by
  rw [checkStakeKernelHash, hashed]
  simp only [meetsTarget, require, decide_eq_true_eq]

variable {network : Network} {nBits : UInt32} {hash : UInt256} {value : Int}

theorem toNat_kernelTarget (least : 0 ≤ value)
    (most : value ≤ (ofNetwork network).nMaxMoneyOut) :
    ((kernelTarget nBits value).toNat : Int) = decodedTarget nBits * (value / 100) % 2 ^ 256 := by
  rw [nMaxMoneyOut_ofNetwork, COIN] at most
  obtain ⟨n, rfl⟩ := Int.eq_ofNat_of_zero_le least
  have word : BitVec.ofInt 256 ((n : Int) % 2 ^ 64) = BitVec.ofNat 256 n := by
    rw [Int.emod_eq_of_lt (by omega) (by omega), BitVec.ofInt_natCast]
  have weight : (BitVec.ofNat 256 n / 100).toNat = n / 100 := by
    rw [BitVec.toNat_udiv, BitVec.toNat_ofNat, Nat.mod_eq_of_lt (by omega)]
    rfl
  rw [kernelTarget, word, BitVec.toNat_mul, weight, decodedTarget]
  norm_cast

theorem meetsTarget_iff (least : 0 ≤ value)
    (most : value ≤ (ofNetwork network).nMaxMoneyOut) :
    meetsTarget hash nBits value = true ↔
      (hash.toNat : Int) < decodedTarget nBits * (value / 100) % 2 ^ 256 := by
  rw [← toNat_kernelTarget least most, meetsTarget, decide_eq_true_eq, BitVec.lt_def]
  norm_cast

theorem decodedTarget_nonneg (nBits : UInt32) : 0 ≤ decodedTarget nBits := Int.natCast_nonneg _

theorem decodedTarget_lt (nBits : UInt32) : decodedTarget nBits < 2 ^ 256 := by
  have bound := (UInt256.setCompact nBits).isLt
  rw [decodedTarget]
  norm_cast

theorem meetsTarget_exact_iff (least : 0 ≤ value)
    (most : value ≤ (ofNetwork network).nMaxMoneyOut) :
    (∀ hash, meetsTarget hash nBits value = true ↔
        (hash.toNat : Int) < decodedTarget nBits * (value / 100)) ↔
      decodedTarget nBits * (value / 100) < 2 ^ 256 := by
  have positive : 0 ≤ decodedTarget nBits * (value / 100) :=
    Int.mul_nonneg (decodedTarget_nonneg nBits) (by omega)
  constructor
  · intro exact
    by_contra wraps
    -- The greatest hash is below the unbounded product, and below no number of 256 bits.
    have greatest : ((~~~0 : UInt256).toNat : Int) = 2 ^ 256 - 1 := by decide
    have accepted := (exact (~~~0)).mpr (by rw [greatest]; omega)
    rw [meetsTarget_iff least most, greatest] at accepted
    omega
  · intro fits hash
    rw [meetsTarget_iff least most, Int.emod_eq_of_lt positive fits]

theorem meetsTarget_mono_iff :
    (∀ hash v1 v2, 0 ≤ v1 → v1 ≤ v2 → v2 ≤ (ofNetwork network).nMaxMoneyOut →
        meetsTarget hash nBits v1 = true → meetsTarget hash nBits v2 = true) ↔
      decodedTarget nBits * ((ofNetwork network).nMaxMoneyOut / 100) < 2 ^ 256 := by
  have nonneg := decodedTarget_nonneg nBits
  set T := decodedTarget nBits with target
  set W := (ofNetwork network).nMaxMoneyOut / 100 with weight
  constructor
  · intro mono
    by_contra wraps
    -- The first weight for which the product wraps around does worse than the one before.
    have positive : 0 < T := by
      rcases Int.lt_or_eq_of_le nonneg with more | zero
      · exact more
      · rw [← zero] at wraps
        omega
    set k := (2 ^ 256 - 1) / T with last
    have kNonneg : 0 ≤ k := Int.ediv_nonneg (by decide) nonneg
    have fits : T * k ≤ 2 ^ 256 - 1 := Int.mul_ediv_self_le (Int.ne_of_gt positive)
    have exceeds : 2 ^ 256 - 1 < T * (k + 1) := by
      have := Int.lt_ediv_add_one_mul_self (2 ^ 256 - 1) positive
      rwa [Int.mul_comm]
    have below : k + 1 ≤ W := by
      by_contra beyond
      have := Int.mul_le_mul_of_nonneg_left (show W ≤ k by omega) nonneg
      omega
    have expand : T * (k + 1) = T * k + T := by ring
    have small := decodedTarget_lt nBits
    set hash : UInt256 := BitVec.ofNat 256 (T * (k + 1) - 2 ^ 256).toNat
    have hashIs : (hash.toNat : Int) = T * (k + 1) - 2 ^ 256 := by
      rw [BitVec.toNat_ofNat, Nat.mod_eq_of_lt (by omega), Int.toNat_of_nonneg (by omega)]
    have most : 100 * (k + 1) ≤ (ofNetwork network).nMaxMoneyOut := by omega
    have accepted : meetsTarget hash nBits (100 * k) = true := by
      rw [meetsTarget_iff (by omega) (Int.le_trans (by omega) most), hashIs,
        Int.mul_ediv_cancel_left _ (by decide), ← target]
      omega
    have still := mono hash (100 * k) (100 * (k + 1)) (by omega) (by omega) most accepted
    rw [meetsTarget_iff (by omega) most, hashIs, Int.mul_ediv_cancel_left _ (by decide),
      ← target] at still
    omega
  · intro fits hash v1 v2 least le most accepted
    have ordered : T * (v1 / 100) ≤ T * (v2 / 100) :=
      Int.mul_le_mul_of_nonneg_left (Int.ediv_le_ediv (by decide) le) nonneg
    have bounded : T * (v2 / 100) ≤ T * W :=
      Int.mul_le_mul_of_nonneg_left (Int.ediv_le_ediv (by decide) most) nonneg
    have positive : 0 ≤ T * (v1 / 100) := Int.mul_nonneg nonneg (by omega)
    rw [meetsTarget_iff least (Int.le_trans le most), ← target] at accepted
    rw [meetsTarget_iff (Int.le_trans least le) most, ← target]
    omega

/-- **The weighted target is exact where it does not wrap around.** The comparison with the
weight of a value is that of the unbounded product if and only if the product is below `2 ^ 256`;
and a larger stake never does worse, over all values up to `MaxMoneyOut`, if and only if the
product is for that value. -/
theorem stake_comparison_iff_fits (network : Network) (nBits : UInt32) :
    (∀ value, 0 ≤ value → value ≤ (ofNetwork network).nMaxMoneyOut →
      ((∀ hash, meetsTarget hash nBits value = true ↔
          (hash.toNat : Int) < decodedTarget nBits * (value / 100)) ↔
        decodedTarget nBits * (value / 100) < 2 ^ 256)) ∧
    ((∀ hash v1 v2, 0 ≤ v1 → v1 ≤ v2 → v2 ≤ (ofNetwork network).nMaxMoneyOut →
        meetsTarget hash nBits v1 = true → meetsTarget hash nBits v2 = true) ↔
      decodedTarget nBits * ((ofNetwork network).nMaxMoneyOut / 100) < 2 ^ 256) :=
  ⟨fun _ least most => meetsTarget_exact_iff least most, meetsTarget_mono_iff⟩

/-- The target of the genesis block. -/
theorem stake_comparison_iff_fits_genesis :
    (∀ value, 0 ≤ value → value ≤ (ofNetwork .main).nMaxMoneyOut →
      ((∀ hash, meetsTarget hash 0x1e0ffff0 value = true ↔
          (hash.toNat : Int) < decodedTarget 0x1e0ffff0 * (value / 100)) ↔
        decodedTarget 0x1e0ffff0 * (value / 100) < 2 ^ 256)) ∧
    ((∀ hash v1 v2, 0 ≤ v1 → v1 ≤ v2 → v2 ≤ (ofNetwork .main).nMaxMoneyOut →
        meetsTarget hash 0x1e0ffff0 v1 = true → meetsTarget hash 0x1e0ffff0 v2 = true) ↔
      decodedTarget 0x1e0ffff0 * ((ofNetwork .main).nMaxMoneyOut / 100) < 2 ^ 256) :=
  stake_comparison_iff_fits .main 0x1e0ffff0

/-- At the target `2 ^ 231`, within the limit of both phases, a stake of 33.5544320 coins makes
the product zero: it meets the target with no hash, and a stake of a hundred units does. -/
theorem larger_stake_does_worse :
    ¬∀ fV2 (nBits : UInt32), UInt256.setCompact nBits ≤ proofOfStakeLimit fV2 →
      ∀ hash v1 v2, 0 ≤ v1 → v1 ≤ v2 → v2 ≤ (ofNetwork .main).nMaxMoneyOut →
        meetsTarget hash nBits v1 = true → meetsTarget hash nBits v2 = true := by
  intro mono
  have still := mono false 0x1e008000 (by decide) 0 100 3355443200 (by decide) (by decide)
    (by decide) (by decide)
  exact absurd still (by decide)

end StakeIndex

end DogeCash
