import DogeCash.Zerocoin.WitnessScan

/-! # The witness of a coin

`GenerateAccumulatorWitness` starts from a checkpoint, goes on over the blocks up to a stop height
without the coin itself, and then asks for a number of mints. The scan counts them, but not where
they are asked for, so that no witness is built.
-/

namespace DogeCash

open List (range')
open Option (map_eq_some_iff)

/-- A node that also builds the witness of a coin. -/
structure CheckpointEnv extends WitnessEnv where
  /-- `BlockToPubcoinList` without the filter, by heights. Nothing where it or the read fails. -/
  unfiltered : ℕ → Option (List (CoinDenomination × Int))
  /-- Nothing where it throws. -/
  searchMintHeightOf : Int → Option Int
  /-- `PublicCoin::validate` -/
  validate : CoinDenomination × Int → Bool

namespace CheckpointEnv

open WitnessEnv CoinDenomination

variable (env : CheckpointEnv)

/-- `BlockToPubcoinList` on the block that is read from disk. -/
def blockToPubcoinList (nHeight : ℕ) (fFilterInvalid : Bool) :
    Option (List (CoinDenomination × Int)) :=
  if fFilterInvalid then env.chainActive[nHeight]?.bind WitnessBlock.pubcoins
  else env.unfiltered nHeight

/-- `Accumulator::increment` -/
def incremented (value bnValue : Int) : Int := env.powMod value bnValue env.accumulatorModulus

/-- The height at which `GenerateAccumulatorWitness` stops. -/
def heightStop (pindexCheckpoint : Option env.Index) : Int :=
  match pindexCheckpoint with
  | some pindex => pindex - 10
  | none => env.secondCheckpointDeep

/-- `AccumulatorWitness::VerifyWitness`, on accumulators of the denomination of the coin. -/
def verifyWitness (witness accumulator : Int) (coin : CoinDenomination × Int) :
    Except WitnessExit Bool :=
  if witness = 0 then .error (.runtimeError "Accumulator is not initialized")
  else if !env.validate coin then .error (.runtimeError "Coin is not valid")
  else .ok (env.incremented witness coin.2 == accumulator)

/-- The end of `GenerateAccumulatorWitness`, after the scan. -/
def finishGeneratedWitness (nAccStartHeight : Int) (coin : CoinDenomination × Int)
    (scanned : Except WitnessExit env.Scan) : Except WitnessExit (Option (Int × Int × Int)) :=
  match scanned with
  | .error .getPubcoin => .ok none
  | .error other => .error other
  | .ok scan => do
    let verified ← env.verifyWitness scan.added.witnessAccumulator scan.accumulator coin
    -- The scan counts the mints in a variable of its own.
    let nMintsAdded : Int := 0
    if !verified then return none
    if nMintsAdded < env.nRequiredAccumulation then return none
    let accumulated ← env.computeAccumulatedCoins nAccStartHeight coin.1
    return some (scan.accumulator, scan.added.witnessAccumulator, nMintsAdded + accumulated)

/-- `GenerateAccumulatorWitness` for a coin: the accumulator, the witness and the number of mints
with which it returns true, or nothing where it returns false. -/
def generateAccumulatorWitness (coin : CoinDenomination × Int) (accumulator : Int)
    (pindexCheckpoint : Option env.Index) (fuel : ℕ) :
    Option (Except WitnessExit (Option (Int × Int × Int))) :=
  if env.lockMethod then
    match env.searchMintHeightOf coin.2 with
    | none => some (.ok none)
    | some nHeightMintAdded =>
      match env.getAccumulatorValue (nextCheckpoint nHeightMintAdded) coin.1 with
      | .error exit => some (.error exit)
      | .ok (value, nHeightCheckpoint) =>
        let nAccStartHeight := nHeightMintAdded - nHeightMintAdded.tmod 10
        let bnAccValue := value.getD 0
        let accumulator :=
          if value.isNone then accumulator
          else if bnAccValue = 0 ∧ env.params.networkID = .regtest then env.accumulatorBase
          else bnAccValue
        let pindex := env.atHeight (wrapInt (nHeightCheckpoint - 10))
        (env.calculateAccumulatedBlocksForCoin (env.heightStop pindexCheckpoint)
          nHeightMintAdded pindex bnAccValue accumulator accumulator coin fuel).map
            (env.finishGeneratedWitness nAccStartHeight coin)
  else some (.ok none)

/-! ## What a witness holds -/

/-- The first block of which mints come into a checkpoint of the second version. -/
def windowStart : ℕ := (env.params.nBlockZerocoinV2.toNat + 9) / 10 * 10 - 20

/-- The mints of a block, with the filter of the checkpoint that takes them in. -/
def mintsOf (den : CoinDenomination) (pindex : ℕ) : List Int :=
  if (pindex : Int) < env.params.nZerocoinStartHeight then []
  else
    let listPubcoins := (env.blockToPubcoinList pindex
      (env.params.nBlockRecalculateAccumulators ≤ (pindex - pindex % 10 + 20 : ℕ))).getD []
    (listPubcoins.filter (·.1 == den)).map Prod.snd

/-- The mints of the blocks of the window from a height on. -/
def mintsFrom (den : CoinDenomination) (first last : ℕ) : List Int :=
  (range' first (last - first)).flatMap (env.mintsOf den)

/-- The mints of the blocks from the start of the window up to eleven blocks below a height. -/
def mints (nHeight : ℕ) (den : CoinDenomination) : List Int :=
  env.mintsFrom den env.windowStart (nHeight - 10)

def accumulated (coins : List Int) : Int := coins.foldl env.incremented env.accumulatorBase

variable {env}

/-- A witness that `GenerateAccumulatorWitness` builds for a coin holds the coins of the checkpoint
ten blocks above its stop height except the coin. -/
def BuildsWitness (env : CheckpointEnv) (coin : CoinDenomination × Int) (accumulator : Int)
    (pindexCheckpoint : Option env.Index) : Prop :=
  ∃ fuel value witness nMintsAdded coins,
    env.generateAccumulatorWitness coin accumulator pindexCheckpoint fuel =
      some (.ok (some (value, witness, nMintsAdded))) ∧
    (coin.2 :: coins).Perm (env.mints (env.heightStop pindexCheckpoint + 10).toNat coin.1) ∧
    witness = env.accumulated coins

theorem finishGeneratedWitness_ne_some (required : 0 < env.nRequiredAccumulation)
    (nAccStartHeight : Int) (coin : CoinDenomination × Int)
    (scanned : Except WitnessExit env.Scan) (found : Int × Int × Int) :
    env.finishGeneratedWitness nAccStartHeight coin scanned ≠ .ok (some found) := by
  intro finished
  unfold finishGeneratedWitness at finished
  split at finished
  · cases finished
  · cases finished
  · next scan =>
      obtain ⟨verified, -, finished⟩ := bind_eq_ok.mp finished
      -- Of a verified witness the count of mints is still zero.
      split at finished
      · cases finished
      · rw [if_pos required] at finished
        cases finished

/-- Where a mint is required, no call of `GenerateAccumulatorWitness` returns true. -/
theorem generateAccumulatorWitness_ne_some (required : 0 < env.nRequiredAccumulation)
    (coin : CoinDenomination × Int) (accumulator : Int) (pindexCheckpoint : Option env.Index)
    (fuel : ℕ) (found : Int × Int × Int) :
    env.generateAccumulatorWitness coin accumulator pindexCheckpoint fuel ≠
      some (.ok (some found)) := by
  intro built
  unfold generateAccumulatorWitness at built
  split at built
  · split at built
    · cases built
    · split at built
      · cases built
      · obtain ⟨scanned, -, finished⟩ := map_eq_some_iff.mp built
        exact finishGeneratedWitness_ne_some required _ coin scanned found finished
  · cases built

/-- A network with two mints of denomination one, which the checkpoint of block 50 holds: its
checksum is one more than the value of the accumulator. -/
def twoMints : CheckpointEnv where
  params := { ChainParams.regtest with nZerocoinStartHeight := 0, nBlockZerocoinV2 := 15 }
  nRequiredAccumulation := 1
  chainActive := (List.range 61).map fun nHeight =>
    ⟨if nHeight < 50 then 0 else 767 <<< 224,
      if mint nHeight = [] then [] else [.one], some (mint nHeight)⟩
  mapAccumulatorValues := stored
  readAccumulatorValue := stored
  mapCheckpoints := []
  lockMethod := true
  accumulatorBase := 2
  accumulatorModulus := 1009
  powMod base exponent modulus := base ^ exponent.toNat % modulus
  unfiltered nHeight := some (mint nHeight)
  searchMintHeightOf value := if value = 3 then some 32 else none
  validate _ := true
where
  mint (nHeight : ℕ) : List (CoinDenomination × Int) :=
    if nHeight = 32 then [(.one, 3)] else if nHeight = 33 then [(.one, 11)] else []
  stored (nChecksum : UInt32) : Option Int :=
    if nChecksum = 0 then none else some (nChecksum.toNat - 1)

end CheckpointEnv

end DogeCash
