import DogeCash.Foundation.FixedWidth
import DogeCash.Foundation.Fuel
import DogeCash.Foundation.Loop
import DogeCash.Zerocoin.Supply

/-! # The scan behind an accumulator witness

The mints of the blocks from a start height on are added to a witness, up to the second checkpoint
below the tip. Two things go wrong in it. At a block of the range of invalid checkpoints the scan
goes on without advancing, so it is endless where it comes to such a block after its last one. And
the range that the caller asks for is computed in a variable of its own, so it never lowers the
height at which the scan stops.
-/

namespace DogeCash

/-- What the scan reads of a block of the active chain. -/
structure WitnessBlock where
  nAccumulatorCheckpoint : UInt256
  vMintDenominationsInBlock : List CoinDenomination
  /-- `GetPubcoinFromBlock`: denominations and values. Nothing where it throws. -/
  pubcoins : Option (List (CoinDenomination × Int))

/-- `AccumulatorCheckpoints::Checkpoint` -/
abbrev AccumulatorCheckpoint := CoinDenomination → Option Int

/-- What the node knows when it computes a witness. -/
structure WitnessEnv where
  params : ChainParams
  nRequiredAccumulation : Int
  /-- The blocks of `chainActive` by their heights. -/
  chainActive : List WitnessBlock
  mapAccumulatorValues : UInt32 → Option Int
  readAccumulatorValue : UInt32 → Option Int
  /-- `AccumulatorCheckpoints::mapCheckpoints`, in the order of the heights. -/
  mapCheckpoints : List (Int × AccumulatorCheckpoint)
  /-- `LockMethod`: the lock was free at one of the attempts. -/
  lockMethod : Bool
  accumulatorBase : Int
  accumulatorModulus : Int
  /-- `CBigNum::pow_mod` -/
  powMod : Int → Int → Int → Int

/-- How the computation of a witness is left other than by a return. -/
inductive WitnessExit where
  | getPubcoin | checksumInDbNotFound | notEnoughMints (strError : String) | nullPointer | outOfRange
  | runtimeError (what : String)
  deriving DecidableEq

/-- `ParseChecksum`. The shift is an unsigned number. -/
def parseChecksum (nChecksum : UInt256) (denomination : CoinDenomination) : UInt32 :=
  let pos := CoinDenomination.denomList.idxOf denomination
  let shift := 32 * (CoinDenomination.denomList.length - 1 - pos : Int) % 2 ^ 32
  UInt32.ofNat (nChecksum >>> shift.toNat).toNat

def WitnessBlock.mintedDenomination (block : WitnessBlock) (denom : CoinDenomination) : Bool :=
  block.vMintDenominationsInBlock.contains denom

def invalidCheckpointRange (params : ChainParams) (nHeight : Int) : Bool :=
  params.nBlockLastGoodCheckpoint < nHeight && nHeight < params.nBlockRecalculateAccumulators

namespace WitnessEnv

abbrev Index (env : WitnessEnv) := Fin env.chainActive.length

variable (env : WitnessEnv)

/-- `chainActive.Height()` -/
def height : Int := env.chainActive.length - 1

/-- `chainActive[nHeight]` -/
def atHeight (nHeight : Int) : Option env.Index :=
  if inside : 0 ≤ nHeight ∧ nHeight < env.chainActive.length then some ⟨nHeight.toNat, by omega⟩
  else none

/-- `chainActive.Next` -/
def next (pindex : env.Index) : Option env.Index := env.atHeight (pindex + 1)

def deref (pindex : Option env.Index) : Except WitnessExit WitnessBlock :=
  match pindex with
  | none => .error .nullPointer
  | some pindex => .ok env.chainActive[pindex]

/-- `GetAccumulatorValueFromChecksum`; the value where it returns true. -/
def getAccumulatorValueFromChecksum (nChecksum : UInt32) (fMemoryOnly : Bool) : Option Int :=
  match env.mapAccumulatorValues nChecksum with
  | some bnAccValue => some bnAccValue
  | none => if fMemoryOnly then none else some ((env.readAccumulatorValue nChecksum).getD 0)

def getAccumulatorValueFromDB (nCheckpoint : UInt256) (denom : CoinDenomination) : Option Int :=
  env.getAccumulatorValueFromChecksum (parseChecksum nCheckpoint denom) false

/-- `AccumulatorCheckpoints::GetClosestCheckpoint`, with the height that it finds. -/
def getClosestCheckpoint (nHeight : Int) : Int × AccumulatorCheckpoint :=
  let nHeightCheckpoint := env.mapCheckpoints.foldl
    (fun found entry =>
      if entry.1 < nHeight then
        let found := if found = -1 then entry.1 else found
        if nHeight - entry.1 < found then entry.1 else found
      else found) (-1)
  (nHeightCheckpoint,
    if nHeightCheckpoint = -1 then fun _ => none
    else ((env.mapCheckpoints.find? (·.1 == nHeightCheckpoint)).map Prod.snd).getD fun _ => none)

/-- `GetAccumulatorValue`: the value where it returns true, and the height that it leaves. -/
def getAccumulatorValue (nHeight : Int) (denom : CoinDenomination) :
    Except WitnessExit (Option Int × Int) :=
  if env.height < nHeight then .ok (none, nHeight)
  else do
    let block ← env.deref (env.atHeight nHeight)
    if wrapInt (env.params.nBlockZerocoinV2 + 20) < nHeight then
      return (env.getAccumulatorValueFromDB block.nAccumulatorCheckpoint denom, nHeight)
    let (nHeightCheckpoint, checkpoint) := env.getClosestCheckpoint nHeight
    if nHeightCheckpoint < 0 then
      return (some env.accumulatorBase, wrapInt (env.params.nZerocoinStartHeight + 10))
    match checkpoint denom with
    | none => .error .outOfRange
    | some bnAccValue => return (some bnAccValue, nHeightCheckpoint)

/-- The loop of `ComputeAccumulatedCoins` over the blocks from a height on. -/
def countMints (nHeightEnd : Int) (denom : CoinDenomination) :
    List WitnessBlock → Int → Int → Except WitnessExit Int
  | [], _, _ => .error .nullPointer
  | block :: rest, nHeight, n =>
    if nHeight < nHeightEnd then
      countMints nHeightEnd denom rest (nHeight + 1)
        (n + block.vMintDenominationsInBlock.count denom)
    else .ok n

def computeAccumulatedCoins (nHeightEnd : Int) (denom : CoinDenomination) :
    Except WitnessExit Int :=
  match env.atHeight env.params.nZerocoinStartHeight with
  | none => .error .nullPointer
  | some pindex =>
    countMints nHeightEnd denom (env.chainActive.drop pindex) env.params.nZerocoinStartHeight 0

end WitnessEnv

/-- What the mints of the blocks are added to. -/
structure MintsAdded where
  nMintsAdded : Int
  witnessAccumulator : Int
  /-- The values that the filter held back. -/
  ret : List Int

namespace WitnessEnv

variable (env : WitnessEnv)

/-- The loop that both versions of `AddBlockMintsToAccumulator` run over the coins of a block. -/
def addBlockMints (den : CoinDenomination) (addCoin : MintsAdded → Int → MintsAdded)
    (pindex : env.Index) (added : MintsAdded) : Except WitnessExit MintsAdded :=
  if env.chainActive[pindex].mintedDenomination den then
    match env.chainActive[pindex].pubcoins with
    | none => .error .getPubcoin
    | some listPubcoins =>
      .ok (((listPubcoins.filter (·.1 == den)).map Prod.snd).foldl addCoin added)
  else .ok added

/-- `Accumulator::increment`, with the count of the mints. -/
def increment (added : MintsAdded) (bnValue : Int) : MintsAdded :=
  { added with
    nMintsAdded := added.nMintsAdded + 1
    witnessAccumulator := env.powMod added.witnessAccumulator bnValue env.accumulatorModulus }

/-- `AddBlockMintsToAccumulator` with a filter. -/
def addBlockMintsToAccumulator (den : CoinDenomination) (filter : Int → Bool) (isWitness : Bool) :
    env.Index → MintsAdded → Except WitnessExit MintsAdded :=
  env.addBlockMints den fun added value =>
    if isWitness && filter value then { added with ret := added.ret ++ [value] }
    else env.increment added value

/-- `AddBlockMintsToAccumulator` with a coin, which is left out at the height of its mint. -/
def addBlockMintsToAccumulatorOfCoin (coin : CoinDenomination × Int) (nHeightMintAdded : Int)
    (isWitness : Bool) (pindex : env.Index) (added : MintsAdded) :
    Except WitnessExit MintsAdded :=
  env.addBlockMints coin.1 (fun added value =>
    if isWitness && (pindex : Int) == nHeightMintAdded && value == coin.2 then added
    else env.increment added value) pindex added

/-- The variables of the loop of `calculateAccumulatedBlocksFor`. -/
structure Scan where
  pindex : Option env.Index
  fDoubleCounted : Bool
  added : MintsAdded
  bnAccValue : Int
  /-- The value of `accumulator`. -/
  accumulator : Int

/-- The block to scan after one. Ten blocks were accumulated twice when the second version was
activated. -/
def advance (pindex : env.Index) (fDoubleCounted : Bool) : Option env.Index × Bool :=
  if (pindex : ℕ) = 1050010 ∧ fDoubleCounted = false then (env.atHeight 1050000, true)
  else (env.next pindex, fDoubleCounted)

/-- A round of the loop of `calculateAccumulatedBlocksFor`. The number of the scanned blocks, which
one of the versions counts, is not read. -/
def scanRound (den : CoinDenomination) (nHeightStop : Int)
    (addMints : env.Index → MintsAdded → Except WitnessExit MintsAdded) (_round : ℕ)
    (scan : env.Scan) : Except WitnessExit (env.Scan ⊕ env.Scan) :=
  match scan.pindex with
  | none => .ok (.inr scan)
  | some pindex =>
    if nHeightStop ≤ pindex then
      -- The `continue` that is meant to go past the range leaves `pindex` as it is.
      if invalidCheckpointRange env.params pindex then .ok (.inl scan)
      else do
        let block ← env.deref (env.atHeight (pindex + 10))
        match env.getAccumulatorValueFromDB block.nAccumulatorCheckpoint den with
        | none => .error .checksumInDbNotFound
        | some bnAccValue =>
          if bnAccValue = 0 then .error .checksumInDbNotFound
          else return .inr { scan with bnAccValue, accumulator := bnAccValue }
    else do
      let added ← addMints pindex scan.added
      let (pindex, fDoubleCounted) := env.advance pindex scan.fDoubleCounted
      return .inl { scan with added, pindex, fDoubleCounted }

/-- The text of the `NotEnoughMintsException`. -/
def notEnoughMints : String :=
  "Less than " ++ toString env.nRequiredAccumulation ++ " mints added, unable to create spend"

/-- What `calculateAccumulatedBlocksFor` does in both of its versions. -/
def calculateAccumulated (den : CoinDenomination) (nHeightStop : Int)
    (addMints : env.Index → MintsAdded → Except WitnessExit MintsAdded)
    (pindex : Option env.Index) (bnAccValue accumulator witnessAccumulator : Int) (ret : List Int)
    (fuel : ℕ) : Option (Except WitnessExit env.Scan) :=
  (repeatUntil (env.scanRound den nHeightStop addMints) fuel 0
    ⟨pindex, false, ⟨0, witnessAccumulator, ret⟩, bnAccValue, accumulator⟩).map fun scanned => do
      let scan ← scanned
      if scan.added.nMintsAdded < env.nRequiredAccumulation then
        .error (.notEnoughMints env.notEnoughMints)
      else .ok scan

/-- `calculateAccumulatedBlocksFor` with a filter. -/
def calculateAccumulatedBlocksFor (nHeightStop : Int) (pindex : Option env.Index)
    (bnAccValue accumulator : Int) (den : CoinDenomination) (filter : Int → Bool)
    (witnessAccumulator : Int) (ret : List Int) : ℕ → Option (Except WitnessExit env.Scan) :=
  env.calculateAccumulated den nHeightStop (env.addBlockMintsToAccumulator den filter true) pindex
    bnAccValue accumulator witnessAccumulator ret

/-- `calculateAccumulatedBlocksFor` with a coin. -/
def calculateAccumulatedBlocksForCoin (nHeightStop nHeightMintAdded : Int)
    (pindex : Option env.Index) (bnAccValue accumulator witnessAccumulator : Int)
    (coin : CoinDenomination × Int) : ℕ → Option (Except WitnessExit env.Scan) :=
  env.calculateAccumulated coin.1 nHeightStop
    (env.addBlockMintsToAccumulatorOfCoin coin nHeightMintAdded true) pindex bnAccValue accumulator
    witnessAccumulator []

/-- What `CalculateAccumulatorWitnessFor` leaves in its arguments when it returns true. -/
structure WitnessFound where
  accumulator : Int
  witness : Int
  nMintsAdded : Int
  ret : List Int

/-- How `CalculateAccumulatorWitnessFor` comes back. -/
structure WitnessReport where
  /-- The height up to which it scans, from where it is assigned on. -/
  heightStop : Option Int
  /-- Nothing where it returns false. -/
  outcome : Except WitnessExit (Option WitnessFound)

def nextCheckpoint (startHeight : Int) : Int := wrapInt (startHeight + (10 - startHeight.tmod 10))

def secondCheckpointDeep : Int := env.height - env.height.tmod 10 - 20

/-- The end of `CalculateAccumulatorWitnessFor`, after the scan. A `GetPubcoinException` is caught;
a `ChecksumInDbNotFoundException` is thrown as a pointer and is not. -/
def finishWitness (startHeight : Int) (den : CoinDenomination)
    (scanned : Except WitnessExit env.Scan) : Except WitnessExit (Option WitnessFound) :=
  match scanned with
  | .error .getPubcoin => .ok none
  | .error other => .error other
  | .ok scan => do
    let nMintsAdded ← env.computeAccumulatedCoins startHeight den
    return some ⟨scan.accumulator, scan.added.witnessAccumulator, nMintsAdded, scan.added.ret⟩

def calculateAccumulatorWitnessFor (startHeight maxCalulationRange : Int) (den : CoinDenomination)
    (filter : Int → Bool) (accumulator witness : Int) (ret : List Int) (fuel : ℕ) :
    Option WitnessReport :=
  if env.lockMethod then
    match env.getAccumulatorValue (nextCheckpoint startHeight) den with
    | .error exit => some ⟨none, .error exit⟩
    | .ok (value, nHeightCheckpoint) =>
      let bnAccValue := value.getD 0
      let accumulator := value.getD accumulator
      let witness := value.elim witness fun _ => accumulator
      let pindex := env.atHeight (wrapInt (nHeightCheckpoint - 10))
      let nHeightStop := env.secondCheckpointDeep
      let heightStop :=
        if nHeightStop - startHeight > maxCalulationRange then
          let stop := wrapInt (startHeight + maxCalulationRange)
          -- This `nHeightStop` is a variable of the block only, and the outer one stays.
          let _nHeightStop := stop - stop.tmod 10 - 20
          nHeightStop
        else nHeightStop
      let witnessAccumulator := if witness ≠ 0 then witness else env.accumulatorBase
      (env.calculateAccumulatedBlocksFor heightStop pindex bnAccValue accumulator den filter
        witnessAccumulator ret fuel).map fun scanned =>
          ⟨some heightStop, env.finishWitness startHeight den scanned⟩
  else some ⟨none, .ok none⟩

/-! ## Where the scan is endless -/

variable {env : WitnessEnv}

variable {nHeight : Int} {pindex : env.Index} {den : CoinDenomination}

theorem atHeight_eq_some : env.atHeight nHeight = some pindex ↔ (pindex : Int) = nHeight := by
  unfold atHeight
  split
  case isTrue inside =>
      rw [Option.some.injEq, Fin.ext_iff]
      change nHeight.toNat = pindex.val ↔ _
      omega
  case isFalse outside =>
      constructor
      · intro impossible
        cases impossible
      · intro same
        omega

/-- A block with mints of the denomination can be read. -/
def Readable (env : WitnessEnv) (den : CoinDenomination) (pindex : env.Index) : Prop :=
  env.chainActive[pindex].mintedDenomination den = true →
    env.chainActive[pindex].pubcoins.isSome = true

/-- The scan from a position comes to a block before the stop, once more from 1050000 on if it
passes 1050010 for the first time. -/
def Visits (nHeightStop : Int) (fDoubleCounted : Bool) (pindex nHeight : ℕ) : Prop :=
  (nHeight : Int) < nHeightStop ∧
    (pindex ≤ nHeight ∨
      fDoubleCounted = false ∧ pindex ≤ 1050010 ∧ 1050010 < nHeightStop ∧ 1050000 ≤ nHeight)

/-- The scan comes to the range of invalid checkpoints with its last block. -/
def Stuck (env : WitnessEnv) (den : CoinDenomination) (nHeightStop : Int)
    (position : Option env.Index × Bool) : Prop :=
  ∃ first ∈ position.1, max (first : Int) nHeightStop < env.chainActive.length ∧
    invalidCheckpointRange env.params (max (first : Int) nHeightStop) = true ∧
    ∀ visited : env.Index, Visits nHeightStop position.2 first visited → env.Readable den visited

theorem addBlockMints_ok_iff {addCoin : MintsAdded → Int → MintsAdded} {added : MintsAdded} :
    (∃ after, env.addBlockMints den addCoin pindex added = .ok after) ↔ env.Readable den pindex := by
  unfold addBlockMints Readable
  by_cases minted : env.chainActive[pindex].mintedDenomination den = true
  · rw [if_pos minted]
    cases read : env.chainActive[pindex].pubcoins with
    | none => simpa using minted
    | some listPubcoins => simp
  · rw [if_neg minted]
    exact ⟨fun _ yes => absurd yes minted, fun _ => ⟨added, rfl⟩⟩

section

variable {den : CoinDenomination} {nHeightStop : Int}

variable {fDoubleCounted : Bool} {pindex : Option env.Index}

theorem stuck_below_iff {first : env.Index} (below : (first : Int) ≤ nHeightStop) :
    env.Stuck den nHeightStop (some first, fDoubleCounted) ↔
      nHeightStop < env.chainActive.length ∧
        invalidCheckpointRange env.params nHeightStop = true ∧
        ∀ visited : env.Index, Visits nHeightStop fDoubleCounted first visited →
          env.Readable den visited := by
  simp [Stuck, max_eq_right below]

theorem visits_jump_iff {nHeight : ℕ} (below : 1050010 < nHeightStop) :
    Visits nHeightStop true 1050000 nHeight ↔ Visits nHeightStop false 1050010 nHeight := by
  simp only [Visits, Bool.true_eq_false, false_and, or_false, true_and]
  omega

theorem visits_succ_iff {pindex nHeight : ℕ} (below : (pindex : Int) < nHeightStop)
    (ordinary : ¬(pindex = 1050010 ∧ fDoubleCounted = false)) :
    Visits nHeightStop fDoubleCounted pindex nHeight ↔
      nHeight = pindex ∨ Visits nHeightStop fDoubleCounted (pindex + 1) nHeight := by
  cases fDoubleCounted with
  | false =>
    simp only [Visits, true_and, and_true] at ordinary ⊢
    omega
  | true =>
    simp only [Visits, Bool.true_eq_false, false_and, or_false]
    omega

theorem stuck_advance_iff {pindex : env.Index} (below : (pindex : Int) < nHeightStop)
    (readable : env.Readable den pindex) :
    env.Stuck den nHeightStop (env.advance pindex fDoubleCounted) ↔
      env.Stuck den nHeightStop (some pindex, fDoubleCounted) := by
  rw [stuck_below_iff below.le]
  unfold advance
  split
  case isTrue jumps =>
      obtain ⟨special, rfl⟩ := jumps
      obtain ⟨back, there⟩ : ∃ back : env.Index, (back : ℕ) = 1050000 := ⟨⟨1050000, by omega⟩, rfl⟩
      have found : env.atHeight 1050000 = some back := atHeight_eq_some.mpr (by omega)
      rw [found, stuck_below_iff (by omega)]
      refine and_congr_right fun _ => and_congr_right fun _ => forall_congr' fun visited => ?_
      rw [there, special]
      exact imp_congr_left (visits_jump_iff (by omega))
  case isFalse goesOn =>
      by_cases last : (pindex : ℕ) + 1 < env.chainActive.length
      · obtain ⟨after, there⟩ : ∃ after : env.Index, (after : ℕ) = pindex + 1 :=
          ⟨⟨pindex + 1, last⟩, rfl⟩
        have found : env.next pindex = some after := atHeight_eq_some.mpr (by omega)
        rw [found, stuck_below_iff (by omega)]
        refine and_congr_right fun _ => and_congr_right fun _ => ?_
        simp only [there, visits_succ_iff below goesOn]
        constructor
        · intro reads visited visits
          cases visits with
          | inl same => exact Fin.ext same ▸ readable
          | inr later => exact reads visited later
        · intro reads visited later
          exact reads visited (.inr later)
      · have found : env.next pindex = none := by
          rw [next, atHeight, dif_neg (by omega)]
        rw [found]
        constructor
        · rintro ⟨first, impossible, -⟩
          cases impossible
        · rintro ⟨short, -⟩
          omega

/-- How far the scan can still go. -/
def scanLeft (env : WitnessEnv) (position : Option env.Index × Bool) : ℕ :=
  match position.1 with
  | none => 0
  | some pindex =>
    (if position.2 then 0 else env.chainActive.length + 1) + (env.chainActive.length - pindex)

theorem scanLeft_advance (pindex : env.Index) (fDoubleCounted : Bool) :
    env.scanLeft (env.advance pindex fDoubleCounted) <
      env.scanLeft (some pindex, fDoubleCounted) := by
  unfold advance
  split
  case isTrue jumps =>
      obtain ⟨-, rfl⟩ := jumps
      cases back : env.atHeight 1050000 with
      | none =>
        simp only [scanLeft, Bool.false_eq_true, ↓reduceIte]
        omega
      | some back =>
        simp only [scanLeft, Bool.false_eq_true, ↓reduceIte]
        omega
  case isFalse goesOn =>
      cases found : env.next pindex with
      | none =>
        simp only [scanLeft]
        omega
      | some after =>
        have there := atHeight_eq_some.mp found
        simp only [scanLeft]
        omega

def Scan.position (scan : env.Scan) : Option env.Index × Bool := (scan.pindex, scan.fDoubleCounted)

variable {addMints : env.Index → MintsAdded → Except WitnessExit MintsAdded}

section

variable
    (reads : ∀ pindex added, (∃ after, addMints pindex added = .ok after) ↔ env.Readable den pindex)
include reads

variable {round : ℕ} {scan next : env.Scan}

theorem scanRound_next (step : env.scanRound den nHeightStop addMints round scan = .ok (.inl next))
    :
    ∃ pindex, scan.pindex = some pindex ∧
      (nHeightStop ≤ pindex ∧ invalidCheckpointRange env.params pindex = true ∧ next = scan ∨
        (pindex : Int) < nHeightStop ∧ env.Readable den pindex ∧
          next.position = env.advance pindex scan.fDoubleCounted) := by
  unfold scanRound at step
  cases found : scan.pindex with
  | none =>
    rw [found] at step
    cases step
  | some pindex =>
    refine ⟨pindex, rfl, ?_⟩
    rw [found] at step
    by_cases reached : nHeightStop ≤ pindex
    · simp only [if_pos reached] at step
      by_cases invalid : invalidCheckpointRange env.params pindex = true
      · rw [if_pos invalid] at step
        cases step
        exact .inl ⟨reached, invalid, rfl⟩
      · rw [if_neg invalid] at step
        obtain ⟨block, -, step⟩ := bind_eq_ok.mp step
        split at step
        · cases step
        · split at step
          · cases step
          · cases step
    · simp only [if_neg reached] at step
      obtain ⟨added, adds, step⟩ := bind_eq_ok.mp step
      cases step
      exact .inr ⟨not_le.mp reached, (reads _ _).mp ⟨added, adds⟩, rfl⟩

theorem scanRound_of_stuck (round : ℕ) {scan : env.Scan}
    (stuck : env.Stuck den nHeightStop scan.position) :
    ∃ next, env.scanRound den nHeightStop addMints round scan = .ok (.inl next) ∧
      env.Stuck den nHeightStop next.position := by
  obtain ⟨pindex, found, short, invalid, readable⟩ := stuck
  replace found : scan.pindex = some pindex := found
  by_cases reached : nHeightStop ≤ pindex
  · have stays := invalid
    rw [max_eq_left reached] at invalid
    refine ⟨scan, ?_, pindex, found, short, stays, readable⟩
    simp only [scanRound, found, if_pos reached, if_pos invalid]
  · have below := not_le.mp reached
    have here : env.Readable den pindex := readable pindex ⟨below, .inl le_rfl⟩
    obtain ⟨added, adds⟩ := (reads pindex scan.added).mpr here
    have later : env.Stuck den nHeightStop (env.advance pindex scan.fDoubleCounted) :=
      (stuck_advance_iff below here).mpr ⟨pindex, rfl, short, invalid, readable⟩
    refine ⟨{ scan with
      added
      pindex := (env.advance pindex scan.fDoubleCounted).1
      fDoubleCounted := (env.advance pindex scan.fDoubleCounted).2 }, ?_, later⟩
    simp only [scanRound, found, if_neg reached, adds]
    rfl

theorem scanRound_lowers (free : ¬env.Stuck den nHeightStop scan.position)
    (step : env.scanRound den nHeightStop addMints round scan = .ok (.inl next)) :
    ¬env.Stuck den nHeightStop next.position ∧
      env.scanLeft next.position < env.scanLeft scan.position := by
  obtain ⟨pindex, found, cases⟩ := scanRound_next reads step
  have here : scan.position = (some pindex, scan.fDoubleCounted) := by rw [Scan.position, found]
  rcases cases with ⟨reached, invalid, -⟩ | ⟨below, readable, there⟩
  · refine absurd ⟨pindex, found, ?_, ?_, ?_⟩ free
    · omega
    · rwa [max_eq_left reached]
    · -- No block below the stop height comes after one that is not below it.
      intro visited visits
      unfold Visits at visits
      omega
  · rw [there, here]
    rw [here] at free
    exact ⟨fun stuck => free ((stuck_advance_iff below readable).mp stuck),
      scanLeft_advance pindex scan.fDoubleCounted⟩

end

theorem calculateAccumulated_of_stuck
    (reads : ∀ pindex added, (∃ after, addMints pindex added = .ok after) ↔ env.Readable den pindex)
    (stuck : env.Stuck den nHeightStop (pindex, false))
    (bnAccValue accumulator witnessAccumulator : Int) (ret : List Int) (fuel : ℕ) :
    env.calculateAccumulated den nHeightStop addMints pindex bnAccValue accumulator
      witnessAccumulator ret fuel = none := by
  let start : env.Scan := ⟨pindex, false, ⟨0, witnessAccumulator, ret⟩, bnAccValue, accumulator⟩
  have never : repeatUntil (env.scanRound den nHeightStop addMints) fuel 0 start = none :=
    repeatUntil_never
      (fun round scan (stuck : env.Stuck den nHeightStop scan.position) =>
        scanRound_of_stuck reads round stuck) stuck fuel 0
  rw [calculateAccumulated, never]
  rfl

theorem calculateAccumulated_ends
    (reads : ∀ pindex added, (∃ after, addMints pindex added = .ok after) ↔ env.Readable den pindex)
    (free : ¬env.Stuck den nHeightStop (pindex, false))
    (bnAccValue accumulator witnessAccumulator : Int) (ret : List Int) :
    Ends (fun _ => True) (env.calculateAccumulated den nHeightStop addMints pindex bnAccValue
      accumulator witnessAccumulator ret) := by
  let start : env.Scan := ⟨pindex, false, ⟨0, witnessAccumulator, ret⟩, bnAccValue, accumulator⟩
  replace free : ¬env.Stuck den nHeightStop start.position := free
  obtain ⟨outcome, returns⟩ := repeatUntil_returns
    (fun round (scan next : env.Scan) (free : ¬env.Stuck den nHeightStop scan.position)
      (step : env.scanRound den nHeightStop addMints round scan = .ok (.inl next)) =>
        scanRound_lowers reads free step) free 0
  have scans : Ends (fun _ => True) fun fuel =>
      repeatUntil (env.scanRound den nHeightStop addMints) fuel 0 start :=
    ⟨outcome, trivial, env.scanLeft start.position + 1, fun fuel enough => returns fuel enough⟩
  exact scans.map fun _ _ => trivial

end

variable (env)

theorem calculateAccumulatedBlocksFor_of_stuck {nHeightStop : Int} {pindex : Option env.Index}
    {bnAccValue accumulator : Int} {filter : Int → Bool} {witnessAccumulator : Int} {ret : List Int}
    {fuel : ℕ} (stuck : env.Stuck den nHeightStop (pindex, false)) :
    env.calculateAccumulatedBlocksFor nHeightStop pindex bnAccValue accumulator den filter
      witnessAccumulator ret fuel = none :=
  calculateAccumulated_of_stuck (fun _ _ => addBlockMints_ok_iff) stuck bnAccValue accumulator
    witnessAccumulator ret fuel

theorem calculateAccumulatedBlocksFor_ends_iff (nHeightStop : Int) (pindex : Option env.Index)
    (bnAccValue accumulator : Int) (den : CoinDenomination) (filter : Int → Bool)
    (witnessAccumulator : Int) (ret : List Int) :
    Ends (fun _ => True) (env.calculateAccumulatedBlocksFor nHeightStop pindex bnAccValue
      accumulator den filter witnessAccumulator ret) ↔
      ¬env.Stuck den nHeightStop (pindex, false) := by
  constructor
  · intro ends stuck
    exact Ends.of_none (fun _ => env.calculateAccumulatedBlocksFor_of_stuck stuck) ends
  · intro free
    exact calculateAccumulated_ends (fun _ _ => addBlockMints_ok_iff) free bnAccValue accumulator
      witnessAccumulator ret

theorem calculateAccumulatedBlocksForCoin_ends_iff (nHeightStop nHeightMintAdded : Int)
    (pindex : Option env.Index) (bnAccValue accumulator witnessAccumulator : Int)
    (coin : CoinDenomination × Int) :
    Ends (fun _ => True) (env.calculateAccumulatedBlocksForCoin nHeightStop nHeightMintAdded pindex
      bnAccValue accumulator witnessAccumulator coin) ↔
      ¬env.Stuck coin.1 nHeightStop (pindex, false) := by
  constructor
  · intro ends stuck
    exact Ends.of_none (calculateAccumulated_of_stuck (fun _ _ => addBlockMints_ok_iff) stuck
      bnAccValue accumulator witnessAccumulator []) ends
  · intro free
    exact calculateAccumulated_ends (fun _ _ => addBlockMints_ok_iff) free bnAccValue accumulator
      witnessAccumulator []

/-- `CalculateAccumulatorWitnessFor` ends and keeps to its range exactly if its scan does not get
stuck and the second checkpoint below the tip is within the range. -/
theorem calculateAccumulatorWitnessFor_bounded_iff (startHeight maxCalulationRange : Int)
    (den : CoinDenomination) (filter : Int → Bool) (accumulator witness : Int) (ret : List Int) :
    Ends (fun report => ∀ stop ∈ report.heightStop, stop ≤ startHeight + maxCalulationRange)
        (env.calculateAccumulatorWitnessFor startHeight maxCalulationRange den filter accumulator
          witness ret) ↔
      (env.lockMethod = true → ∀ value nHeightCheckpoint,
        env.getAccumulatorValue (nextCheckpoint startHeight) den = .ok (value, nHeightCheckpoint) →
        ¬env.Stuck den env.secondCheckpointDeep
            (env.atHeight (wrapInt (nHeightCheckpoint - 10)), false) ∧
          env.secondCheckpointDeep ≤ startHeight + maxCalulationRange) := by
  unfold calculateAccumulatorWitnessFor
  cases locked : env.lockMethod with
  | false =>
    simp only [Bool.false_eq_true, ↓reduceIte, false_imp_iff, iff_true]
    exact Ends.ret fun stop impossible => by cases impossible
  | true =>
    simp only [↓reduceIte, true_imp_iff]
    cases base : env.getAccumulatorValue (nextCheckpoint startHeight) den with
    | error exit =>
      refine iff_of_true (Ends.ret fun stop impossible => ?_) fun value nHeightCheckpoint found => ?_
      · cases impossible
      · cases found
    | ok found =>
      obtain ⟨value, nHeightCheckpoint⟩ := found
      simp only [ite_self]
      constructor
      · rintro ⟨report, within, enough, returns⟩ _ _ found
        cases found
        constructor
        · intro stuck
          obtain ⟨scanned, ended, -⟩ := Option.map_eq_some_iff.mp (returns enough le_rfl)
          rw [calculateAccumulatedBlocksFor_of_stuck env stuck] at ended
          cases ended
        · obtain ⟨scanned, -, rfl⟩ := Option.map_eq_some_iff.mp (returns enough le_rfl)
          exact within _ rfl
      · intro meets
        obtain ⟨free, within⟩ := meets value nHeightCheckpoint rfl
        refine ((calculateAccumulatedBlocksFor_ends_iff env _ _ _ _ _ _ _ _).mpr free).map
          fun scanned _ stop is => ?_
        cases is
        exact within

theorem not_stuck_of_network {network : Network}
    (params : env.params = ChainParams.ofNetwork network) (den : CoinDenomination)
    (nHeightStop : Int) (position : Option env.Index × Bool) :
    ¬env.Stuck den nHeightStop position := by
  rintro ⟨first, -, -, invalid, -⟩
  rw [params, invalidCheckpointRange, Bool.and_eq_true, decide_eq_true_eq, decide_eq_true_eq]
    at invalid
  have empty : (ChainParams.ofNetwork network).nBlockRecalculateAccumulators ≤
      (ChainParams.ofNetwork network).nBlockLastGoodCheckpoint := by
    cases network <;> exact le_rfl
  omega

/-- The scans end where they do not get stuck. The one of `CalculateAccumulatorWitnessFor` keeps to
its range only if the second checkpoint below the tip is within it. -/
theorem witnessScans_within_iff (nHeightStop nHeightMintAdded startHeight maxCalulationRange : Int)
    (pindex : Option env.Index) (bnAccValue accumulator witnessAccumulator witness : Int)
    (den : CoinDenomination) (coin : CoinDenomination × Int) (filter : Int → Bool)
    (ret : List Int) :
    (Ends (fun _ => True) (env.calculateAccumulatedBlocksFor nHeightStop pindex bnAccValue
        accumulator den filter witnessAccumulator ret) ↔
      ¬env.Stuck den nHeightStop (pindex, false)) ∧
    (Ends (fun _ => True) (env.calculateAccumulatedBlocksForCoin nHeightStop nHeightMintAdded pindex
        bnAccValue accumulator witnessAccumulator coin) ↔
      ¬env.Stuck coin.1 nHeightStop (pindex, false)) ∧
    (Ends (fun report => ∀ stop ∈ report.heightStop, stop ≤ startHeight + maxCalulationRange)
        (env.calculateAccumulatorWitnessFor startHeight maxCalulationRange den filter accumulator
          witness ret) ↔
      (env.lockMethod = true → ∀ value nHeightCheckpoint,
        env.getAccumulatorValue (nextCheckpoint startHeight) den = .ok (value, nHeightCheckpoint) →
        ¬env.Stuck den env.secondCheckpointDeep
            (env.atHeight (wrapInt (nHeightCheckpoint - 10)), false) ∧
          env.secondCheckpointDeep ≤ startHeight + maxCalulationRange)) :=
  ⟨env.calculateAccumulatedBlocksFor_ends_iff nHeightStop pindex bnAccValue accumulator den filter
      witnessAccumulator ret,
    env.calculateAccumulatedBlocksForCoin_ends_iff nHeightStop nHeightMintAdded pindex bnAccValue
      accumulator witnessAccumulator coin,
    env.calculateAccumulatorWitnessFor_bounded_iff startHeight maxCalulationRange den filter
      accumulator witness ret⟩

variable {env} in
theorem exists_getAccumulatorValue (nonneg : 0 ≤ nHeight) (inside : nHeight ≤ env.height)
    (recent : wrapInt (env.params.nBlockZerocoinV2 + 20) < nHeight) :
    ∃ value, env.getAccumulatorValue nHeight den = .ok (value, nHeight) := by
  unfold height at inside
  rw [getAccumulatorValue, if_neg (by unfold height; omega), atHeight, dif_pos (by omega)]
  simp only [deref, bind, Except.bind, if_pos recent]
  exact ⟨_, rfl⟩

/-- A node of the test network for regressions whose blocks have no mints. -/
def mintless (size : ℕ) : WitnessEnv where
  params := .regtest
  nRequiredAccumulation := 1
  chainActive := List.replicate size ⟨0, [], some []⟩
  mapAccumulatorValues _ := none
  readAccumulatorValue _ := none
  mapCheckpoints := []
  lockMethod := true
  accumulatorBase := 961
  accumulatorModulus := 2047
  powMod base exponent modulus := base ^ exponent.toNat % modulus

theorem height_mintless (size : ℕ) : (mintless size).height = size - 1 := by
  rw [height, mintless, List.length_replicate]

/-- A range of 86400 blocks from block 320 on does not keep the scan from going up to block
99980. -/
theorem witnessScan_past_range :
    ¬Ends (fun report => ∀ stop ∈ report.heightStop, stop ≤ 320 + 86400)
      ((mintless 100001).calculateAccumulatorWitnessFor 320 86400 .one (fun _ => false) 961 961
        []) := by
  rw [calculateAccumulatorWitnessFor_bounded_iff]
  intro meets
  obtain ⟨value, base⟩ : ∃ value, (mintless 100001).getAccumulatorValue (nextCheckpoint 320) .one =
      .ok (value, nextCheckpoint 320) :=
    exists_getAccumulatorValue (by decide) (by rw [height_mintless]; decide) (by decide)
  obtain ⟨-, within⟩ := meets rfl value _ base
  rw [secondCheckpointDeep, height_mintless] at within
  exact absurd within (by decide)

end WitnessEnv

end DogeCash
