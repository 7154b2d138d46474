import DogeCash.Staking.WeightedTarget

/-! # The next difficulty

`GetNextWorkRequired` computes the difficulty of the block that follows a chain: on the regression
test network that of the tip, before the proof of stake the average of 24 blocks corrected by the
time they took (the Dark Gravity Wave), and afterwards the target of the tip, corrected by the
time the tip took. In the first phase of the time protocol that time has no bound. It enters a
multiplication by a 32-bit word in a number of 256 bits, and for a gap of more than 8387566
seconds there are targets for which the product wraps around.
-/

namespace DogeCash

open ChainParams (ofNetwork regtest)
open BitVec (le_def lt_def toNat_ofNat)
open UInt256 (divAssign getCompact mulWord setCompact toNat_setCompact_getCompact)
open DogeCash.Compact (exponent exponent_le kept_eq kept_le)

/-- `CBlockIndex`, as far as the difficulty reads it. -/
structure WorkEntry where
  nHeight : Int
  nTime : UInt32
  nBits : UInt32

def WorkEntry.getBlockTime (entry : WorkEntry) : Int := entry.nTime.toNat

/-- `base_uint(uint64_t)`, from a signed number. -/
def UInt256.ofInt64 (b : Int) : UInt256 := BitVec.ofInt 256 (b % 2 ^ 64)

namespace ChainParams

def proofOfWorkLimit (params : ChainParams) : UInt256 :=
  if params.networkID = .regtest then (~~~0 : UInt256) >>> 1 else (~~~0 : UInt256) >>> 20

def blockStartTimeProtocolV2 (params : ChainParams) : Int :=
  match params.networkID with
  | .main => 575000
  | .testnet => 2214000
  | .regtest => 999999999

def isTimeProtocolV2 (params : ChainParams) (nHeight : Int) : Bool :=
  params.blockStartTimeProtocolV2 ≤ nHeight

end ChainParams

namespace NextWork

def targetSpacing : Int := 1 * 60

/-- `TargetTimespan`, in the second phase with time slots of fifteen seconds. -/
def targetTimespan (fV2 : Bool) : Int := if fV2 then 2 * 15 * 60 else 40 * 60

/-- `PastBlocksMin` and `PastBlocksMax` -/
def pastBlocks : Int := 24

/-- `nActualSpacing` -/
def actualSpacing (fTimeV2 : Bool) (pindexLast pprev : WorkEntry) : Int :=
  let nActualSpacing :=
    if pindexLast.nHeight ≠ 0 then pindexLast.getBlockTime - pprev.getBlockTime else 0
  let nActualSpacing := if nActualSpacing < 0 then 1 else nActualSpacing
  if fTimeV2 ∧ targetSpacing * 10 < nActualSpacing then targetSpacing * 10 else nActualSpacing

/-- `nInterval` -/
def interval (fTimeV2 : Bool) : Int := targetTimespan fTimeV2 / targetSpacing

def multiplier (fTimeV2 : Bool) (nActualSpacing : Int) : Int :=
  (interval fTimeV2 - 1) * targetSpacing + nActualSpacing + nActualSpacing

def divisor (fTimeV2 : Bool) : Int := (interval fTimeV2 + 1) * targetSpacing

/-- The branch of `GetNextWorkRequired` for proof of stake. The factor has 64 bits, the operator
takes 32. -/
def proofOfStakeWork (params : ChainParams) (pindexLast pprev : WorkEntry) : Option UInt32 := do
  let fTimeV2 := params.isTimeProtocolV2 (pindexLast.nHeight + 1)
  let bnTargetLimit := proofOfStakeLimit fTimeV2
  let nActualSpacing := actualSpacing fTimeV2 pindexLast pprev
  let bnNew := setCompact pindexLast.nBits
  let bnNew := if fTimeV2 ∧ ¬params.isTimeProtocolV2 pindexLast.nHeight then bnNew <<< 4 else bnNew
  let bnNew := mulWord bnNew (UInt32.ofInt (multiplier fTimeV2 nActualSpacing))
  let bnNew ← bnNew.divAssign (UInt256.ofInt64 (divisor fTimeV2))
  let bnNew := if bnNew ≤ 0 ∨ bnTargetLimit < bnNew then bnTargetLimit else bnNew
  some (UInt32.ofNat (getCompact bnNew false))

/-- The variables of the loop over the last blocks. -/
structure Gravity where
  countBlocks : Int := 0
  pastDifficultyAverage : UInt256 := 0
  pastDifficultyAveragePrev : UInt256 := 0
  nActualTimespan : Int := 0
  lastBlockTime : Int := 0

def Gravity.read (state : Gravity) (blockReading : WorkEntry) : Option Gravity := do
  let countBlocks := state.countBlocks + 1
  let bits := setCompact blockReading.nBits
  let weighted := mulWord state.pastDifficultyAveragePrev (UInt32.ofInt countBlocks) + bits
  let averaged := divAssign weighted (UInt256.ofInt64 (countBlocks + 1))
  let average ← if countBlocks = 1 then some bits else averaged
  let inWindow := decide (countBlocks ≤ pastBlocks)
  let diff := state.lastBlockTime - blockReading.getBlockTime
  some {
    countBlocks := countBlocks
    pastDifficultyAverage := if inWindow then average else state.pastDifficultyAverage
    pastDifficultyAveragePrev := if inWindow then average else state.pastDifficultyAveragePrev
    nActualTimespan := state.nActualTimespan + if 0 < state.lastBlockTime then diff else 0
    lastBlockTime := blockReading.getBlockTime }

/-- The branch of `GetNextWorkRequired` for proof of work: the loop ends after 24 blocks, at the
genesis block or where the chain ends. -/
def proofOfWorkWork (params : ChainParams) (chain : List WorkEntry) : Option UInt32 := do
  let window := (chain.takeWhile fun blockReading => 0 < blockReading.nHeight).take 24
  let state ← window.foldlM Gravity.read {}
  let nTargetTimespan := state.countBlocks * targetSpacing
  let nActualTimespan := max state.nActualTimespan (nTargetTimespan / 3)
  let nActualTimespan := min nActualTimespan (nTargetTimespan * 3)
  let bnNew := mulWord state.pastDifficultyAverage (UInt32.ofInt nActualTimespan)
  let bnNew ← bnNew.divAssign (UInt256.ofInt64 nTargetTimespan)
  let bnNew := if params.proofOfWorkLimit < bnNew then params.proofOfWorkLimit else bnNew
  some (UInt32.ofNat (getCompact bnNew false))

/-- `GetNextWorkRequired`, for a chain that begins with its tip. There is no result where a
pointer to a missing block is read. -/
def getNextWorkRequired (network : Network) (chain : List WorkEntry) : Option UInt32 :=
  let params := ofNetwork network
  let powLimit := UInt32.ofNat (getCompact params.proofOfWorkLimit false)
  if params.networkID = .regtest then chain.head?.map WorkEntry.nBits
  else
    match chain with
    | [] => some powLimit
    | pindexLast :: before =>
      if pindexLast.nHeight = 0 ∨ pindexLast.nHeight < pastBlocks then some powLimit
      else if params.nLastPOWBlock ≤ pindexLast.nHeight then
        before.head?.bind (proofOfStakeWork params pindexLast)
      else proofOfWorkWork params chain

/-! ### The exact target -/

/-- `T'`: the target of the tip, or sixteen times that on the first block of the second phase. -/
def startTarget (params : ChainParams) (tip : WorkEntry) : ℕ :=
  let target := (setCompact tip.nBits).toNat
  if params.isTimeProtocolV2 (tip.nHeight + 1) ∧ ¬params.isTimeProtocolV2 tip.nHeight then
    16 * target
  else target

def spacingFactor (params : ChainParams) (tip prev : WorkEntry) : Int :=
  let fTimeV2 := params.isTimeProtocolV2 (tip.nHeight + 1)
  multiplier fTimeV2 (actualSpacing fTimeV2 tip prev)

/-- The corrected target over unbounded integers, within the limit of the phase. -/
def exactTarget (params : ChainParams) (tip prev : WorkEntry) : Int :=
  let fTimeV2 := params.isTimeProtocolV2 (tip.nHeight + 1)
  let limit : Int := (proofOfStakeLimit fTimeV2).toNat
  let quotient := startTarget params tip * spacingFactor params tip prev / divisor fTimeV2
  if quotient = 0 then limit else min limit quotient

def OwnTarget (params : ChainParams) (entry : WorkEntry) : Prop :=
  0 < setCompact entry.nBits ∧
    setCompact entry.nBits ≤ proofOfStakeLimit (params.isTimeProtocolV2 entry.nHeight)

/-- The next difficulty is the compact form of the exact target. It decodes without a flag to a
target within the limit. -/
def Exact (network : Network) (tip prev : WorkEntry) (rest : List WorkEntry) : Prop :=
  let params := ofNetwork network
  ∃ (target : UInt256) (nBits : UInt32),
    (target.toNat : Int) = exactTarget params tip prev ∧
      nBits = UInt32.ofNat (getCompact target false) ∧
      getNextWorkRequired network (tip :: prev :: rest) = some nBits ∧
      UInt256.compactFlags nBits = (false, false) ∧
      0 < setCompact nBits ∧
      setCompact nBits ≤ proofOfStakeLimit (params.isTimeProtocolV2 (tip.nHeight + 1))

/-! ### The numbers of the two phases -/

theorem divisor_eq (fV2 : Bool) : divisor fV2 = if fV2 then 1860 else 2460 := by
  cases fV2 <;> rfl

theorem multiplier_eq (fV2 : Bool) (spacing : Int) :
    multiplier fV2 spacing = (if fV2 then 1740 else 2340) + 2 * spacing := by
  have base : (interval fV2 - 1) * targetSpacing = if fV2 then 1740 else 2340 := by
    cases fV2 <;> rfl
  rw [multiplier, base]
  ring

theorem toNat_proofOfStakeLimit (fV2 : Bool) :
    (proofOfStakeLimit fV2).toNat = if fV2 then 2 ^ 236 - 1 else 2 ^ 232 - 1 := by
  cases fV2 <;> rfl

section Spacing

variable (fV2 : Bool) (tip prev : WorkEntry)

theorem actualSpacing_nonneg : 0 ≤ actualSpacing fV2 tip prev := by
  have positive : 0 ≤ targetSpacing * 10 := by decide
  simp only [actualSpacing]
  split_ifs <;> omega

theorem actualSpacing_lt : actualSpacing fV2 tip prev < 2 ^ 32 := by
  have bound : tip.getBlockTime < 2 ^ 32 := by
    have := tip.nTime.toNat_lt
    unfold WorkEntry.getBlockTime
    omega
  have least : 0 ≤ prev.getBlockTime := Int.natCast_nonneg _
  simp only [actualSpacing]
  split_ifs <;> omega

theorem actualSpacing_le : actualSpacing true tip prev ≤ 600 := by
  have slots : targetSpacing * 10 = 600 := rfl
  simp only [actualSpacing, true_and]
  split_ifs <;> omega

theorem actualSpacing_first {tip : WorkEntry} (prev : WorkEntry) (high : tip.nHeight ≠ 0) :
    actualSpacing false tip prev =
      if tip.getBlockTime - prev.getBlockTime < 0 then 1
      else tip.getBlockTime - prev.getBlockTime := by
  simp [actualSpacing, high]

end Spacing

theorem exists_setCompact (nBits : UInt32) :
    ∃ word bytes, word < 2 ^ 23 ∧ (setCompact nBits).toNat = word * 256 ^ bytes % 2 ^ 256 := by
  have small : (nBits &&& 0x007fffff).toNat < 2 ^ 23 := by
    exact Nat.and_lt_two_pow _ (by decide)
  simp only [setCompact]
  split_ifs
  · refine ⟨(nBits &&& 0x007fffff).toNat / 256 ^ (3 - (nBits >>> 24).toNat), 0,
      Nat.lt_of_le_of_lt (Nat.div_le_self _ _) small, ?_⟩
    rw [toNat_ofNat, Nat.pow_zero, Nat.mul_one]
  · refine ⟨_, (nBits >>> 24).toNat - 3, small, ?_⟩
    rw [BitVec.toNat_shiftLeft, toNat_ofNat, Nat.shiftLeft_eq, Nat.pow_mul,
      Nat.mod_eq_of_lt (Nat.lt_trans small (by decide))]

theorem setCompact_le {nBits : UInt32} (below : (setCompact nBits).toNat < 2 ^ 232) :
    (setCompact nBits).toNat ≤ 65535 * 2 ^ 216 := by
  obtain ⟨word, bytes, small, decoded⟩ := exists_setCompact nBits
  rcases Nat.lt_or_ge bytes 27 with few | many
  · have power : 256 ^ bytes ≤ 256 ^ 26 := Nat.pow_le_pow_right (by decide) (by omega)
    calc (setCompact nBits).toNat ≤ word * 256 ^ bytes := by
          rw [decoded]
          exact Nat.mod_le _ _
      _ ≤ 2 ^ 23 * 256 ^ 26 := Nat.mul_le_mul (Nat.le_of_lt small) power
      _ ≤ 65535 * 2 ^ 216 := by decide
  · have power : 2 ^ 216 ∣ 256 ^ bytes := by
      exact Nat.pow_dvd_pow 256 many
    have divides : 2 ^ 216 ∣ (setCompact nBits).toNat := by
      rw [decoded]
      exact (Nat.dvd_mod_iff (by decide)).mpr (Nat.dvd_mul_left_of_dvd power word)
    omega

/-! ### What the branch computes -/

section Branch

variable {params : ChainParams} {tip prev : WorkEntry}

variable (params tip prev) in
theorem spacingFactor_bounds :
    0 < spacingFactor params tip prev ∧ spacingFactor params tip prev < 2 ^ 33 + 2340 := by
  have least := actualSpacing_nonneg (params.isTimeProtocolV2 (tip.nHeight + 1)) tip prev
  have most := actualSpacing_lt (params.isTimeProtocolV2 (tip.nHeight + 1)) tip prev
  rw [spacingFactor, multiplier_eq]
  split_ifs <;> omega

theorem spacingFactor_withBits (nBits : UInt32) :
    spacingFactor params { tip with nBits := nBits } prev = spacingFactor params tip prev := by
  rfl

variable (prev) in
theorem spacingFactor_second (second : params.isTimeProtocolV2 (tip.nHeight + 1)) :
    spacingFactor params tip prev ≤ 2940 := by
  have most := actualSpacing_le tip prev
  rw [spacingFactor, multiplier_eq, second, if_pos rfl]
  omega

variable (prev) in
theorem spacingFactor_first (first : params.isTimeProtocolV2 (tip.nHeight + 1) = false)
    (high : tip.nHeight ≠ 0) :
    spacingFactor params tip prev =
      2340 + 2 * (if tip.getBlockTime - prev.getBlockTime < 0 then 1
        else tip.getBlockTime - prev.getBlockTime) := by
  rw [spacingFactor, multiplier_eq, first, actualSpacing_first prev high, if_neg Bool.false_ne_true]

theorem isTimeProtocolV2_succ {nHeight : Int} (second : params.isTimeProtocolV2 nHeight) :
    params.isTimeProtocolV2 (nHeight + 1) := by
  simp only [ChainParams.isTimeProtocolV2, decide_eq_true_eq] at second ⊢
  omega

section

variable (own : OwnTarget params tip)
include own

theorem toNat_own :
    0 < (setCompact tip.nBits).toNat ∧
      (setCompact tip.nBits).toNat <
        if params.isTimeProtocolV2 tip.nHeight then 2 ^ 236 else 2 ^ 232 := by
  obtain ⟨positive, within⟩ := own
  have least : 0 < (setCompact tip.nBits).toNat := lt_def.mp positive
  have most := le_def.mp within
  rw [toNat_proofOfStakeLimit] at most
  refine ⟨least, ?_⟩
  split_ifs at most ⊢ <;> omega

theorem startTarget_bounds : 0 < startTarget params tip ∧ startTarget params tip < 2 ^ 236 := by
  obtain ⟨least, most⟩ := toNat_own own
  simp only [startTarget]
  split_ifs at most ⊢ with first <;> first | omega | exact absurd ‹_› first.2

theorem startTarget_first (first : params.isTimeProtocolV2 (tip.nHeight + 1) = false) :
    startTarget params tip = (setCompact tip.nBits).toNat ∧
      startTarget params tip ≤ 65535 * 2 ^ 216 := by
  have before : params.isTimeProtocolV2 tip.nHeight = false := by
    by_contra second
    rw [isTimeProtocolV2_succ (Bool.eq_true_of_not_eq_false second)] at first
    exact Bool.noConfusion first
  have same : startTarget params tip = (setCompact tip.nBits).toNat := by
    simp [startTarget, first]
  have most := (toNat_own own).2
  rw [before, if_neg Bool.false_ne_true] at most
  exact ⟨same, same ▸ setCompact_le most⟩

end

/-- The quotient of the branch: the factor without its upper half, the product modulo
`2 ^ 256`. -/
def wrappedQuotient (params : ChainParams) (tip prev : WorkEntry) : ℕ :=
  startTarget params tip * (spacingFactor params tip prev % 2 ^ 32).toNat % 2 ^ 256 /
    (divisor (params.isTimeProtocolV2 (tip.nHeight + 1))).toNat

def reachedTarget (params : ChainParams) (tip prev : WorkEntry) : ℕ :=
  let limit := (proofOfStakeLimit (params.isTimeProtocolV2 (tip.nHeight + 1))).toNat
  let quotient := wrappedQuotient params tip prev
  if quotient = 0 ∨ limit < quotient then limit else quotient

theorem ofInt64_divisor (fV2 : Bool) :
    UInt256.ofInt64 (divisor fV2) ≠ 0 ∧
      (UInt256.ofInt64 (divisor fV2)).toNat = (divisor fV2).toNat := by
  cases fV2 <;> decide

variable (prev) in
theorem proofOfStakeWork_eq (own : OwnTarget params tip) :
    ∃ target : UInt256, target.toNat = reachedTarget params tip prev ∧
      proofOfStakeWork params tip prev = some (UInt32.ofNat (getCompact target false)) := by
  obtain ⟨nonzero, divides⟩ := ofInt64_divisor (params.isTimeProtocolV2 (tip.nHeight + 1))
  set fTimeV2 := params.isTimeProtocolV2 (tip.nHeight + 1) with phase
  set start : UInt256 :=
    if fTimeV2 ∧ ¬params.isTimeProtocolV2 tip.nHeight then
      setCompact tip.nBits <<< 4 else setCompact tip.nBits with shifted
  have startIs : start.toNat = startTarget params tip := by
    have bound := (startTarget_bounds own).2
    simp only [startTarget, ← phase] at bound ⊢
    rw [shifted]
    split_ifs at bound ⊢
    · rw [BitVec.toNat_shiftLeft, Nat.shiftLeft_eq, Nat.mod_eq_of_lt (by omega)]
      exact Nat.mul_comm _ _
    · rfl
  set quotient : UInt256 :=
    mulWord start (UInt32.ofInt (spacingFactor params tip prev)) /
      UInt256.ofInt64 (divisor fTimeV2) with divided
  have quotientIs : quotient.toNat = wrappedQuotient params tip prev := by
    have word : (UInt32.ofInt (spacingFactor params tip prev)).toNat =
        (spacingFactor params tip prev % 2 ^ 32).toNat := by
      apply Nat.mod_eq_of_lt
      omega
    rw [divided, BitVec.toNat_udiv, UInt256.toNat_mulWord, startIs, word, divides]
    rfl
  refine ⟨if quotient ≤ 0 ∨ proofOfStakeLimit fTimeV2 < quotient then
    proofOfStakeLimit fTimeV2 else quotient, ?_, ?_⟩
  · have zero : quotient ≤ 0 ↔ wrappedQuotient params tip prev = 0 := by
      rw [le_def, quotientIs]
      exact Nat.le_zero
    have exceeds : proofOfStakeLimit fTimeV2 < quotient ↔
        (proofOfStakeLimit fTimeV2).toNat < wrappedQuotient params tip prev := by
      rw [lt_def, quotientIs]
    simp only [zero, exceeds, reachedTarget, ← phase]
    split_ifs
    · rfl
    · exact quotientIs
  · have quotientEq : divAssign
        (mulWord start (UInt32.ofInt (spacingFactor params tip prev)))
        (UInt256.ofInt64 (divisor fTimeV2)) = some quotient := UInt256.divAssign_eq nonzero
    rw [spacingFactor, ← phase] at quotientEq
    simp only [proofOfStakeWork, ← phase, ← shifted]
    rw [quotientEq]
    rfl

variable (params tip prev) in
theorem reachedTarget_bounds :
    0 < reachedTarget params tip prev ∧
      reachedTarget params tip prev ≤
        (proofOfStakeLimit (params.isTimeProtocolV2 (tip.nHeight + 1))).toNat := by
  have limit : 0 < (proofOfStakeLimit (params.isTimeProtocolV2 (tip.nHeight + 1))).toNat := by
    rw [toNat_proofOfStakeLimit]
    split_ifs <;> decide
  simp only [reachedTarget]
  split_ifs <;> omega

theorem divisor_pos (fV2 : Bool) : 0 < divisor fV2 := by
  cases fV2 <;> decide

theorem reachedTarget_eq (factor : spacingFactor params tip prev < 2 ^ 32)
    (product : startTarget params tip * spacingFactor params tip prev < 2 ^ 256) :
    (reachedTarget params tip prev : Int) = exactTarget params tip prev := by
  have positive := (spacingFactor_bounds params tip prev).1
  have division := divisor_pos (params.isTimeProtocolV2 (tip.nHeight + 1))
  obtain ⟨M, factorIs⟩ := Int.eq_ofNat_of_zero_le (Int.le_of_lt positive)
  obtain ⟨D, divisorIs⟩ := Int.eq_ofNat_of_zero_le (Int.le_of_lt division)
  have quotient : wrappedQuotient params tip prev = startTarget params tip * M / D := by
    rw [factorIs] at factor product
    rw [wrappedQuotient, factorIs, divisorIs, Int.emod_eq_of_lt (by omega) factor,
      Int.toNat_natCast, Int.toNat_natCast, Nat.mod_eq_of_lt (by exact_mod_cast product)]
  have cast : (startTarget params tip * spacingFactor params tip prev /
      divisor (params.isTimeProtocolV2 (tip.nHeight + 1)) : Int) =
        (wrappedQuotient params tip prev : ℕ) := by
    rw [quotient, factorIs, divisorIs]
    rfl
  simp only [exactTarget, reachedTarget, cast, Int.natCast_eq_zero]
  split_ifs <;> omega

end Branch

section Result

variable {network : Network} {tip prev : WorkEntry} {rest : List WorkEntry}

theorem pastBlocks_lt (network : Network) : pastBlocks < (ofNetwork network).nLastPOWBlock := by
  cases network <;> decide

section

variable (retargets : network ≠ .regtest)
include retargets

section

variable (staked : (ofNetwork network).nLastPOWBlock ≤ tip.nHeight)
include staked

theorem getNextWorkRequired_eq :
    getNextWorkRequired network (tip :: prev :: rest) =
      proofOfStakeWork (ofNetwork network) tip prev := by
  have same : (ofNetwork network).networkID = network := by
    cases network <;> rfl
  have high : pastBlocks < tip.nHeight := Int.lt_of_lt_of_le (pastBlocks_lt network) staked
  have positive : 0 ≤ pastBlocks := by decide
  simp only [getNextWorkRequired, same, if_neg retargets]
  rw [if_neg (by omega), if_pos staked]
  rfl

theorem exact_of_reachedTarget (own : OwnTarget (ofNetwork network) tip)
    (same : (reachedTarget (ofNetwork network) tip prev : Int) =
      exactTarget (ofNetwork network) tip prev) :
    Exact network tip prev rest := by
  obtain ⟨target, targetIs, returned⟩ := proofOfStakeWork_eq prev own
  obtain ⟨positive, within⟩ := reachedTarget_bounds (ofNetwork network) tip prev
  have decoded := toNat_setCompact_getCompact target
  refine ⟨target, _, by rw [targetIs, same], rfl, ?_, UInt256.compactFlags_getCompact target,
    ?_, ?_⟩
  · rw [getNextWorkRequired_eq retargets staked, returned]
  · apply lt_def.mpr
    rw [decoded, targetIs]
    exact Compact.kept_pos positive
  · apply le_def.mpr
    rw [decoded, targetIs]
    exact Nat.le_trans (kept_le _) within

theorem kept_of_exact (own : OwnTarget (ofNetwork network) tip)
    (exact : Exact network tip prev rest) :
    ∃ n : ℕ, (n : Int) = exactTarget (ofNetwork network) tip prev ∧
      Compact.kept n = Compact.kept (reachedTarget (ofNetwork network) tip prev) := by
  obtain ⟨target, nBits, targetIs, compact, result, -⟩ := exact
  obtain ⟨reached, reachedIs, returned⟩ := proofOfStakeWork_eq prev own
  rw [getNextWorkRequired_eq retargets staked, returned, compact] at result
  refine ⟨target.toNat, targetIs, ?_⟩
  rw [← reachedIs, ← toNat_setCompact_getCompact, ← toNat_setCompact_getCompact,
    Option.some.inj result]

end

end

end Result

/-! ### Long gaps in the first phase -/

section Gap

variable {network : Network} {tip prev : WorkEntry} {rest : List WorkEntry}

theorem product_fits (own : OwnTarget (ofNetwork network) tip)
    (staked : (ofNetwork network).nLastPOWBlock ≤ tip.nHeight)
    (short : (ofNetwork network).isTimeProtocolV2 (tip.nHeight + 1) ∨
      tip.getBlockTime - prev.getBlockTime ≤ 8387566) :
    spacingFactor (ofNetwork network) tip prev < 2 ^ 32 ∧
      startTarget (ofNetwork network) tip *
        spacingFactor (ofNetwork network) tip prev < 2 ^ 256 := by
  have most := pastBlocks_lt network
  have positive : 0 ≤ pastBlocks := by decide
  have least := (spacingFactor_bounds (ofNetwork network) tip prev).1
  cases phase : (ofNetwork network).isTimeProtocolV2 (tip.nHeight + 1) with
  | true =>
    have factor := spacingFactor_second prev phase
    have target := (startTarget_bounds own).2
    refine ⟨by omega, ?_⟩
    calc _ ≤ (2 ^ 236 - 1 : Int) * 2940 := Int.mul_le_mul (by omega) factor (by omega) (by omega)
      _ < 2 ^ 256 := by decide
  | false =>
    have factor := spacingFactor_first prev phase (by omega)
    have target := (startTarget_first own phase).2
    rcases short with second | gap
    · rw [phase] at second
      exact absurd second Bool.false_ne_true
    · have bounded : spacingFactor (ofNetwork network) tip prev ≤ 16777472 := by
        rw [factor]
        split_ifs <;> omega
      refine ⟨by omega, ?_⟩
      calc _ ≤ (65535 * 2 ^ 216 : Int) * 16777472 :=
            Int.mul_le_mul (by omega) bounded (by omega) (by omega)
        _ < 2 ^ 256 := by decide

theorem product_wraps {M k P : ℕ} (whole : 2 ^ k * P = 2 ^ 256) (positive : 0 < M)
    (small : M * P < 2 ^ 243) (large : 2460 ≤ P) :
    2 ^ 256 ≤ (2 ^ k / M + 1) * P * M ∧
      0 < (2 ^ k / M + 1) * P * M % 2 ^ 256 / 2460 ∧
      (2 ^ k / M + 1) * P * M % 2 ^ 256 / 2460 < 65535 * 2 ^ 216 := by
  -- The word is the first one whose product with the factor is above `2 ^ k`.
  have division := Nat.div_add_mod (2 ^ k) M
  have remainder := Nat.mod_lt (2 ^ k) positive
  obtain ⟨excess, product, overPositive, overLe⟩ :
      ∃ excess, (2 ^ k / M + 1) * M = 2 ^ k + excess ∧ 0 < excess ∧ excess ≤ M := by
    refine ⟨M - 2 ^ k % M, ?_, by omega, by omega⟩
    have expand : (2 ^ k / M + 1) * M = M * (2 ^ k / M) + M := by ring
    omega
  have split : (2 ^ k / M + 1) * P * M = 2 ^ 256 + excess * P := by
    calc (2 ^ k / M + 1) * P * M = (2 ^ k / M + 1) * M * P := by ring
      _ = 2 ^ k * P + excess * P := by rw [product, Nat.add_mul]
      _ = 2 ^ 256 + excess * P := by rw [whole]
  have least : P ≤ excess * P := Nat.le_mul_of_pos_left P overPositive
  have most : excess * P ≤ M * P := Nat.mul_le_mul_right P overLe
  omega

theorem exists_word {M : ℕ} (many : 2 ^ 24 + 258 ≤ M) (word : M < 2 ^ 32) :
    ∃ size k, 3 < size ∧ size < 33 ∧ 2 ^ k / M + 1 < 2 ^ 23 ∧
      (2 ^ k / M + 1) * 256 ^ (size - 3) < 2 ^ 232 ∧ 2 ^ k * 256 ^ (size - 3) = 2 ^ 256 ∧
      M * 256 ^ (size - 3) < 2 ^ 243 ∧ 2460 ≤ 256 ^ (size - 3) := by
  rcases Nat.lt_or_ge M (2 ^ 27) with few | more
  · have bound : 2 ^ 40 / M < 65535 := by
      rw [Nat.div_lt_iff_lt_mul (by omega)]
      omega
    refine ⟨30, 40, by decide, by decide, by omega, ?_, by decide, by omega, by decide⟩
    omega
  · have bound : 2 ^ 48 / M ≤ 2 ^ 21 := by
      apply Nat.div_le_of_le_mul
      omega
    refine ⟨29, 48, by decide, by decide, by omega, ?_, by decide, by omega, by decide⟩
    omega

theorem le_kept_limit : 65535 * 2 ^ 216 ≤ Compact.kept (2 ^ 232 - 1) := by
  have size : exponent (2 ^ 232 - 1) ≤ 29 + 1 := exponent_le (by decide)
  apply Compact.le_kept _ (by decide)
  apply Nat.dvd_mul_left_of_dvd
  have whole : 2 ^ 216 = 256 ^ 27 := by decide
  rw [whole]
  exact Nat.pow_dvd_pow 256 (by omega)

theorem own_of_word {size word : ℕ} (first : (ofNetwork network).isTimeProtocolV2
      tip.nHeight = false) (least : 3 ≤ size) (fits : size < 256) (positive : 0 < word)
    (small : word < 2 ^ 23) (below : word * 256 ^ (size - 3) < 2 ^ 232) :
    (setCompact (UInt32.ofNat (size * 2 ^ 24 + word))).toNat = word * 256 ^ (size - 3) ∧
      OwnTarget (ofNetwork network)
        { tip with nBits := UInt32.ofNat (size * 2 ^ 24 + word) } := by
  have decoded : (setCompact (UInt32.ofNat (size * 2 ^ 24 + word))).toNat =
      word * 256 ^ (size - 3) := by
    rw [UInt256.toNat_setCompact fits small]
    split_ifs with three
    · have same : size = 3 := by omega
      rw [same, Nat.sub_self, Nat.pow_zero, Nat.div_one, Nat.mul_one]
    · exact Nat.mod_eq_of_lt (Nat.lt_trans below (by decide))
  refine ⟨decoded, lt_def.mpr ?_, le_def.mpr ?_⟩
  · rw [decoded]
    exact Nat.mul_pos positive (Nat.pow_pos (by decide))
  · rw [decoded, first, toNat_proofOfStakeLimit, if_neg Bool.false_ne_true]
    omega

section First

variable (retargets : network ≠ .regtest)
  (staked : (ofNetwork network).nLastPOWBlock ≤ tip.nHeight)
  (first : (ofNetwork network).isTimeProtocolV2 (tip.nHeight + 1) = false)
  (own : OwnTarget (ofNetwork network) tip)
  {M : ℕ} (factor : spacingFactor (ofNetwork network) tip prev = M)
include retargets staked first own factor

theorem not_exact_of_wraps (word : M < 2 ^ 32)
    (wraps : 2 ^ 256 ≤ startTarget (ofNetwork network) tip * M)
    (positive : 0 < startTarget (ofNetwork network) tip * M % 2 ^ 256 / 2460)
    (low : startTarget (ofNetwork network) tip * M % 2 ^ 256 / 2460 < 65535 * 2 ^ 216) :
    ¬Exact network tip prev rest := by
  intro exact
  obtain ⟨n, targetIs, same⟩ := kept_of_exact retargets staked own exact
  have limit : n = 2 ^ 232 - 1 := by
    have cast : ((startTarget (ofNetwork network) tip : Int) * (M : ℕ)) =
      (startTarget (ofNetwork network) tip * M : ℕ) := by push_cast; rfl
    simp only [exactTarget, factor, first, divisor_eq, toNat_proofOfStakeLimit,
      Bool.false_eq_true, ↓reduceIte, cast] at targetIs
    split_ifs at targetIs <;> omega
  have reached : reachedTarget (ofNetwork network) tip prev =
      startTarget (ofNetwork network) tip * M % 2 ^ 256 / 2460 := by
    have quotient : wrappedQuotient (ofNetwork network) tip prev =
        startTarget (ofNetwork network) tip * M % 2 ^ 256 / 2460 := by
      rw [wrappedQuotient, factor, first, divisor_eq, if_neg Bool.false_ne_true,
        Int.emod_eq_of_lt (by omega) (by omega)]
      rfl
    simp only [reachedTarget, quotient, first, toNat_proofOfStakeLimit, Bool.false_eq_true,
      ↓reduceIte]
    rw [if_neg (by omega)]
  have above := le_kept_limit
  have below := kept_le (reachedTarget (ofNetwork network) tip prev)
  rw [← limit, same] at above
  omega

theorem not_exact_of_factor (one : startTarget (ofNetwork network) tip = 1)
    (more : 2 ^ 32 ≤ M) : ¬Exact network tip prev rest := by
  intro exact
  obtain ⟨n, targetIs, same⟩ := kept_of_exact retargets staked own exact
  have bound := (spacingFactor_bounds (ofNetwork network) tip prev).2
  have targetEq : n = M / 2460 := by
    simp only [exactTarget, factor, first, one, divisor_eq, toNat_proofOfStakeLimit,
      Bool.false_eq_true, ↓reduceIte, Nat.cast_one, Int.one_mul] at targetIs
    split_ifs at targetIs <;> omega
  have quotient : wrappedQuotient (ofNetwork network) tip prev = M % 2 ^ 32 / 2460 := by
    have cast : ((M : Int) % 2 ^ 32).toNat = M % 2 ^ 32 := by omega
    rw [wrappedQuotient, factor, first, one, divisor_eq, if_neg Bool.false_ne_true, Nat.one_mul,
      cast, Nat.mod_eq_of_lt (Nat.lt_trans (Nat.mod_lt M (Nat.two_pow_pos 32)) (by decide))]
    rfl
  rw [targetEq, kept_eq (by omega)] at same
  simp only [reachedTarget, quotient, first, toNat_proofOfStakeLimit, Bool.false_eq_true,
    ↓reduceIte] at same
  split_ifs at same
  · have above := le_kept_limit
    omega
  · rw [kept_eq (by omega)] at same
    omega

end First

theorem exists_not_exact (retargets : network ≠ .regtest)
    (staked : (ofNetwork network).nLastPOWBlock ≤ tip.nHeight)
    (first : (ofNetwork network).isTimeProtocolV2 (tip.nHeight + 1) = false)
    (long : 8387566 < tip.getBlockTime - prev.getBlockTime) :
    ∃ nBits, OwnTarget (ofNetwork network) { tip with nBits := nBits } ∧
      ¬Exact network { tip with nBits := nBits } prev rest := by
  have high := pastBlocks_lt network
  have positive : 0 ≤ pastBlocks := by decide
  have before : (ofNetwork network).isTimeProtocolV2 tip.nHeight = false := by
    by_contra second
    rw [isTimeProtocolV2_succ (Bool.eq_true_of_not_eq_false second)] at first
    exact Bool.noConfusion first
  obtain ⟨M, factor⟩ := Int.eq_ofNat_of_zero_le
    (Int.le_of_lt (spacingFactor_bounds (ofNetwork network) tip prev).1)
  have gap := spacingFactor_first prev first (by omega)
  -- Three ranges of the factor, each with its own word.
  rcases Nat.lt_or_ge M (2 ^ 32) with word | more
  · obtain ⟨size, k, least, most, small, below, whole, factorSmall, shift⟩ :=
      exists_word (by omega) word
    obtain ⟨decoded, own⟩ := own_of_word before (Nat.le_of_lt least) (by omega)
      (Nat.succ_pos _) small below
    have start := (startTarget_first own first).1
    rw [decoded] at start
    obtain ⟨wraps, left, low⟩ := product_wraps whole (by omega) factorSmall shift
    refine ⟨_, own, not_exact_of_wraps retargets staked first own ?_ word (start ▸ wraps)
      (start ▸ left) (start ▸ low)⟩
    rw [spacingFactor_withBits, factor]
  · obtain ⟨decoded, own⟩ := own_of_word before (Nat.le_refl 3) (by decide)
      Nat.one_pos (by decide) (by decide)
    have start := (startTarget_first own first).1
    rw [decoded] at start
    refine ⟨_, own, not_exact_of_factor retargets staked first own ?_ start more⟩
    rw [spacingFactor_withBits, factor]

theorem exists_not_exact_regtest :
    ∃ nBits, OwnTarget regtest { tip with nBits := nBits } ∧
      ¬Exact .regtest { tip with nBits := nBits } prev rest := by
  refine ⟨0x02000100, ?_, ?_⟩
  · have one : setCompact 0x02000100 = 1 := by decide
    refine ⟨?_, le_def.mpr ?_⟩
    · rw [one]
      decide
    · rw [one, toNat_proofOfStakeLimit]
      split_ifs <;> decide
  · intro exact
    obtain ⟨target, nBits, -, compact, result, -, positive, -⟩ := exact
    have same : nBits = 0x02000100 := (Option.some.inj result).symm
    have nonzero : 0 < target.toNat := by
      have decoded := lt_def.mp positive
      rw [compact, toNat_setCompact_getCompact] at decoded
      exact Nat.lt_of_lt_of_le decoded (kept_le _)
    have size : exponent target.toNat ≤ 32 + 1 := exponent_le target.isLt
    have least := Compact.le_mantissa nonzero
    have most := Compact.mantissa_lt target.toNat
    have word := congrArg UInt32.toNat (same.symm.trans compact)
    rw [UInt256.getCompact_eq, UInt256.toNat_word (by omega) most] at word
    have value : (0x02000100 : UInt32).toNat = 2 * 2 ^ 24 + 256 := rfl
    omega

/-- **The retargeting is exact up to a gap of 8387566 seconds.** Where the factor and the product
fit, the next difficulty is the compact form of the exact target. They do for every target within
the limit if and only if the next block is in the second phase, or the tip took no longer than that;
and the regression test network does not retarget. -/
theorem getNextWorkRequired_exact_iff (network : Network) (tip prev : WorkEntry)
    (rest : List WorkEntry)
    (staked : (ofNetwork network).nLastPOWBlock ≤ tip.nHeight) :
    (network ≠ .regtest → OwnTarget (ofNetwork network) tip →
      spacingFactor (ofNetwork network) tip prev < 2 ^ 32 →
      startTarget (ofNetwork network) tip * spacingFactor (ofNetwork network) tip prev < 2 ^ 256 →
      Exact network tip prev rest) ∧
    ((∀ nBits, OwnTarget (ofNetwork network) { tip with nBits := nBits } →
        Exact network { tip with nBits := nBits } prev rest) ↔
      network ≠ .regtest ∧
        ((ofNetwork network).isTimeProtocolV2 (tip.nHeight + 1) ∨
          tip.getBlockTime - prev.getBlockTime ≤ 8387566)) := by
  refine ⟨fun retargets own factor product =>
    exact_of_reachedTarget retargets staked own (reachedTarget_eq factor product), ?_, ?_⟩
  · intro always
    have retargets : network ≠ .regtest := by
      rintro rfl
      obtain ⟨nBits, own, wrong⟩ := exists_not_exact_regtest
      exact wrong (always nBits own)
    refine ⟨retargets, ?_⟩
    by_contra long
    rw [not_or, Bool.not_eq_true, Int.not_le] at long
    obtain ⟨nBits, own, wrong⟩ := exists_not_exact retargets staked long.1 long.2
    exact wrong (always nBits own)
  · intro ⟨retargets, short⟩ nBits own
    obtain ⟨factor, product⟩ := product_fits own staked short
    exact exact_of_reachedTarget retargets staked own (reachedTarget_eq factor product)

/-- The block at height `h`, with the target `0xfd97 * 2 ^ 216`. -/
def sampleEntry (h : ℕ) (nTime : UInt32) : WorkEntry := ⟨h, nTime, 0x1e00fd97⟩

def sampleRest : List WorkEntry :=
  (List.range 299).reverse.map fun h => sampleEntry h (UInt32.ofNat (1590000000 + 60 * h))

theorem getNextWorkRequired_exact_iff_minute :
    (Network.main ≠ .regtest →
      OwnTarget (ofNetwork .main) (sampleEntry 300 1590018000) →
      spacingFactor (ofNetwork .main) (sampleEntry 300 1590018000)
        (sampleEntry 299 1590017940) < 2 ^ 32 →
      startTarget (ofNetwork .main) (sampleEntry 300 1590018000) *
        spacingFactor (ofNetwork .main) (sampleEntry 300 1590018000)
          (sampleEntry 299 1590017940) < 2 ^ 256 →
      Exact .main (sampleEntry 300 1590018000) (sampleEntry 299 1590017940) sampleRest) ∧
    ((∀ nBits, OwnTarget (ofNetwork .main)
          { sampleEntry 300 1590018000 with nBits := nBits } →
        Exact .main { sampleEntry 300 1590018000 with nBits := nBits }
          (sampleEntry 299 1590017940) sampleRest) ↔
      Network.main ≠ .regtest ∧
        ((ofNetwork .main).isTimeProtocolV2 ((sampleEntry 300 1590018000).nHeight + 1) ∨
          (sampleEntry 300 1590018000).getBlockTime - (sampleEntry 299 1590017940).getBlockTime ≤
            8387566)) :=
  getNextWorkRequired_exact_iff .main (sampleEntry 300 1590018000) (sampleEntry 299 1590017940)
    sampleRest (by decide)

/-- After 98 days without a block the product wraps around, and the difficulty that should fall
to the limit rises instead. -/
theorem long_gap_not_exact :
    ¬∀ network tip prev rest, 24 ≤ (tip :: prev :: rest).length →
      (ofNetwork network).nLastPOWBlock ≤ tip.nHeight →
      OwnTarget (ofNetwork network) tip → Exact network tip prev rest := by
  intro exact
  have wrong := exact .main (sampleEntry 300 (1590017940 + 98 * 24 * 60 * 60))
    (sampleEntry 299 1590017940) sampleRest
    (by rw [List.length_cons, List.length_cons, sampleRest, List.length_map, List.length_reverse,
      List.length_range]; decide) (by decide) (by unfold OwnTarget; decide)
  exact absurd wrong (not_exact_of_wraps (M := 16936740) (by decide) (by decide) (by decide)
    (by unfold OwnTarget; decide) (by decide) (by decide) (by decide) (by decide) (by decide))

end Gap

end NextWork

end DogeCash
