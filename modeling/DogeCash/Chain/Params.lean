import DogeCash.Primitives.Script

/-! # Chain parameters

The parameters of the three networks, as far as the modelled functions read them,
and the block subsidy they lead to.
-/

namespace DogeCash

/-- `INT_MAX` -/
def intMax : Int := 2 ^ 31 - 1

inductive Network where
  | main | testnet | regtest
  deriving DecidableEq

/-- `CChainParams` -/
structure ChainParams where
  networkID : Network
  hashGenesisBlock : UInt256
  nMaxMoneyOut : Int
  nMaturity : Int
  nLastPOWBlock : Int
  nMinColdStakingAmount : Int
  nZerocoinStartHeight : Int
  nZerocoinStartTime : Int
  nBlockZerocoinV2 : Int
  nBlockEnforceSerialRange : Int
  nBlockRecalculateAccumulators : Int
  nBlockLastGoodCheckpoint : Int
  nBlockEnforceInvalidUTXO : Int
  nFakeSerialBlockheightEnd : Int
  nSupplyBeforeFakeSerial : Int
  nMaxZerocoinSpendsPerTransaction : Int
  nStartBIP65 : Int
  nBudgetCycleBlocks : Int
  nMaxReorganizationDepth : Int
  nModifierUpdateBlock : Int
  nBlockStakeModifierlV2 : Int
  nStakeMinAge : Int
  nStakeMinDepth : Int
  nDogecBadBlockTime : Int

namespace ChainParams

/-- `CMainParams`. It leaves `nModifierUpdateBlock` as static initialisation has it. -/
def main : ChainParams where
  networkID := .main
  hashGenesisBlock := 0x0000093cfce0a5a3cecea522e2c13bdf055d65c559fd2222730ba6f0d18dd2cd
  nMaxMoneyOut := 21000000 * COIN
  nMaturity := 30
  nLastPOWBlock := 200
  nMinColdStakingAmount := 1 * COIN
  nZerocoinStartHeight := intMax
  nZerocoinStartTime := intMax
  nBlockZerocoinV2 := intMax
  nBlockEnforceSerialRange := 100
  nBlockRecalculateAccumulators := intMax
  nBlockLastGoodCheckpoint := intMax
  nBlockEnforceInvalidUTXO := 902850
  nFakeSerialBlockheightEnd := 1686229
  nSupplyBeforeFakeSerial := 0
  nMaxZerocoinSpendsPerTransaction := 7
  nStartBIP65 := 261027
  nBudgetCycleBlocks := 43200
  nMaxReorganizationDepth := 100
  nModifierUpdateBlock := 0
  nBlockStakeModifierlV2 := 261028
  nStakeMinAge := 60 * 60
  nStakeMinDepth := 100
  nDogecBadBlockTime := 1593294062

/-- `CTestNetParams`, which starts from the main network. -/
def testnet : ChainParams :=
  { main with
    networkID := .testnet
    hashGenesisBlock := 0x41577c87741784ac470def77dac139b0cf08a3b65d2955273f3cbc0cb17f49c0
    nMaturity := 15
    nBlockEnforceSerialRange := intMax
    nBlockEnforceInvalidUTXO := intMax
    nFakeSerialBlockheightEnd := -1
    nBudgetCycleBlocks := 144
    nModifierUpdateBlock := 125
    nBlockStakeModifierlV2 := 1214000
    nStakeMinDepth := 50
    nDogecBadBlockTime := 1558145668 }

/-- `CRegTestParams`, which starts from the test network. -/
def regtest : ChainParams :=
  { testnet with
    networkID := .regtest
    hashGenesisBlock := 0x0000093cfce0a5a3cecea522e2c13bdf055d65c559fd2222730ba6f0d18dd2cd
    nLastPOWBlock := 250
    nMaturity := 100
    nBlockZerocoinV2 := 300
    nBlockEnforceSerialRange := 1
    nBlockRecalculateAccumulators := 999999999
    nBlockLastGoodCheckpoint := 999999999
    nModifierUpdateBlock := 0
    nBlockStakeModifierlV2 := 255
    nStakeMinAge := 0
    nStakeMinDepth := 0 }

def ofNetwork : Network → ChainParams
  | .main => main
  | .testnet => testnet
  | .regtest => regtest

def isStakeModifierV2 (params : ChainParams) (nHeight : Int) : Bool :=
  params.nBlockStakeModifierlV2 ≤ nHeight

def moneyRange (params : ChainParams) (nValue : Int) : Bool :=
  0 ≤ nValue && nValue ≤ params.nMaxMoneyOut

/-- The subsidy of `GetBlockValue` before the cap. The schedules for the test
networks that precede it in the source are overwritten by this one. -/
def subsidy (params : ChainParams) (nHeight : Int) : Int :=
  if nHeight = 0 then 0
  else if nHeight = 1 then 7000000 * COIN
  else if nHeight ≤ params.nLastPOWBlock ∧ 1 < nHeight then 1080000000
  else if nHeight ≤ 238621 ∧ params.nLastPOWBlock < nHeight then 1080000000
  else if nHeight ≤ 788621 ∧ 238622 ≤ nHeight then 9 * COIN
  else 540000000

/-- `GetBlockValue`, with the money supply of the active tip. Their sum can only wrap around from
the cap on, where the value is 0 in any case. -/
def getBlockValue (params : ChainParams) (tipMoneySupply nHeight : Int) : Int :=
  let nSubsidy := params.subsidy nHeight
  if params.nMaxMoneyOut ≤ tipMoneySupply then 0
  else if params.nMaxMoneyOut ≤ tipMoneySupply + nSubsidy then params.nMaxMoneyOut - tipMoneySupply
  else nSubsidy

/-- `GetMasternodePayment`: four fifths of the block value. The masternode count and
the kind of stake are not used. -/
def getMasternodePayment (params : ChainParams) (nHeight blockValue : Int) : Int :=
  if params.networkID = .testnet ∧ nHeight < 200 then 0
  else if nHeight ≤ 165 then Int.tdiv blockValue 100 * 0
  else Int.tdiv blockValue 100 * 80

section

variable (params : ChainParams)
include params

theorem subsidy_nonneg (nHeight : Int) : 0 ≤ params.subsidy nHeight := by
  unfold subsidy
  split_ifs <;> decide

theorem subsidy_le (nHeight : Int) : params.subsidy nHeight ≤ 7000000 * COIN := by
  unfold subsidy
  split_ifs <;> decide

theorem getBlockValue_le_subsidy (tipMoneySupply nHeight : Int) :
    params.getBlockValue tipMoneySupply nHeight ≤ params.subsidy nHeight := by
  have nonneg := params.subsidy_nonneg nHeight
  simp only [getBlockValue]
  split_ifs <;> omega

theorem getBlockValue_le (tipMoneySupply nHeight : Int)
    (below : tipMoneySupply ≤ params.nMaxMoneyOut) :
    tipMoneySupply + params.getBlockValue tipMoneySupply nHeight ≤ params.nMaxMoneyOut := by
  simp only [getBlockValue]
  split_ifs <;> omega

theorem getBlockValue_nonneg (tipMoneySupply nHeight : Int) :
    0 ≤ params.getBlockValue tipMoneySupply nHeight := by
  have nonneg := params.subsidy_nonneg nHeight
  simp only [getBlockValue]
  split_ifs <;> omega

theorem getMasternodePayment_bounds (nHeight : Int) {blockValue : Int} (nonneg : 0 ≤ blockValue) :
    0 ≤ params.getMasternodePayment nHeight blockValue ∧
      params.getMasternodePayment nHeight blockValue ≤ blockValue := by
  have division := Int.tdiv_eq_ediv_of_nonneg (b := 100) nonneg
  simp only [getMasternodePayment, division]
  split_ifs <;> omega

end

end ChainParams

end DogeCash
