import DogeCash.Script.SigOps
import DogeCash.Validation.CheckInputs
import DogeCash.Zerocoin.CoinSpend

/-! # The node around a block

Validation reads, besides the block and the coins view, the active chain, the
sporks, the masternode and budget managers and the databases. `Node` is what it
reads of them while one block is checked.
-/

namespace DogeCash

/-- A failure that the caller reports once more: `CValidationState::DoS` adds up the
levels and keeps the last reason. -/
def reported {α : Type} (nDoS : Nat) (reason : String) : Except Failure α → Except Failure α
  | .error (.invalid before _) => .error (.invalid (before + nDoS) reason)
  | outcome => outcome

theorem reported_eq_ok {α : Type} {nDoS : Nat} {reason : String} {outcome : Except Failure α}
    {value : α} : reported nDoS reason outcome = .ok value ↔ outcome = .ok value := by
  cases outcome with
  | error failure => cases failure <;> exact iff_of_false (by simp [reported]) (by simp)
  | ok result => exact Iff.rfl

/-- `SporkId`, as far as block validation asks for them. -/
inductive SporkId where
  | swiftTxBlockFiltering
  | masternodePaymentEnforcement
  | masternodeBudgetEnforcement
  | enableSuperblocks
  | zerocoinMaintenanceMode
  | coldStakingEnforcement

/-- An entry of the block index that a block is validated against. Its money supply is an
`int64_t`: what is recorded is wrapped. -/
structure ChainTip where
  hash : UInt256
  nHeight : Int
  nTime : Int
  nMoneySupply : Int

/-- What block validation reads besides the block and the view. -/
structure Node where
  params : ChainParams
  script : ScriptEnv
  zerocoin : ZerocoinEnv
  /-- `chainActive.Tip()` -/
  tip : Option ChainTip
  /-- The heights in `mapBlockIndex`. -/
  indexedHeight : UInt256 → Option Int
  getTime : Int
  getAdjustedTime : Int
  isInitialBlockDownload : Bool
  fVerifyingBlocks : Bool
  getSporkValue : SporkId → Int
  isSynced : Bool
  isBudgetPaymentBlock : Int → Bool
  isBlockPayeeValid : CBlock → Int → Bool
  mapLockedInputs : COutPoint → Option UInt256
  checkProofOfWork : UInt256 → UInt32 → Bool
  /-- `BlockMerkleRoot` with its mutation flag, from the ids of the transactions. -/
  blockMerkleRoot : List UInt256 → UInt256 × Bool
  txSerializeSize : CTransaction → Nat
  blockSerializeSize : CBlock → Nat
  /-- `Checkpoints::GetTotalBlocksEstimate` -/
  totalBlocksEstimate : Int
  containsOutPoint : COutPoint → Bool
  /-- `IsTransactionInChain`, with the height it finds. -/
  isTransactionInChain : UInt256 → Option Int
  /-- Whether the writes at the end of `ConnectBlock` succeed. -/
  writesSucceed : Bool

namespace Node

def isSporkActive (node : Node) (spork : SporkId) : Bool :=
  node.getSporkValue spork < node.getAdjustedTime

/-- `chainActive.Height()` -/
def chainHeight (node : Node) : Int :=
  match node.tip with
  | none => -1
  | some tip => tip.nHeight

/-- The height a block would have by its parent, 0 when the parent is not known.
`CheckBlock` and `IsBlockValueValid` compute it alike. -/
def heightFor (node : Node) (tip : ChainTip) (block : CBlock) : Int :=
  if tip.hash = block.hashPrevBlock then tip.nHeight + 1
  else
    match node.indexedHeight block.hashPrevBlock with
    | some nHeight => nHeight + 1
    | none => 0

/-- `GetBlockValue`: the cap is on the supply of the active tip, which the source
takes to be there. -/
def getBlockValue (node : Node) (nHeight : Int) : Int :=
  node.params.getBlockValue ((node.tip.map ChainTip.nMoneySupply).getD 0) nHeight

def validOutPoint (node : Node) (out : COutPoint) (nHeight : Int) : Bool :=
  !((node.params.nBlockEnforceInvalidUTXO ≤ nHeight) && node.containsOutPoint out)

def isBlockBetweenFakeSerialAttackRange (node : Node) (nHeight : Int) : Bool :=
  node.params.networkID = .main && nHeight ≤ node.params.nFakeSerialBlockheightEnd

def isSerialInBlockchain (node : Node) (serial : Int) : Bool :=
  match node.zerocoin.readCoinSpend serial with
  | none => false
  | some txHash => (node.isTransactionInChain txHash).isSome

end Node

/-- A zerocoin database without entries, under a library that decodes nothing. -/
def ZerocoinEnv.sample : ZerocoinEnv where
  txInToZerocoinSpend _ := none
  txOutToPublicCoin _ := none
  txOutHash _ := 0
  readCoinSpend _ := none
  readCoinMint _ := none
  readAccumulatorValue _ := none
  validateAccumulatorCheckpoint _ _ := true
  updateSupply _ _ := true

/-- A synced node with the default sporks whose tip is at height 149. -/
def Node.sample (params : ChainParams) : Node where
  params := params
  script := ⟨CheckInputs.sampleCrypto, fun _ _ _ _ _ => true⟩
  zerocoin := .sample
  tip := some ⟨149, 149, 1600000000, 8000000 * COIN⟩
  indexedHeight _ := none
  getTime := 1600000060
  getAdjustedTime := 1600000060
  isInitialBlockDownload := false
  fVerifyingBlocks := false
  getSporkValue
    | .swiftTxBlockFiltering => 0
    | _ => 4070908800
  isSynced := true
  isBudgetPaymentBlock _ := false
  isBlockPayeeValid _ _ := true
  mapLockedInputs _ := none
  checkProofOfWork _ _ := true
  blockMerkleRoot _ := (42, false)
  txSerializeSize _ := 200
  blockSerializeSize _ := 1000
  totalBlocksEstimate := 0
  containsOutPoint _ := false
  isTransactionInChain _ := none
  writesSucceed := true

def CTransaction.getLegacySigOpCount (tx : CTransaction) : Nat :=
  (tx.vin.map fun txin => CScript.getSigOpCount txin.scriptSig false).sum +
    (tx.vout.map fun out => CScript.getSigOpCount out.scriptPubKey false).sum

def CoinsMap.getP2SHSigOpCount (view : CoinsMap) (tx : CTransaction) : Nat :=
  if tx.isCoinBase || tx.isZerocoinSpend then 0
  else
    (tx.vin.map fun txin =>
      let prevout := view.outputFor txin.prevout
      if CScript.isPayToScriptHash prevout.scriptPubKey then
        CScript.getSigOpCountFor prevout.scriptPubKey txin.scriptSig
      else 0).sum

/-- `MAX_BLOCK_SIZE_CURRENT` -/
def maxBlockSizeCurrent : Nat := 2000000

/-- `MAX_BLOCK_SIGOPS_CURRENT + 4000` -/
def maxBlockSigOps : Nat := maxBlockSizeCurrent / 50 + 4000

/-- `MAX_ZEROCOIN_TX_SIZE` -/
def maxZerocoinTxSize : Nat := 1500000

end DogeCash
