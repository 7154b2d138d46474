import DogeCash.Foundation.FixedWidth
import DogeCash.Validation.CheckBlock

/-! # Connecting a block

`ConnectBlock` goes through the transactions of a block, checks each against the
coins view, adds up what they take in and pay out, and moves the view past them. The
totals give the money supply after the block and the amount the block mints, which
`IsBlockValueValid` compares with the block value.

The totals are `int64_t` in the source and wrap around. `Accounting` has the exact
sums, and what is made of them is wrapped: the supply, the minted amount and the
expected one. A sum that is wrapped at every step is the exact sum wrapped once.
-/

namespace DogeCash

/-- The entry of the block index of a block that is being connected; it has no hash
while a new block is put together. -/
structure BlockEntry where
  phashBlock : Option UInt256
  nHeight : Int
  pprev : Option ChainTip

/-- The variables of the loop in `ConnectBlock`, its totals before they wrap around. -/
structure Accounting where
  view : CoinsMap
  nFees : Int := 0
  nValueIn : Int := 0
  nValueOut : Int := 0
  nValueOutUnspendable : Int := 0
  nSigOps : Nat := 0
  vtxundo : List CTxUndo := []
  vSpends : List (CoinSpend × UInt256) := []
  vMints : List (PublicCoin × UInt256) := []

/-- What `ConnectBlock` leaves behind: the view, the supply in the block index, and
what is written to disk. -/
structure Connected where
  view : CoinsMap
  nMoneySupply : Int
  vtxundo : List CTxUndo
  vSpends : List (CoinSpend × UInt256)
  vMints : List (PublicCoin × UInt256)

namespace BlockEntry

def nMoneySupplyPrev (entry : BlockEntry) : Int := (entry.pprev.map ChainTip.nMoneySupply).getD 0

/-- The height `CheckInputs` takes from the best block of the view, which is the
parent of the block. -/
def spendHeight (entry : BlockEntry) : Int :=
  match entry.pprev with
  | some pprev => pprev.nHeight + 1
  | none => 0

def bip30Exempt : UInt256 := 0x0000093cfce0a5a3cecea522e2c13bdf055d65c559fd2222730ba6f0d18dd2cd

def fEnforceBIP30 (entry : BlockEntry) : Bool :=
  match entry.phashBlock with
  | none => true
  | some hash => !(entry.nHeight == 0 && hash == bip30Exempt)

end BlockEntry

namespace Accounting

/-- `nMoneySupply` of the block after the loop. -/
def nMoneySupply (acct : Accounting) (entry : BlockEntry) : Int :=
  wrapInt64 (entry.nMoneySupplyPrev + acct.nValueOut - acct.nValueIn - acct.nValueOutUnspendable)

def nMint (acct : Accounting) (entry : BlockEntry) : Int :=
  wrapInt64 (acct.nMoneySupply entry - entry.nMoneySupplyPrev + acct.nFees)

/-- The minted amount does not depend on the supply before the block. -/
theorem nMint_eq (acct : Accounting) (entry : BlockEntry) : acct.nMint entry =
    wrapInt64 (acct.nValueOut - acct.nValueIn - acct.nValueOutUnspendable + acct.nFees) := by
  have sum : entry.nMoneySupplyPrev + acct.nValueOut - acct.nValueIn - acct.nValueOutUnspendable +
      (-entry.nMoneySupplyPrev + acct.nFees) =
        acct.nValueOut - acct.nValueIn - acct.nValueOutUnspendable + acct.nFees := by
    omega
  rw [nMint, nMoneySupply, Int.sub_eq_add_neg, Int.add_assoc, wrapInt64_wrap_add, sum]

end Accounting

namespace Node

variable (node : Node)

def contextualCheckZerocoinSpendNoSerialCheck (tx : CTransaction) (spend : CoinSpend)
    (nHeight : Int) : Bool :=
  let inRange := node.isBlockBetweenFakeSerialAttackRange nHeight
  let signed :=
    match spend.hasValidSignature with
    | .valid => true
    | .invalid => false
    | .invalidSerial => inRange
  let expectedType := if tx.isCoinStake then SpendType.stake else SpendType.spend
  (!(node.params.nBlockZerocoinV2 ≤ nHeight) || signed && spend.spendType == expectedType) &&
    (spend.hasValidSerial (spend.version < 2) || inRange)

def contextualCheckZerocoinSpend (tx : CTransaction) (spend : CoinSpend) (nHeight : Int) : Bool :=
  node.contextualCheckZerocoinSpendNoSerialCheck tx spend nHeight &&
    !node.isSerialInBlockchain spend.coinSerialNumber

def contextualCheckZerocoinMint (coin : PublicCoin) (nHeight : Int) : Bool :=
  !((node.params.nBlockZerocoinV2 ≤ nHeight) && node.params.networkID != .testnet &&
    match node.zerocoin.readCoinMint coin.value with
    | none => false
    | some txid => (node.isTransactionInChain txid).isSome)

section Loop

variable (entry : BlockEntry) (block : CBlock)

/-- `fScriptChecks` of `ConnectBlock` -/
def fScriptChecks : Bool := (node.totalBlocksEstimate ≤ entry.nHeight)

/-- The script flags of `ConnectBlock`. -/
def connectFlags : ScriptFlags :=
  let fCLTVIsActive := node.fScriptChecks entry && entry.pprev.isSome &&
    (node.params.nStartBIP65 ≤ node.chainHeight)
  let flags := ScriptFlags.P2SH ||| ScriptFlags.DERSIG
  if fCLTVIsActive then flags ||| ScriptFlags.CHECKLOCKTIMEVERIFY else flags

/-- The loop over the inputs of a zerocoin spend, for an input that is one. -/
def connectSpendInput (tx : CTransaction) (acct : Accounting) (txin : CTxIn) :
    Except Failure Accounting :=
  match node.zerocoin.txInToZerocoinSpend txin with
  | none => .error .exception
  | some spend => do
    require (node.contextualCheckZerocoinSpend tx spend entry.nHeight) (.invalid 100 "")
    return { acct with
      nValueIn := acct.nValueIn + spend.denomination.toInt * COIN
      vSpends := acct.vSpends ++ [(spend, tx.hash)] }

/-- The loop over the outputs of a zerocoin mint, for an output that is one. -/
def connectMintOutput (tx : CTransaction) (acct : Accounting) (out : CTxOut) :
    Except Failure Accounting :=
  match node.zerocoin.txOutToPublicCoin out with
  | none => .error (.invalid 200 "")
  | some coin => do
    require (node.contextualCheckZerocoinMint coin entry.nHeight) (.invalid 100 "")
    return { acct with vMints := acct.vMints ++ [(coin, tx.hash)] }

def connectMints (tx : CTransaction) (acct : Accounting) : Except Failure Accounting :=
  (tx.vout.filter CTxOut.isZerocoinMint).foldlM (node.connectMintOutput entry tx) acct

/-- The branch of the loop for a zerocoin spend. -/
def connectZerocoinSpend (tx : CTransaction) (acct : Accounting) : Except Failure Accounting := do
  require
    (match node.isTransactionInChain tx.hash with
    | none => true
    | some nHeightTx => node.fVerifyingBlocks && !(nHeightTx < entry.nHeight))
    (.invalid 100 "bad-txns-inputs-missingorspent")
  let acct ← tx.zerocoinInputs.foldlM (node.connectSpendInput entry tx) acct
  node.connectMints entry tx acct

/-- What a transaction that is not a coinstake leaves as a fee. -/
def feeOf (view : CoinsMap) (tx : CTransaction) : Except Failure Int :=
  if tx.isCoinStake then .ok 0
  else do
    let nValueOut ← tx.getValueOutOrThrow
    return view.getValueIn tx - nValueOut

/-- The branch of the loop for a transaction that spends coins. -/
def connectInputs (tx : CTransaction) (acct : Accounting) : Except Failure Accounting := do
  require (acct.view.haveInputs tx) (.invalid 100 "bad-txns-inputs-missingorspent")
  require (tx.vin.all fun txin => node.validOutPoint txin.prevout entry.nHeight)
    (.invalid 100 "bad-txns-invalid-inputs")
  let acct ← node.connectMints entry tx acct
  let nSigOps := acct.nSigOps + acct.view.getP2SHSigOpCount tx
  require (nSigOps ≤ maxBlockSigOps) (.invalid 100 "bad-blk-sigops")
  let fee ← feeOf acct.view tx
  CheckInputs.checkInputs node.params node.script entry.spendHeight acct.view
    (node.connectFlags entry) (node.fScriptChecks entry) tx
  return { acct with
    nSigOps := nSigOps
    nFees := acct.nFees + fee
    nValueIn := acct.nValueIn + acct.view.getValueIn tx }

def connectKind (tx : CTransaction) (acct : Accounting) : Except Failure Accounting :=
  if tx.isZerocoinSpend then node.connectZerocoinSpend entry tx acct
  else if tx.isCoinBase then .ok acct
  else node.connectInputs entry tx acct

/-- `UpdateCoins` at the end of a round. -/
def connectOutputs (tx : CTransaction) (nValueOut : Int) (acct : Accounting) :
    Except Failure Accounting :=
  match acct.view.updateCoins tx (Int32.ofInt entry.nHeight) with
  | none => .error .assertion
  | some (view, txundo) =>
    .ok { acct with
      view := view
      nValueOut := acct.nValueOut + nValueOut
      nValueOutUnspendable := acct.nValueOutUnspendable + tx.getValueOutUnspendable
      vtxundo := acct.vtxundo ++ [txundo] }

/-- One round of the loop over the transactions. -/
def connectTransaction (acct : Accounting) (tx : CTransaction) : Except Failure Accounting := do
  let nSigOps := acct.nSigOps + tx.getLegacySigOpCount
  require (nSigOps ≤ maxBlockSigOps) (.invalid 100 "bad-blk-sigops")
  require
    (!((node.getSporkValue .zerocoinMaintenanceMode < block.nTime.toNat) &&
      !node.isInitialBlockDownload && tx.containsZerocoins))
    (.invalid 100 "")
  let acct ← node.connectKind entry tx { acct with nSigOps := nSigOps }
  let nValueOut ← tx.getValueOutOrThrow
  connectOutputs entry tx nValueOut acct

/-- The loop of `ConnectBlock`. -/
def connectTransactions (view : CoinsMap) : Except Failure Accounting :=
  block.vtx.foldlM (node.connectTransaction entry block) { view := view }

end Loop

/-- `nExpectedMint`: the fees go to the miner of a proof-of-work block only. -/
def expectedMint (entry : BlockEntry) (block : CBlock) (acct : Accounting) : Int :=
  if block.isProofOfWork then wrapInt64 (node.getBlockValue entry.nHeight + acct.nFees)
  else node.getBlockValue entry.nHeight

def isBlockValueValid (block : CBlock) (nExpectedValue nMinted : Int) : Bool :=
  match node.tip with
  | none => true
  | some tip =>
    let nHeight := node.heightFor tip block
    if !node.isSynced then
      (Int.tmod nHeight node.params.nBudgetCycleBlocks < 100) || (nMinted ≤ nExpectedValue)
    else if !node.isSporkActive .enableSuperblocks then (nMinted ≤ nExpectedValue)
    else node.isBudgetPaymentBlock nHeight || (nMinted ≤ nExpectedValue)

/-- `UpdatezdogecSupply`, as far as the block can fail there. -/
def updatezdogecSupply (block : CBlock) (nHeight : Int) : Bool :=
  (nHeight < node.params.nZerocoinStartHeight) || node.zerocoin.updateSupply block nHeight

/-- `ConnectBlock` on a block other than the genesis block, after the checks of the
block on its own. -/
def connectChecked (entry : BlockEntry) (view : CoinsMap) (block : CBlock) (fJustCheck : Bool) :
    Except Failure Connected := do
  require (!((entry.nHeight ≤ node.params.nLastPOWBlock) && block.isProofOfStake))
    (.invalid 100 "PoS-early")
  require (!((node.params.nLastPOWBlock < entry.nHeight) && block.isProofOfWork))
    (.invalid 100 "PoW-ended")
  require (!entry.fEnforceBIP30 || view.passesBIP30 block) (.invalid 100 "bad-txns-BIP30")
  let acct ← node.connectTransactions entry block view
  -- The recalculation starts at an entry of the chain that does not exist.
  require (entry.nHeight != node.params.nBlockRecalculateAccumulators + 1) .exception
  require (node.updatezdogecSupply block entry.nHeight) (.invalid 100 "")
  require node.tip.isSome .exception
  require (node.isBlockValueValid block (node.expectedMint entry block acct) (acct.nMint entry))
    (.invalid 100 "bad-cb-amount")
  require (node.zerocoin.validateAccumulatorCheckpoint block entry.nHeight)
    (.invalid 100 "bad-acc-checkpoint")
  require (fJustCheck || node.writesSucceed) .abort
  return {
    view := acct.view
    nMoneySupply := acct.nMoneySupply entry
    vtxundo := acct.vtxundo.tail
    vSpends := acct.vSpends
    vMints := acct.vMints }

/-- `ConnectBlock` on a view with the given best block. The genesis block only
becomes the best block: its entry keeps the supply 0 it was built with. -/
def connectBlock (entry : BlockEntry) (view : CoinsMap) (hashBestBlock : UInt256) (block : CBlock)
    (fJustCheck fAlreadyChecked : Bool) : Except Failure Connected := do
  requireWhen (!fAlreadyChecked) (node.checkBlock block !fJustCheck)
  require ((entry.pprev.map ChainTip.hash).getD 0 == hashBestBlock) .assertion
  if block.hash = node.params.hashGenesisBlock then
    return { view := view, nMoneySupply := 0, vtxundo := [], vSpends := [], vMints := [] }
  else node.connectChecked entry view block fJustCheck

end Node

end DogeCash
