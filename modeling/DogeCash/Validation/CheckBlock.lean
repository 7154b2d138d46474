import DogeCash.Validation.CheckTransaction

/-! # Checking a block without its context

`CheckBlock` makes the checks that need no coins view: the header, the merkle root,
the shape of the block and each transaction on its own. It runs on a block before it
is stored and again when the block is connected, unless it has been checked already.
-/

namespace DogeCash

namespace Node

variable (node : Node)

def checkBlockHeader (block : CBlock) (fCheckPOW : Bool) : Except Failure Unit :=
  require (!fCheckPOW || node.checkProofOfWork block.hash block.nBits) (.invalid 50 "high-hash")

/-- `CheckColdStakeFreeOutput`; the result for a transaction without outputs is not
used. -/
def checkColdStakeFreeOutput (tx : CTransaction) (nHeight : Int) : Bool :=
  if !tx.hasP2CSOutputs then true
  else
    match tx.vout.reverse with
    | lastOut :: before :: _ =>
      if 3 ≤ tx.vout.length ∧ lastOut.scriptPubKey ≠ before.scriptPubKey then
        lastOut.nValue == node.params.getMasternodePayment nHeight (node.getBlockValue nHeight) ||
          node.isBudgetPaymentBlock nHeight && node.isSporkActive .enableSuperblocks &&
            node.isSporkActive .masternodeBudgetEnforcement
      else true
    | _ => true

def checkMerkleRoot (block : CBlock) : Except Failure Unit := do
  let (hashMerkleRoot2, mutated) := node.blockMerkleRoot (block.vtx.map CTransaction.hash)
  require (block.hashMerkleRoot == hashMerkleRoot2) (.invalid 100 "bad-txnmrklroot")
  require (!mutated) (.invalid 100 "bad-txns-duplicate")

/-- The first transaction of a block is its only coinbase. -/
def checkCoinBase (block : CBlock) : Except Failure Unit :=
  match block.vtx with
  | [] => .error (.invalid 100 "bad-cb-missing")
  | first :: rest => do
    require first.isCoinBase (.invalid 100 "bad-cb-missing")
    require (rest.all fun tx => !tx.isCoinBase) (.invalid 100 "bad-cb-multiple")

/-- The shape of a proof-of-stake block: an empty coinbase and one coinstake. -/
def checkCoinStake (block : CBlock) : Except Failure Unit :=
  match block.vtx with
  | first :: second :: rest => do
    require (first.vout.length == 1 && first.vout.all CTxOut.isEmpty) (.invalid 100 "")
    require second.isCoinStake (.invalid 100 "")
    require (rest.all fun tx => !tx.isCoinStake) (.invalid 100 "")
  | _ => .error .exception

/-- No input is locked for another transaction. -/
def checkTransactionLocks (block : CBlock) : Except Failure Unit :=
  require
    (!node.isSporkActive .swiftTxBlockFiltering ||
      block.vtx.all fun tx => tx.isCoinBase ||
        tx.vin.all fun txin =>
          match node.mapLockedInputs txin.prevout with
          | none => true
          | some locked => locked == tx.hash)
    (.invalid 0 "conflicting-tx-ix")

/-- The checks of `CheckBlock` that depend on the height by the active chain; returns
`fColdStakingActive`. -/
def checkPayee (block : CBlock) : Except Failure Bool :=
  match node.tip with
  | none => .ok true
  | some tip =>
    let nHeight := node.heightFor tip block
    if nHeight ≠ 0 ∧ !node.isInitialBlockDownload then do
      require
        (!block.isProofOfStake ||
          (block.vtx[1]?.map (node.checkColdStakeFreeOutput · nHeight)).getD true)
        (.invalid 0 "bad-p2cs-outs")
      require (node.isBlockPayeeValid block nHeight) (.invalid 0 "bad-cb-payee")
      return node.isSporkActive .coldStakingEnforcement
    else .ok true

/-- The inner loop of `CheckBlock` over the spends of a transaction: `vBlockSerials`
afterwards. -/
def collectSerials (vBlockSerials : List Int) (txin : CTxIn) : Except Failure (List Int) :=
  match node.zerocoin.txInToZerocoinSpend txin with
  | none => .error .exception
  | some spend => do
    require (!vBlockSerials.contains spend.coinSerialNumber) (.invalid 100 "")
    return spend.coinSerialNumber :: vBlockSerials

/-- One round of the loop of `CheckBlock` over the transactions. -/
def checkBlockTransaction (fZerocoinActive fColdStakingActive : Bool) (vBlockSerials : List Int)
    (tx : CTransaction) : Except Failure (List Int) := do
  node.checkTransaction tx fZerocoinActive
    (node.isBlockBetweenFakeSerialAttackRange (node.chainHeight + 1)) fColdStakingActive
  if tx.isZerocoinSpend then tx.zerocoinInputs.foldlM node.collectSerials vBlockSerials
  else return vBlockSerials

/-- `CheckBlock`, for a block that has not been checked before. -/
def checkBlock (block : CBlock) (fCheckMerkleRoot : Bool) : Except Failure Unit := do
  let isPoS := block.isProofOfStake
  reported 100 "bad-header" (node.checkBlockHeader block !isPoS)
  requireWhen fCheckMerkleRoot (node.checkMerkleRoot block)
  require
    (!block.vtx.isEmpty && (block.vtx.length ≤ maxBlockSizeCurrent) &&
      (node.blockSerializeSize block ≤ maxBlockSizeCurrent))
    (.invalid 100 "bad-blk-length")
  checkCoinBase block
  requireWhen isPoS (checkCoinStake block)
  node.checkTransactionLocks block
  let fZerocoinActive := (node.params.nZerocoinStartTime < block.nTime.toNat)
  let fColdStakingActive ← node.checkPayee block
  let _ ← block.vtx.foldlM (node.checkBlockTransaction fZerocoinActive fColdStakingActive) []
  require ((block.vtx.map CTransaction.getLegacySigOpCount).sum ≤ maxBlockSigOps)
    (.invalid 100 "bad-blk-sigops")

section Facts

variable {node : Node}

private theorem vin_ne_nil_of_foldlM {fZerocoinActive fColdStakingActive : Bool}
    (txs : List CTransaction) (serials final : List Int)
    (passed : txs.foldlM (node.checkBlockTransaction fZerocoinActive fColdStakingActive) serials =
      .ok final) : ∀ tx ∈ txs, tx.vin ≠ [] := by
  induction txs generalizing serials with
  | nil => exact nofun
  | cons tx rest ih =>
    obtain ⟨next, first, later⟩ := foldlM_cons_eq_ok.mp passed
    obtain ⟨_, checked, -⟩ := bind_eq_ok.mp first
    intro other mem
    rcases List.mem_cons.mp mem with rfl | mem
    · exact vin_ne_nil_of_checkTransaction checked
    · exact ih next later other mem

/-- What a block that passed `CheckBlock` looks like, whatever the state of the node
was: its first transaction is its only coinbase, and no transaction lacks inputs. -/
theorem checkBlock_shape {block : CBlock} {fCheckMerkleRoot : Bool}
    (passed : node.checkBlock block fCheckMerkleRoot = .ok ()) :
    (∃ first rest, block.vtx = first :: rest ∧ first.isCoinBase = true ∧
      ∀ tx ∈ rest, tx.isCoinBase = false) ∧ ∀ tx ∈ block.vtx, tx.vin ≠ [] := by
  obtain ⟨_, -, passed⟩ := bind_eq_ok.mp passed
  obtain ⟨_, -, passed⟩ := bind_eq_ok.mp passed
  obtain ⟨-, passed⟩ := require_bind_eq_ok.mp passed
  obtain ⟨_, coinBase, passed⟩ := bind_eq_ok.mp passed
  obtain ⟨_, -, passed⟩ := bind_eq_ok.mp passed
  obtain ⟨_, -, passed⟩ := bind_eq_ok.mp passed
  obtain ⟨fColdStakingActive, -, passed⟩ := bind_eq_ok.mp passed
  obtain ⟨serials, transactions, -⟩ := bind_eq_ok.mp passed
  refine ⟨?_, vin_ne_nil_of_foldlM block.vtx [] serials transactions⟩
  unfold checkCoinBase at coinBase
  split at coinBase
  · cases coinBase
  · rename_i first rest vtx
    obtain ⟨firstIs, rest'⟩ := require_bind_eq_ok.mp coinBase
    have others := require_eq_ok.mp rest'
    simp only [List.all_eq_true, Bool.not_eq_eq_eq_not, Bool.not_true] at others
    exact ⟨first, rest, vtx, firstIs, others⟩

end Facts

end Node

end DogeCash
