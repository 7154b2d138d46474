import DogeCash.Mempool.Removal
import DogeCash.Mempool.StandardInputs

/-! # Accepting a transaction to the memory pool

`AcceptToMemoryPool` checks a transaction on its own, against the pool, against the chain
and against the coins that it spends, and adds it to the pool. A zerocoin spend takes a way
of its own: `mapNextTx` is not asked about its inputs, and its serials are compared with
those of the chain.
-/

namespace DogeCash

/-- What `AcceptToMemoryPool` takes from the policy of the node: `RequireStandard`,
`IsStandardTx`, `CheckFinalTx`, and the checks of the fee, the priority and the rate. -/
structure MempoolPolicy where
  requireStandard : Bool
  isStandardTx : CTransaction → Bool
  checkFinalTx : CTransaction → Bool
  passesFees : CTransaction → Int → Bool

/-- `MAX_TX_SIGOPS_CURRENT + 4000` -/
def maxTxSigOps : Nat := maxBlockSizeCurrent / 50 / 5 + 4000

/-- `CCoinsViewMemPool`: the coins of the transactions of the pool over those of the chain. -/
def CTxMemPool.view (pool : CTxMemPool) (pcoinsTip : CoinsMap) : CoinsMap := fun txid =>
  match pool.mapTx.lookup txid with
  | some entry => CCoins.fromTx entry.tx 0x7fffffff
  | none => if (pcoinsTip txid).isPruned then {} else pcoinsTip txid

namespace Node

variable (node : Node)

/-- `isBlockBetweenFakeSerialAttackRange` and the sporks as `AcceptToMemoryPool` hands them
to `CheckTransaction`. -/
def checkLooseTransaction (tx : CTransaction) : Except Failure Unit :=
  node.checkTransaction tx (node.params.nZerocoinStartHeight ≤ node.chainHeight)
    (node.isBlockBetweenFakeSerialAttackRange node.chainHeight)
    (node.isSporkActive .coldStakingEnforcement)

/-- The branch of `AcceptToMemoryPool` for a zerocoin spend: its id and its serials are not
in the chain. -/
def acceptSpend (tx : CTransaction) : Except Failure Unit := do
  require (node.isTransactionInChain tx.hash).isNone (.invalid 0 "bad-txns-inputs-spent")
  tx.zerocoinInputs.foldlM
    (fun _ txin =>
      match node.zerocoin.txInToZerocoinSpend txin with
      | none => .error .exception
      | some spend =>
        require (node.contextualCheckZerocoinSpend tx spend node.chainHeight)
          (.invalid 0 "bad-txns-invalid-zdogec"))
    ()

/-- The branch for any other transaction: its inputs are there and may be spent, and it
mints nothing that is known. -/
def acceptInputs (view : CoinsMap) (tx : CTransaction) : Except Failure Unit := do
  require (!view.haveCoins tx.hash) (.invalid 0 "")
  tx.vin.foldlM
    (fun _ txin => do
      require (view.haveCoins txin.prevout.hash) (.invalid 0 "")
      require (node.validOutPoint txin.prevout node.chainHeight)
        (.invalid 0 "bad-txns-invalid-inputs"))
    ()
  (tx.vout.filter CTxOut.isZerocoinMint).foldlM
    (fun _ out =>
      match node.zerocoin.txOutToPublicCoin out with
      | none => .error (.invalid 0 "")
      | some coin =>
        require (node.contextualCheckZerocoinMint coin node.chainHeight) (.invalid 0 ""))
    ()
  require (view.haveInputs tx) (.invalid 0 "bad-txns-inputs-spent")

/-- The checks of `AcceptToMemoryPool` that follow: standard inputs, signature operations,
fees and scripts. The view of a zerocoin spend has no coins. -/
def acceptCoins (policy : MempoolPolicy) (view : CoinsMap) (tx : CTransaction) :
    Except Failure Unit := do
  require (!policy.requireStandard || StandardInputs.areInputsStandard node.script.crypto view tx)
    (.invalid 0 "")
  require (tx.isZerocoinSpend || (tx.getLegacySigOpCount + view.getP2SHSigOpCount tx ≤ maxTxSigOps))
    (.invalid 0 "bad-txns-too-many-sigops")
  let nValueOut ← tx.getValueOutOrThrow
  let nFees := view.getValueIn tx - nValueOut
  require (policy.passesFees tx nFees) (.invalid 0 "insufficient fee")
  require (node.params.networkID = .regtest || nFees != 0) (.invalid 0 "")
  let fCLTVIsActive := node.params.nStartBIP65 ≤ node.chainHeight
  CheckInputs.checkInputs node.params node.script (node.chainHeight + 1) view
    (CheckInputs.mempoolFlags .standard fCLTVIsActive) true tx
  CheckInputs.checkInputs node.params node.script (node.chainHeight + 1) view
    (CheckInputs.mempoolFlags .mandatory fCLTVIsActive) true tx

/-- The checks of `AcceptToMemoryPool` before it looks at coins. -/
def acceptLoose (policy : MempoolPolicy) (pool : CTxMemPool) (tx : CTransaction) :
    Except Failure Unit := do
  require (!(node.isSporkActive .zerocoinMaintenanceMode && tx.containsZerocoins))
    (.invalid 10 "bad-tx")
  reported 100 "bad-tx" (node.checkLooseTransaction tx)
  require (!tx.isCoinBase) (.invalid 100 "coinbase")
  require (!tx.isCoinStake) (.invalid 100 "coinstake")
  require (policy.checkFinalTx tx) (.invalid 0 "non-final")
  require (!policy.requireStandard || policy.isStandardTx tx) (.invalid 0 "")
  require (pool.mapTx.lookup tx.hash).isNone (.invalid 0 "")
  require
    (tx.vin.all fun txin =>
      match node.mapLockedInputs txin.prevout with
      | none => true
      | some hash => hash == tx.hash)
    (.invalid 0 "tx-lock-conflict")
  require (tx.isZerocoinSpend || tx.vin.all fun txin => (pool.mapNextTx txin.prevout).isNone)
    (.invalid 0 "")

/-- The two branches of `AcceptToMemoryPool`. -/
def acceptKind (view : CoinsMap) (tx : CTransaction) : Except Failure Unit :=
  if tx.isZerocoinSpend then node.acceptSpend tx else node.acceptInputs view tx

/-- `AcceptToMemoryPool`, the pool afterwards. -/
def acceptToMemoryPool (policy : MempoolPolicy) (pcoinsTip : CoinsMap) (pool : CTxMemPool)
    (tx : CTransaction) : Except Failure CTxMemPool := do
  node.acceptLoose policy pool tx
  let view := if tx.isZerocoinSpend then fun _ => {} else pool.view pcoinsTip
  node.acceptKind view tx
  node.acceptCoins policy view tx
  return pool.addUnchecked ⟨tx, BitVec.ofNat 64 (node.txSerializeSize tx)⟩

variable {node} {policy : MempoolPolicy} {pcoinsTip : CoinsMap} {pool after : CTxMemPool}
  {tx : CTransaction}

/-- What is known of a transaction that was accepted. -/
structure Accepts (node : Node) (pool after : CTxMemPool) (tx : CTransaction) : Prop where
  checked : node.checkLooseTransaction tx = .ok ()
  acceptable : pool.acceptable tx = true
  unspent : tx.isZerocoinSpend = true → ∀ txin ∈ tx.zerocoinInputs, ∃ spend,
    node.zerocoin.txInToZerocoinSpend txin = some spend ∧
      node.isSerialInBlockchain spend.coinSerialNumber = false
  others : tx.isZerocoinSpend = false → tx.zerocoinInputs = []
  added : after = pool.addUnchecked ⟨tx, BitVec.ofNat 64 (node.txSerializeSize tx)⟩

theorem unspent_of_acceptSpend (ok : node.acceptSpend tx = .ok ()) :
    ∀ txin ∈ tx.zerocoinInputs, ∃ spend,
      node.zerocoin.txInToZerocoinSpend txin = some spend ∧
        node.isSerialInBlockchain spend.coinSerialNumber = false := by
  intro txin mem
  obtain ⟨-, loop⟩ := require_bind_eq_ok.mp ok
  have checked := foldlM_unit_eq_ok loop txin mem
  split at checked
  · cases checked
  · rename_i spend decodes
    have contextual := require_eq_ok.mp checked
    rw [contextualCheckZerocoinSpend, Bool.and_eq_true, Bool.not_eq_true'] at contextual
    exact ⟨spend, decodes, contextual.2⟩

theorem others_of_acceptCoins {view : CoinsMap} (notCoinBase : tx.isCoinBase = false)
    (notSpend : tx.isZerocoinSpend = false)
    (ok : node.acceptCoins policy view tx = .ok ()) : tx.zerocoinInputs = [] := by
  obtain ⟨-, ok⟩ := require_bind_eq_ok.mp ok
  obtain ⟨-, ok⟩ := require_bind_eq_ok.mp ok
  obtain ⟨_, -, ok⟩ := bind_eq_ok.mp ok
  obtain ⟨-, ok⟩ := require_bind_eq_ok.mp ok
  obtain ⟨-, ok⟩ := require_bind_eq_ok.mp ok
  obtain ⟨⟨⟩, checked, -⟩ := bind_eq_ok.mp ok
  have spends : tx.spendsCoins = true := CTransaction.spendsCoins_iff.mpr ⟨notCoinBase, notSpend⟩
  exact CheckInputs.zerocoinInputs_of_checkInputs spends checked

theorem accepts_of_acceptToMemoryPool
    (ok : node.acceptToMemoryPool policy pcoinsTip pool tx = .ok after) :
    node.Accepts pool after tx := by
  obtain ⟨⟨⟩, loose, ok⟩ := bind_eq_ok.mp ok
  obtain ⟨⟨⟩, kind, ok⟩ := bind_eq_ok.mp ok
  obtain ⟨⟨⟩, coins, ok⟩ := bind_eq_ok.mp ok
  cases ok
  obtain ⟨-, loose⟩ := require_bind_eq_ok.mp loose
  obtain ⟨⟨⟩, checked, loose⟩ := bind_eq_ok.mp loose
  obtain ⟨notCoinBase, loose⟩ := require_bind_eq_ok.mp loose
  obtain ⟨-, loose⟩ := require_bind_eq_ok.mp loose
  obtain ⟨-, loose⟩ := require_bind_eq_ok.mp loose
  obtain ⟨-, loose⟩ := require_bind_eq_ok.mp loose
  obtain ⟨new, loose⟩ := require_bind_eq_ok.mp loose
  obtain ⟨-, free⟩ := require_bind_eq_ok.mp loose
  refine ⟨reported_eq_ok.mp checked, ?_, fun spend => ?_, fun notSpend => ?_, rfl⟩
  · exact Bool.and_eq_true_iff.mpr ⟨new, require_eq_ok.mp free⟩
  · rw [acceptKind, if_pos spend] at kind
    exact unspent_of_acceptSpend kind
  · exact others_of_acceptCoins (by simpa using notCoinBase) notSpend coins

end Node

end DogeCash
