import DogeCash.Validation.BlockReads

/-! # Where `CheckBlock` reads

The loop of `CheckBlock` over the transactions, with its reads, and the whole function. It
reads inside the vectors of a block exactly when the block has what the reads take for
granted, at those reads that the checks before them let it reach.
-/

namespace DogeCash

open Refines (value plain bind foldlM inBounds_foldlM choice ok read)

namespace Node

variable (node : Node)

/-- One round of the loop over the outputs in `CheckTransaction`. -/
def checkTxOutRead (tx : CTransaction) (fZerocoinActive fColdStakingActive : Bool)
    (nValueOut : Int) (txout : CTxOut) : Except (Abort Failure) Int := do
  let _ ← if txout.isEmpty then tx.isCoinBaseRead else .ok false
  plainly (node.checkTxOut tx fZerocoinActive fColdStakingActive nValueOut txout)

/-- The checks of `CheckTransaction` before it asks whether the transaction is a spend,
without the reads. -/
def checkInputsAndOutputs (tx : CTransaction) (fZerocoinActive fColdStakingActive : Bool) :
    Except Failure Unit := do
  require (!tx.vin.isEmpty) (.invalid 10 "bad-txns-vin-empty")
  require (!tx.vout.isEmpty) (.invalid 10 "bad-txns-vout-empty")
  require (node.txSerializeSize tx ≤ maxZerocoinTxSize)
    (.invalid 100 "bad-txns-oversize")
  let _ ← tx.vout.foldlM (node.checkTxOut tx fZerocoinActive fColdStakingActive) 0
  require (noDuplicateInputs [] tx.vin) (.invalid 100 "bad-txns-inputs-duplicate")

/-- The same checks with their reads. -/
def checkInputsAndOutputsRead (tx : CTransaction) (fZerocoinActive fColdStakingActive : Bool) :
    Except (Abort Failure) Unit := do
  plainly (require (!tx.vin.isEmpty) (.invalid 10 "bad-txns-vin-empty"))
  plainly (require (!tx.vout.isEmpty) (.invalid 10 "bad-txns-vout-empty"))
  plainly (require (node.txSerializeSize tx ≤ maxZerocoinTxSize)
    (.invalid 100 "bad-txns-oversize"))
  let _ ← tx.vout.foldlM (node.checkTxOutRead tx fZerocoinActive fColdStakingActive) 0
  plainly (require (noDuplicateInputs [] tx.vin) (.invalid 100 "bad-txns-inputs-duplicate"))

/-- The script of a coinbase, and the outpoints of other transactions. -/
def checkPrevouts (tx : CTransaction) (fZerocoinActive : Bool) : Except Failure Unit :=
  if tx.isCoinBase then
    let size := (tx.vin.map fun txin => txin.scriptSig.length).headD 0
    require ((2 ≤ size) && (size ≤ 150)) (.invalid 100 "bad-cb-length")
  else
    require
      (tx.vin.all fun txin =>
        !(txin.prevout.isNull && (fZerocoinActive && !CScript.isZerocoinSpend txin.scriptSig)))
      (.invalid 10 "bad-txns-prevout-null")

/-- The same checks with their reads. -/
def checkPrevoutsRead (tx : CTransaction) (fZerocoinActive : Bool) :
    Except (Abort Failure) Unit := do
  let coinBase ← tx.isCoinBaseRead
  if coinBase then do
    let txin ← readAt tx.vin 0
    plainly (require ((2 ≤ txin.scriptSig.length) && (txin.scriptSig.length ≤ 150))
      (.invalid 100 "bad-cb-length"))
  else
    plainly (require
      (tx.vin.all fun txin =>
        !(txin.prevout.isNull && (fZerocoinActive && !CScript.isZerocoinSpend txin.scriptSig)))
      (.invalid 10 "bad-txns-prevout-null"))

/-- The checks made while zerocoin is active. -/
def checkZerocoinActiveRead (tx : CTransaction) (fZerocoinActive fFakeSerialAttack : Bool) :
    Except (Abort Failure) Unit :=
  if fZerocoinActive then do
    let _ ← tx.isZerocoinSpendRead
    plainly (node.checkZerocoinActive tx fFakeSerialAttack)
  else .ok ()

/-- `CheckTransaction` -/
def checkTransactionRead (tx : CTransaction) (fZerocoinActive fFakeSerialAttack : Bool)
    (fColdStakingActive : Bool) : Except (Abort Failure) Unit := do
  node.checkInputsAndOutputsRead tx fZerocoinActive fColdStakingActive
  node.checkZerocoinActiveRead tx fZerocoinActive fFakeSerialAttack
  checkPrevoutsRead tx fZerocoinActive

/-- One round of the loop of `CheckBlock` over the transactions. -/
def checkBlockTransactionRead (fZerocoinActive fColdStakingActive : Bool)
    (vBlockSerials : List Int) (tx : CTransaction) : Except (Abort Failure) (List Int) := do
  node.checkTransactionRead tx fZerocoinActive
    (node.isBlockBetweenFakeSerialAttackRange (node.chainHeight + 1)) fColdStakingActive
  let zerocoinSpend ← tx.isZerocoinSpendRead
  if zerocoinSpend then plainly (tx.zerocoinInputs.foldlM node.collectSerials vBlockSerials)
  else return vBlockSerials

/-- The header, the merkle root and the size. -/
def checkEnvelope (block : CBlock) : Except Failure Unit := do
  reported 100 "bad-header" (node.checkBlockHeader block !block.isProofOfStake)
  requireWhen true (node.checkMerkleRoot block)
  require
    (!block.vtx.isEmpty && (block.vtx.length ≤ maxBlockSizeCurrent) &&
      (node.blockSerializeSize block ≤ maxBlockSizeCurrent))
    (.invalid 100 "bad-blk-length")

/-- The checks of `CheckBlock` before it asks for the payee. -/
def checkShapeRead (block : CBlock) (isPoS : Bool) : Except (Abort Failure) Unit := do
  plainly (node.checkEnvelope block)
  checkCoinBaseRead block
  requireWhen isPoS (checkCoinStakeRead block)
  node.checkTransactionLocksRead block

end Node

/-- `CheckBlock` on a block that was received. -/
def Budgets.checkBlockRead (budgets : Budgets) (node : Node) (block : CBlock) :
    Except (Abort Failure) Unit := do
  let isPoS ← block.isProofOfStakeRead
  node.checkShapeRead block isPoS
  let fZerocoinActive := (node.params.nZerocoinStartTime < block.nTime.toNat)
  let fColdStakingActive ← budgets.checkPayeeRead node block
  let _ ← block.vtx.foldlM (node.checkBlockTransactionRead fZerocoinActive fColdStakingActive) []
  plainly (require ((block.vtx.map CTransaction.getLegacySigOpCount).sum ≤ maxBlockSigOps)
    (.invalid 100 "bad-blk-sigops"))

namespace Node

section Transactions

variable {node : Node} {tx : CTransaction} {fZerocoinActive fFakeSerialAttack : Bool}
  {fColdStakingActive : Bool}

private theorem refines_checkTxOutRead (nValueOut : Int) (txout : CTxOut) :
    Refines (node.checkTxOutRead tx fZerocoinActive fColdStakingActive nValueOut txout)
      (node.checkTxOut tx fZerocoinActive fColdStakingActive nValueOut txout) := by
  unfold checkTxOutRead
  cases txout.isEmpty with
  | true => exact value CTransaction.refines_isCoinBaseRead (plain _)
  | false => exact plain _

private theorem inBounds_checkTxOutRead (inside : tx.CoinBaseInside) (nValueOut : Int)
    (txout : CTxOut) :
    InBounds (node.checkTxOutRead tx fZerocoinActive fColdStakingActive nValueOut txout) := by
  have asked := CTransaction.inBounds_isCoinBaseRead.mpr inside
  unfold checkTxOutRead
  cases txout.isEmpty with
  | true => exact inBounds_bind.mpr ⟨asked, fun _ _ => inBounds_plainly _⟩
  | false => exact inBounds_plainly _

theorem refines_checkInputsAndOutputsRead :
    Refines (node.checkInputsAndOutputsRead tx fZerocoinActive fColdStakingActive)
      (node.checkInputsAndOutputs tx fZerocoinActive fColdStakingActive) := by
  refine bind (plain _) fun _ => ?_
  refine bind (plain _) fun _ => ?_
  refine bind (plain _) fun _ => ?_
  refine bind (foldlM refines_checkTxOutRead _ _) fun _ => ?_
  exact plain _

theorem inBounds_checkInputsAndOutputsRead (inside : tx.CoinBaseInside) :
    InBounds (node.checkInputsAndOutputsRead tx fZerocoinActive fColdStakingActive) := by
  unfold checkInputsAndOutputsRead
  simp only [inBounds_bind, inBounds_plainly, true_and, implies_true, and_true]
  intro _ _ _ _ _ _
  rw [inBounds_foldlM refines_checkTxOutRead]
  intro _ txout _ nValueOut _ _
  exact inBounds_checkTxOutRead inside nValueOut txout

theorem refines_checkZerocoinActiveRead :
    Refines (node.checkZerocoinActiveRead tx fZerocoinActive fFakeSerialAttack)
      (requireWhen fZerocoinActive (node.checkZerocoinActive tx fFakeSerialAttack)) := by
  refine choice (fun _ => ?_) fun _ => ok ()
  exact value CTransaction.refines_isZerocoinSpendRead (plain _)

theorem inBounds_checkZerocoinActiveRead :
    InBounds (node.checkZerocoinActiveRead tx fZerocoinActive fFakeSerialAttack) ↔
      (fZerocoinActive = true → tx.SpendInside) := by
  unfold checkZerocoinActiveRead
  cases fZerocoinActive with
  | true => simp [inBounds_bind, CTransaction.inBounds_isZerocoinSpendRead]
  | false => simp

theorem refines_checkPrevoutsRead :
    Refines (checkPrevoutsRead tx fZerocoinActive) (checkPrevouts tx fZerocoinActive) := by
  apply value CTransaction.refines_isCoinBaseRead
  refine choice (fun _ => ?_) fun _ => plain _
  refine read fun txin found => ?_
  have size : (tx.vin.map fun txin => txin.scriptSig.length).headD 0 = txin.scriptSig.length := by
    rw [List.headD_eq_head?_getD, List.head?_map, List.head?_eq_getElem?, found]
    rfl
  rw [size]
  exact plain _

theorem inBounds_checkPrevoutsRead (inside : tx.CoinBaseInside) :
    InBounds (checkPrevoutsRead tx fZerocoinActive) := by
  unfold checkPrevoutsRead
  rw [Refines.inBounds_bind CTransaction.refines_isCoinBaseRead]
  refine ⟨CTransaction.inBounds_isCoinBaseRead.mpr inside, fun coinBase same => ?_⟩
  cases same
  cases isCoinBase : tx.isCoinBase with
  | false => exact inBounds_plainly _
  | true =>
    refine inBounds_bind.mpr ⟨inBounds_readAt.mpr ?_, fun _ _ => inBounds_plainly _⟩
    unfold CTransaction.isCoinBase at isCoinBase
    split at isCoinBase
    · rename_i single
      simp [single]
    · cases isCoinBase

theorem checkTransaction_eq :
    node.checkTransaction tx fZerocoinActive fFakeSerialAttack fColdStakingActive = (do
      node.checkInputsAndOutputs tx fZerocoinActive fColdStakingActive
      requireWhen fZerocoinActive (node.checkZerocoinActive tx fFakeSerialAttack)
      checkPrevouts tx fZerocoinActive) := by
  simp [checkTransaction, checkInputsAndOutputs, checkPrevouts]

theorem refines_checkTransactionRead :
    Refines (node.checkTransactionRead tx fZerocoinActive fFakeSerialAttack fColdStakingActive)
      (node.checkTransaction tx fZerocoinActive fFakeSerialAttack fColdStakingActive) := by
  rw [checkTransaction_eq]
  refine bind refines_checkInputsAndOutputsRead fun _ => ?_
  exact bind refines_checkZerocoinActiveRead fun _ => refines_checkPrevoutsRead

theorem refines_checkBlockTransactionRead (vBlockSerials : List Int) (tx : CTransaction) :
    Refines
      (node.checkBlockTransactionRead fZerocoinActive fColdStakingActive vBlockSerials tx)
      (node.checkBlockTransaction fZerocoinActive fColdStakingActive vBlockSerials tx) := by
  refine bind refines_checkTransactionRead fun _ => ?_
  apply value CTransaction.refines_isZerocoinSpendRead
  exact choice (fun _ => plain _) fun _ => ok _

/-- A transaction whose first input has an empty script and no transaction to spend from gets
as far as `IsZerocoinSpend`, once its outputs and outpoints have passed. -/
theorem checkTransaction_eq_ok_of_outside (inside : tx.CoinBaseInside) (outside : ¬tx.SpendInside)
    (passed : node.checkInputsAndOutputs tx false fColdStakingActive = .ok ()) :
    node.checkTransaction tx false fFakeSerialAttack fColdStakingActive = .ok () := by
  rw [checkTransaction_eq, passed]
  change checkPrevouts tx false = .ok ()
  unfold checkPrevouts
  rw [if_neg, require_eq_ok]
  · simp
  · intro coinBase
    apply outside
    intro txin head _
    unfold CTransaction.isCoinBase at coinBase
    split at coinBase
    · rename_i single
      rw [single] at head
      cases head
      rw [Bool.and_eq_true] at coinBase
      exact inside _ single coinBase.1
    · cases coinBase

theorem inBounds_checkBlockTransactionRead (inside : tx.CoinBaseInside)
    (vBlockSerials : List Int) :
    InBounds (node.checkBlockTransactionRead fZerocoinActive fColdStakingActive vBlockSerials tx) ↔
      (node.checkInputsAndOutputs tx fZerocoinActive fColdStakingActive = .ok () →
        tx.SpendInside) := by
  unfold checkBlockTransactionRead
  rw [Refines.inBounds_bind refines_checkTransactionRead]
  constructor
  · intro bounds passed
    by_contra outside
    unfold checkTransactionRead at bounds
    rw [Refines.inBounds_bind refines_checkInputsAndOutputsRead] at bounds
    have spend := inBounds_bind.mp (bounds.1.2 () passed)
    cases fZerocoinActive with
    | true => exact outside (inBounds_checkZerocoinActiveRead.mp spend.1 rfl)
    | false =>
      have later := bounds.2 () (checkTransaction_eq_ok_of_outside inside outside passed)
      exact outside (CTransaction.inBounds_isZerocoinSpendRead.mp (inBounds_bind.mp later).1)
  · intro spend
    refine ⟨?_, fun _ passed => ?_⟩
    · unfold checkTransactionRead
      rw [Refines.inBounds_bind refines_checkInputsAndOutputsRead]
      refine ⟨inBounds_checkInputsAndOutputsRead inside, fun _ passed => ?_⟩
      refine inBounds_bind.mpr
        ⟨inBounds_checkZerocoinActiveRead.mpr fun _ => spend passed, fun _ _ => ?_⟩
      exact inBounds_checkPrevoutsRead inside
    · rw [checkTransaction_eq] at passed
      obtain ⟨_, before, -⟩ := bind_eq_ok.mp passed
      refine inBounds_bind.mpr
        ⟨CTransaction.inBounds_isZerocoinSpendRead.mpr (spend before), fun zerocoinSpend _ => ?_⟩
      cases zerocoinSpend with
      | true => exact inBounds_plainly _
      | false => exact inBounds_ok _

end Transactions

end Node

/-- The checks of `CheckBlock` before it asks for the payee, without the reads. -/
def Node.checkShape (node : Node) (block : CBlock) : Except Failure Unit := do
  node.checkEnvelope block
  checkCoinBase block
  requireWhen block.isProofOfStake (checkCoinStake block)
  node.checkTransactionLocks block

namespace Node

variable {node : Node} {block : CBlock}

private theorem refines_stakeShape :
    Refines (requireWhen block.isProofOfStake (checkCoinStakeRead block))
      (requireWhen block.isProofOfStake (checkCoinStake block)) := by
  refine choice (fun proofOfStake => ?_) fun _ => ok ()
  rw [checkCoinStakeRead_eq proofOfStake]
  exact plain _

theorem refines_checkShapeRead :
    Refines (node.checkShapeRead block block.isProofOfStake) (node.checkShape block) := by
  refine bind (plain _) fun _ => ?_
  refine bind refines_checkCoinBaseRead fun _ => ?_
  exact bind refines_stakeShape fun _ => refines_checkTransactionLocksRead

theorem inBounds_checkShapeRead :
    InBounds (node.checkShapeRead block block.isProofOfStake) ↔
      (node.checkEnvelope block = .ok () → CoinBasesInside block) := by
  unfold checkShapeRead
  rw [Refines.inBounds_bind (plain _)]
  constructor
  · intro bounds passed
    exact inBounds_checkCoinBaseRead.mp (inBounds_bind.mp (bounds.2 () passed)).1
  · intro inside
    refine ⟨inBounds_plainly _, fun _ passed => ?_⟩
    rw [Refines.inBounds_bind refines_checkCoinBaseRead]
    refine ⟨inBounds_checkCoinBaseRead.mpr (inside passed), fun _ searched => ?_⟩
    refine inBounds_bind.mpr ⟨?_, fun _ _ => ?_⟩
    · unfold requireWhen
      split
      · rename_i proofOfStake
        rw [checkCoinStakeRead_eq proofOfStake]
        exact inBounds_plainly _
      · exact inBounds_ok ()
    · exact inBounds_checkTransactionLocksRead ((inside passed).all searched)

theorem checkShape_eq_ok (passed : node.checkShape block = .ok ()) :
    node.checkEnvelope block = .ok () ∧ checkCoinBase block = .ok () := by
  obtain ⟨_, envelope, passed⟩ := bind_eq_ok.mp passed
  obtain ⟨_, coinBase, -⟩ := bind_eq_ok.mp passed
  exact ⟨envelope, coinBase⟩

theorem vtx_ne_nil_of_checkCoinBase (passed : checkCoinBase block = .ok ()) : block.vtx ≠ [] := by
  intro empty
  rw [checkCoinBase, empty] at passed
  cases passed

end Node

namespace Budgets

/-- Where `CheckBlock` reads inside the vectors of a block: at each read that no test of a
length precedes, if the checks before it let the block get there. -/
structure CheckBlockInside (budgets : Budgets) (node : Node) (block : CBlock) : Prop where
  coinBases : node.checkEnvelope block = .ok () → Node.CoinBasesInside block
  payee : node.checkShape block = .ok () → node.payeeIsSecond block = true → 1 < block.vtx.length
  payment : node.checkShape block = .ok () → budgets.PaymentInside node block
  spends : node.checkShape block = .ok () → ∀ fColdStakingActive,
    (node.withBudgets budgets).checkPayee block = .ok fColdStakingActive →
    ∀ before tx after vBlockSerials, block.vtx = before ++ tx :: after →
      before.foldlM
        (node.checkBlockTransaction (node.params.nZerocoinStartTime < block.nTime.toNat)
          fColdStakingActive) [] = .ok vBlockSerials →
      node.checkInputsAndOutputs tx (node.params.nZerocoinStartTime < block.nTime.toNat)
        fColdStakingActive = .ok () →
      tx.SpendInside

variable {budgets : Budgets} {node : Node} {block : CBlock}

theorem checkBlock_eq :
    (node.withBudgets budgets).checkBlock block true = (do
      node.checkShape block
      let fColdStakingActive ← (node.withBudgets budgets).checkPayee block
      let _ ← block.vtx.foldlM
        (node.checkBlockTransaction (node.params.nZerocoinStartTime < block.nTime.toNat)
          fColdStakingActive) []
      require ((block.vtx.map CTransaction.getLegacySigOpCount).sum ≤ maxBlockSigOps)
        (.invalid 100 "bad-blk-sigops")) := by
  simp only [Node.checkShape, Node.checkEnvelope, bind_assoc]
  rfl

theorem refines_checkBlockRead :
    Refines (budgets.checkBlockRead node block)
      ((node.withBudgets budgets).checkBlock block true) := by
  rw [checkBlock_eq]
  unfold checkBlockRead
  rw [CBlock.isProofOfStakeRead_eq]
  refine bind Node.refines_checkShapeRead fun _ => ?_
  refine bind refines_checkPayeeRead fun _ => ?_
  refine bind (foldlM Node.refines_checkBlockTransactionRead _ _) fun _ => ?_
  exact plain _

theorem inBounds_checkBlockRead :
    InBounds (budgets.checkBlockRead node block) ↔ budgets.CheckBlockInside node block := by
  unfold checkBlockRead
  rw [CBlock.isProofOfStakeRead_eq]
  change InBounds (node.checkShapeRead block block.isProofOfStake >>= _) ↔ _
  rw [Refines.inBounds_bind Node.refines_checkShapeRead, Node.inBounds_checkShapeRead]
  constructor
  · rintro ⟨coinBases, later⟩
    have payee : node.checkShape block = .ok () →
        (node.payeeIsSecond block = true → 1 < block.vtx.length) ∧
          budgets.PaymentInside node block := by
      intro shape
      obtain ⟨-, searched⟩ := Node.checkShape_eq_ok shape
      exact (inBounds_checkPayeeRead (Node.vtx_ne_nil_of_checkCoinBase searched)).mp
        (inBounds_bind.mp (later () shape)).1
    refine ⟨coinBases, fun shape => (payee shape).1, fun shape => (payee shape).2,
      fun shape fColdStakingActive payee => ?_⟩
    · intro before tx after vBlockSerials split passed
      obtain ⟨envelope, searched⟩ := Node.checkShape_eq_ok shape
      have mem : tx ∈ block.vtx := by
        rw [split]
        simp
      have rounds := ((Refines.inBounds_bind refines_checkPayeeRead).mp (later () shape)).2
        fColdStakingActive payee
      have round := (inBounds_foldlM Node.refines_checkBlockTransactionRead).mp
        (inBounds_bind.mp rounds).1 before tx after vBlockSerials split passed
      exact (Node.inBounds_checkBlockTransactionRead
        ((coinBases envelope).all searched tx mem) vBlockSerials).mp round
  · intro inside
    refine ⟨inside.coinBases, fun _ shape => ?_⟩
    obtain ⟨envelope, searched⟩ := Node.checkShape_eq_ok shape
    rw [Refines.inBounds_bind refines_checkPayeeRead]
    refine ⟨?_, fun fColdStakingActive payee => ?_⟩
    · exact (inBounds_checkPayeeRead (Node.vtx_ne_nil_of_checkCoinBase searched)).mpr
        ⟨inside.payee shape, inside.payment shape⟩
    · refine inBounds_bind.mpr ⟨?_, fun _ _ => inBounds_plainly _⟩
      rw [inBounds_foldlM Node.refines_checkBlockTransactionRead]
      intro before tx after vBlockSerials split passed
      have mem : tx ∈ block.vtx := by
        rw [split]
        simp
      apply (Node.inBounds_checkBlockTransactionRead
        ((inside.coinBases envelope).all searched tx mem) vBlockSerials).mpr
      exact inside.spends shape fColdStakingActive payee before tx after vBlockSerials split passed

end Budgets

end DogeCash
