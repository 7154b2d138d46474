import DogeCash.Validation.CheckBlockReads

/-! # Where `CheckTransaction` reads in scripts

While zerocoin is active `CheckTransaction` takes coins out of scripts: `TxOutToPublicCoin`
takes the bytes of a mint's script from a fixed offset on, `TxInToZerocoinSpend` those of a
spend's. Neither asks for the length, nor does `IsZerocoinSpend` before it reads the first
byte. The functions here have each of these reads, at their place among the checks.
-/

namespace DogeCash

open Refines (bind choice foldlM)

/-- `BIGNUM_SIZE`: where a spend's script has its coin. -/
def bignumSize : ℕ := 4

/-- `SCRIPT_OFFSET`: where a mint's script has its coin. -/
def scriptOffset : ℕ := 6

namespace Node

/-- An output is empty only in a coinbase or a coinstake. -/
def checkEmptyOutRead (tx : CTransaction) (txout : CTxOut) : Except (Abort Failure) Unit :=
  if txout.isEmpty then do
    let coinBase ← tx.isCoinBaseRead
    if coinBase then return ()
    else do
      let coinStake ← tx.isCoinStakeRead
      plainly (require coinStake (.invalid 100 ""))
  else return ()

variable (node : Node)

/-- The checks of the value of an output. -/
def checkOutValue (nValueOut : Int) (txout : CTxOut) : Except Failure Unit := do
  require (0 ≤ txout.nValue) (.invalid 100 "bad-txns-vout-negative")
  require (txout.nValue ≤ node.params.nMaxMoneyOut) (.invalid 100 "bad-txns-vout-toolarge")
  require (node.params.moneyRange (nValueOut + txout.nValue))
    (.invalid 100 "bad-txns-txouttotal-toolarge")

/-- The checks of an output for cold staking. -/
def checkDelegation (fColdStakingActive : Bool) (txout : CTxOut) : Except Failure Unit :=
  requireWhen (CScript.isPayToColdStaking txout.scriptPubKey) do
    require fColdStakingActive (.invalid 10 "bad-txns-cold-stake")
    require (node.params.nMinColdStakingAmount ≤ txout.nValue)
      (.invalid 100 "bad-txns-cold-stake")

/-- `CheckZerocoinMint`, which starts with `TxOutToPublicCoin`. -/
def checkZerocoinMintRead (txout : CTxOut) : Except (Abort Failure) Unit := do
  let _ ← readFrom txout.scriptPubKey scriptOffset
  plainly (reported 100 "" (node.checkZerocoinMint txout))

/-- One round of the loop over the outputs in `CheckTransaction`. -/
def checkTxOutScriptRead (tx : CTransaction) (fZerocoinActive fColdStakingActive : Bool)
    (nValueOut : Int) (txout : CTxOut) : Except (Abort Failure) Int := do
  checkEmptyOutRead tx txout
  plainly (node.checkOutValue nValueOut txout)
  requireWhen (fZerocoinActive && txout.isZerocoinMint) (node.checkZerocoinMintRead txout)
  plainly (node.checkDelegation fColdStakingActive txout)
  return nValueOut + txout.nValue

/-- One round of the loop in `CheckZerocoinSpend`, which starts with
`TxInToZerocoinSpend`. -/
def redeemInputRead (tx : CTransaction) (fVerifySignature fFakeSerialAttack : Bool)
    (redemption : Redemption) (txin : CTxIn) : Except (Abort Failure) Redemption := do
  let _ ← readFrom txin.scriptSig bignumSize
  plainly (node.redeemInput tx fVerifySignature fFakeSerialAttack redemption txin)

/-- The checks of `CheckZerocoinSpend` before its loop. -/
def checkSpendOuts (tx : CTransaction) : Except Failure Unit :=
  let outs := (tx.vout.filter fun out => !out.isZerocoinMint).length
  require (!((2 < tx.vout.length) && (2 < outs) && !tx.isCoinStake)) (.invalid 100 "")

/-- The checks of `CheckZerocoinSpend` after its loop. -/
def checkRedemption (tx : CTransaction) (redemption : Redemption) : Except Failure Unit := do
  let nValueOut ← if tx.isCoinStake then .ok 0 else tx.getValueOutOrThrow
  require (tx.isCoinStake || (nValueOut ≤ redemption.nTotalRedeemed)) (.invalid 100 "")
  require redemption.fValidated (.invalid 0 "")

/-- `CheckZerocoinSpend`, up to the reason that `CheckTransaction` reports. -/
def checkZerocoinSpendRead (tx : CTransaction) (fVerifySignature fFakeSerialAttack : Bool) :
    Except (Abort Failure) Unit := do
  plainly (checkSpendOuts tx)
  let redemption ←
    tx.zerocoinInputs.foldlM (node.redeemInputRead tx fVerifySignature fFakeSerialAttack) {}
  plainly (checkRedemption tx redemption)

/-- `fVerifySignature` in `CheckTransaction`: no signatures are verified during the initial
download, nor under a tip that is a day old. -/
def verifiesSpends (tip : ChainTip) : Bool :=
  !node.isInitialBlockDownload && (node.getTime - tip.nTime < 60 * 60 * 24)

end Node

/-- `reported`, for a check that reads. -/
def reportedRead {α : Type} (nDoS : ℕ) (reason : String) :
    Except (Abort Failure) α → Except (Abort Failure) α
  | .error (.failed (.invalid before _)) => .error (.failed (.invalid (before + nDoS) reason))
  | outcome => outcome

namespace Node

variable (node : Node)

/-- The inputs of a zerocoin spend, as `CheckTransaction` checks them. -/
def checkSpendRead (tx : CTransaction) (fFakeSerialAttack : Bool) :
    Except (Abort Failure) Unit := do
  plainly (require (tx.vin.all fun txin => CScript.isZerocoinSpend txin.scriptSig)
    (.invalid 100 ""))
  match node.tip with
  | none => .error (.failed .exception)
  | some tip =>
    reportedRead 100 ""
      (node.checkZerocoinSpendRead tx (node.verifiesSpends tip) fFakeSerialAttack)

/-- The checks of `CheckTransaction` that are made only while zerocoin is active. -/
def checkZerocoinActiveScriptRead (tx : CTransaction) (fFakeSerialAttack : Bool) :
    Except (Abort Failure) Unit := do
  let nZCSpendCount : Int := 0
  plainly (require (nZCSpendCount ≤ node.params.nMaxZerocoinSpendsPerTransaction)
    (.invalid 100 ""))
  let zerocoinSpend ← tx.isZerocoinSpendRead
  requireWhen zerocoinSpend (node.checkSpendRead tx fFakeSerialAttack)

/-- The checks of `CheckTransaction` before its loops. -/
def checkSizes (tx : CTransaction) : Except Failure Unit := do
  require (!tx.vin.isEmpty) (.invalid 10 "bad-txns-vin-empty")
  require (!tx.vout.isEmpty) (.invalid 10 "bad-txns-vout-empty")
  require (node.txSerializeSize tx ≤ maxZerocoinTxSize)
    (.invalid 100 "bad-txns-oversize")

/-- The checks of `CheckTransaction` up to those made only while zerocoin is active. -/
def checkOutsAndInputs (tx : CTransaction) (fZerocoinActive fColdStakingActive : Bool) :
    Except (Abort Failure) Unit := do
  plainly (node.checkSizes tx)
  let _ ← tx.vout.foldlM (node.checkTxOutScriptRead tx fZerocoinActive fColdStakingActive) 0
  plainly (require (noDuplicateInputs [] tx.vin) (.invalid 100 "bad-txns-inputs-duplicate"))

/-- `CheckTransaction` -/
def checkTransactionScriptRead (tx : CTransaction) (fZerocoinActive fFakeSerialAttack : Bool)
    (fColdStakingActive : Bool) : Except (Abort Failure) Unit := do
  node.checkOutsAndInputs tx fZerocoinActive fColdStakingActive
  requireWhen fZerocoinActive (node.checkZerocoinActiveScriptRead tx fFakeSerialAttack)
  checkPrevoutsRead tx fZerocoinActive

section Refinement

variable {node : Node} {tx : CTransaction} {fVerifySignature fFakeSerialAttack : Bool}
  {fZerocoinActive fColdStakingActive : Bool}

variable {α : Type} {nDoS : ℕ} {reason : String} {reading : Except (Abort Failure) α}

theorem inBounds_reportedRead : InBounds (reportedRead nDoS reason reading) ↔ InBounds reading := by
  unfold reportedRead
  split
  · exact iff_of_true (inBounds_failed _) (inBounds_failed _)
  · exact Iff.rfl

theorem refines_reportedRead {plain : Except Failure α} (refines : Refines reading plain) :
    Refines (reportedRead nDoS reason reading) (reported nDoS reason plain) := by
  intro bounds
  rw [refines (inBounds_reportedRead.mp bounds)]
  cases plain with
  | ok value => rfl
  | error failure => cases failure <;> rfl

theorem refines_checkEmptyOutRead (txout : CTxOut) :
    Refines (checkEmptyOutRead tx txout)
      (require (!(txout.isEmpty && !tx.isCoinBase && !tx.isCoinStake)) (.invalid 100 "")) := by
  unfold checkEmptyOutRead
  cases txout.isEmpty with
  | false => exact Refines.ok ()
  | true =>
    apply Refines.value CTransaction.refines_isCoinBaseRead
    cases tx.isCoinBase with
    | true => exact Refines.ok ()
    | false =>
      rw [CTransaction.isCoinStakeRead_eq]
      change Refines (plainly (require tx.isCoinStake _)) (require (!!tx.isCoinStake) _)
      rw [Bool.not_not]
      exact Refines.plain _

theorem inBounds_checkEmptyOutRead {txout : CTxOut} :
    InBounds (checkEmptyOutRead tx txout) ↔ (txout.isEmpty = true → tx.CoinBaseInside) := by
  unfold checkEmptyOutRead
  cases txout.isEmpty with
  | false => exact iff_of_true (inBounds_ok ()) (fun absent => absurd absent (by simp))
  | true =>
    rw [if_pos rfl, inBounds_bind, CTransaction.inBounds_isCoinBaseRead]
    refine (and_iff_left fun coinBase _ => ?_).trans (by simp)
    rw [CTransaction.isCoinStakeRead_eq]
    cases coinBase with
    | true => exact inBounds_ok ()
    | false => exact inBounds_plainly (require tx.isCoinStake _)

theorem checkTxOut_eq (nValueOut : Int) (txout : CTxOut) :
    node.checkTxOut tx fZerocoinActive fColdStakingActive nValueOut txout = (do
      require (!(txout.isEmpty && !tx.isCoinBase && !tx.isCoinStake)) (.invalid 100 "")
      node.checkOutValue nValueOut txout
      requireWhen (fZerocoinActive && txout.isZerocoinMint)
        (reported 100 "" (node.checkZerocoinMint txout))
      node.checkDelegation fColdStakingActive txout
      return nValueOut + txout.nValue) := by
  simp only [checkTxOut, checkOutValue, checkDelegation, bind_assoc]

theorem refines_checkTxOutScriptRead (nValueOut : Int) (txout : CTxOut) :
    Refines (node.checkTxOutScriptRead tx fZerocoinActive fColdStakingActive nValueOut txout)
      (node.checkTxOut tx fZerocoinActive fColdStakingActive nValueOut txout) := by
  rw [checkTxOut_eq]
  refine bind (refines_checkEmptyOutRead txout) fun _ => ?_
  refine bind (Refines.plain _) fun _ => ?_
  refine bind ?_ fun _ => ?_
  · refine choice (fun _ => ?_) fun _ => Refines.ok ()
    exact Refines.readFrom (Refines.plain _)
  · exact bind (Refines.plain _) fun _ => Refines.ok _

theorem refines_redeemInputRead (redemption : Redemption) (txin : CTxIn) :
    Refines (node.redeemInputRead tx fVerifySignature fFakeSerialAttack redemption txin)
      (node.redeemInput tx fVerifySignature fFakeSerialAttack redemption txin) :=
  Refines.readFrom (Refines.plain _)

theorem refines_checkZerocoinSpendRead :
    Refines (node.checkZerocoinSpendRead tx fVerifySignature fFakeSerialAttack)
      (node.checkZerocoinSpend tx fVerifySignature fFakeSerialAttack) := by
  refine bind (Refines.plain _) fun _ => ?_
  exact bind (foldlM refines_redeemInputRead _ _) fun _ => Refines.plain _

/-- The inputs of a zerocoin spend, without the reads. -/
def checkSpend (node : Node) (tx : CTransaction) (fFakeSerialAttack : Bool) :
    Except Failure Unit := do
  require (tx.vin.all fun txin => CScript.isZerocoinSpend txin.scriptSig) (.invalid 100 "")
  match node.tip with
  | none => .error .exception
  | some tip =>
    reported 100 "" (node.checkZerocoinSpend tx (node.verifiesSpends tip) fFakeSerialAttack)

theorem refines_checkSpendRead :
    Refines (node.checkSpendRead tx fFakeSerialAttack) (node.checkSpend tx fFakeSerialAttack) := by
  refine bind (Refines.plain _) fun _ => ?_
  cases node.tip with
  | none => exact Refines.plain (.error Failure.exception)
  | some tip => exact refines_reportedRead refines_checkZerocoinSpendRead

theorem refines_checkZerocoinActiveScriptRead :
    Refines (node.checkZerocoinActiveScriptRead tx fFakeSerialAttack)
      (node.checkZerocoinActive tx fFakeSerialAttack) := by
  refine bind (Refines.plain _) fun _ => ?_
  apply Refines.value CTransaction.refines_isZerocoinSpendRead
  exact choice (fun _ => refines_checkSpendRead) fun _ => Refines.ok ()

theorem checkInputsAndOutputs_eq :
    node.checkInputsAndOutputs tx fZerocoinActive fColdStakingActive = (do
      node.checkSizes tx
      let _ ← tx.vout.foldlM (node.checkTxOut tx fZerocoinActive fColdStakingActive) 0
      require (noDuplicateInputs [] tx.vin) (.invalid 100 "bad-txns-inputs-duplicate")) := by
  simp only [checkInputsAndOutputs, checkSizes, bind_assoc]

theorem refines_checkOutsAndInputs :
    Refines (node.checkOutsAndInputs tx fZerocoinActive fColdStakingActive)
      (node.checkInputsAndOutputs tx fZerocoinActive fColdStakingActive) := by
  rw [checkInputsAndOutputs_eq]
  refine bind (Refines.plain _) fun _ => ?_
  exact bind (foldlM refines_checkTxOutScriptRead _ _) fun _ => Refines.plain _

/-- As long as it reads inside the scripts, `CheckTransaction` does what it does without the
reads. -/
theorem refines_checkTransactionScriptRead :
    Refines
      (node.checkTransactionScriptRead tx fZerocoinActive fFakeSerialAttack fColdStakingActive)
      (node.checkTransaction tx fZerocoinActive fFakeSerialAttack fColdStakingActive) := by
  rw [checkTransaction_eq]
  refine bind refines_checkOutsAndInputs fun _ => ?_
  refine bind ?_ fun _ => refines_checkPrevoutsRead
  exact choice (fun _ => refines_checkZerocoinActiveScriptRead) fun _ => Refines.ok ()

end Refinement

end Node

end DogeCash
