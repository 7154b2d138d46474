import DogeCash.Validation.Node

/-! # Checking a transaction without its context

`CheckTransaction` looks at a transaction alone: its size, its output values, its
inputs. The checks of zerocoin spends (`CheckZerocoinSpend`) are among those it makes
only once zerocoin is active.
-/

namespace DogeCash

namespace Node

variable (node : Node)

def checkZerocoinMint (txout : CTxOut) : Except Failure Unit :=
  match node.zerocoin.txOutToPublicCoin txout with
  | none => .error (.invalid 200 "")
  | some pubCoin => require pubCoin.validate (.invalid 100 "")

/-- The state of the loop in `CheckZerocoinSpend`. -/
structure Redemption where
  serials : List Int := []
  nTotalRedeemed : Int := 0
  fValidated : Bool := false

/-- One round of the loop in `CheckZerocoinSpend`, for an input that is a spend. -/
def redeemInput (tx : CTransaction) (fVerifySignature fFakeSerialAttack : Bool)
    (redemption : Redemption) (txin : CTxIn) : Except Failure Redemption :=
  match node.zerocoin.txInToZerocoinSpend txin with
  | none => .error .exception
  | some newSpend => do
    require (newSpend.denomination != .error) (.invalid 100 "")
    require (newSpend.denomination.toInt == txin.nSequence.toNat) (.invalid 100 "")
    require (newSpend.ptxHash == node.zerocoin.txOutHash tx.vout) (.invalid 100 "")
    requireWhen fVerifySignature <|
      match node.zerocoin.readAccumulatorValue newSpend.accChecksum with
      | none => .error (.invalid 100 "")
      | some value => require (newSpend.verify value !fFakeSerialAttack) (.invalid 100 "")
    require (!redemption.serials.contains newSpend.coinSerialNumber) (.invalid 100 "")
    return {
      serials := newSpend.coinSerialNumber :: redemption.serials
      nTotalRedeemed := redemption.nTotalRedeemed + newSpend.denomination.toAmount
      fValidated := true }

def checkZerocoinSpend (tx : CTransaction) (fVerifySignature fFakeSerialAttack : Bool) :
    Except Failure Unit := do
  let outs := (tx.vout.filter fun out => !out.isZerocoinMint).length
  require (!((2 < tx.vout.length) && (2 < outs) && !tx.isCoinStake))
    (.invalid 100 "")
  let redemption ←
    tx.zerocoinInputs.foldlM (node.redeemInput tx fVerifySignature fFakeSerialAttack) {}
  let nValueOut ← if tx.isCoinStake then .ok 0 else tx.getValueOutOrThrow
  require (tx.isCoinStake || (nValueOut ≤ redemption.nTotalRedeemed)) (.invalid 100 "")
  require redemption.fValidated (.invalid 0 "")

/-- One round of the loop over the outputs in `CheckTransaction`. -/
def checkTxOut (tx : CTransaction) (fZerocoinActive fColdStakingActive : Bool)
    (nValueOut : Int) (txout : CTxOut) : Except Failure Int := do
  require (!(txout.isEmpty && !tx.isCoinBase && !tx.isCoinStake)) (.invalid 100 "")
  require (0 ≤ txout.nValue) (.invalid 100 "bad-txns-vout-negative")
  require (txout.nValue ≤ node.params.nMaxMoneyOut)
    (.invalid 100 "bad-txns-vout-toolarge")
  require (node.params.moneyRange (nValueOut + txout.nValue))
    (.invalid 100 "bad-txns-txouttotal-toolarge")
  requireWhen (fZerocoinActive && txout.isZerocoinMint)
    (reported 100 "" (node.checkZerocoinMint txout))
  requireWhen (CScript.isPayToColdStaking txout.scriptPubKey) do
    require fColdStakingActive (.invalid 10 "bad-txns-cold-stake")
    require (node.params.nMinColdStakingAmount ≤ txout.nValue)
      (.invalid 100 "bad-txns-cold-stake")
  return nValueOut + txout.nValue

/-- The loop over the inputs in `CheckTransaction`: an outpoint that was seen before
is a duplicate, and those of zerocoin spends are not remembered. -/
def noDuplicateInputs : List COutPoint → List CTxIn → Bool
  | _, [] => true
  | vInOutPoints, txin :: rest =>
    !vInOutPoints.contains txin.prevout &&
      noDuplicateInputs
        (if CScript.isZerocoinSpend txin.scriptSig then vInOutPoints
          else txin.prevout :: vInOutPoints)
        rest

/-- The checks of `CheckTransaction` that are made only while zerocoin is active. The
number of spends they compare with the limit is never counted. -/
def checkZerocoinActive (tx : CTransaction) (fFakeSerialAttack : Bool) : Except Failure Unit := do
  let nZCSpendCount : Int := 0
  require (nZCSpendCount ≤ node.params.nMaxZerocoinSpendsPerTransaction)
    (.invalid 100 "")
  requireWhen tx.isZerocoinSpend do
    require (tx.vin.all fun txin => CScript.isZerocoinSpend txin.scriptSig) (.invalid 100 "")
    match node.tip with
    | none => .error .exception
    | some tip =>
      let fVerifySignature :=
        !node.isInitialBlockDownload && (node.getTime - tip.nTime < 60 * 60 * 24)
      reported 100 "" (node.checkZerocoinSpend tx fVerifySignature fFakeSerialAttack)

def checkTransaction (tx : CTransaction) (fZerocoinActive fFakeSerialAttack : Bool)
    (fColdStakingActive : Bool) : Except Failure Unit := do
  require (!tx.vin.isEmpty) (.invalid 10 "bad-txns-vin-empty")
  require (!tx.vout.isEmpty) (.invalid 10 "bad-txns-vout-empty")
  require (node.txSerializeSize tx ≤ maxZerocoinTxSize)
    (.invalid 100 "bad-txns-oversize")
  let _ ← tx.vout.foldlM (node.checkTxOut tx fZerocoinActive fColdStakingActive) 0
  require (noDuplicateInputs [] tx.vin) (.invalid 100 "bad-txns-inputs-duplicate")
  requireWhen fZerocoinActive (node.checkZerocoinActive tx fFakeSerialAttack)
  if tx.isCoinBase then
    let size := (tx.vin.map fun txin => txin.scriptSig.length).headD 0
    require ((2 ≤ size) && (size ≤ 150)) (.invalid 100 "bad-cb-length")
  else
    require
      (tx.vin.all fun txin =>
        !(txin.prevout.isNull && (fZerocoinActive && !CScript.isZerocoinSpend txin.scriptSig)))
      (.invalid 10 "bad-txns-prevout-null")

theorem vin_ne_nil_of_checkTransaction {node : Node} {tx : CTransaction}
    {fZerocoinActive fFakeSerialAttack fColdStakingActive : Bool}
    (passed : node.checkTransaction tx fZerocoinActive fFakeSerialAttack fColdStakingActive =
      .ok ()) : tx.vin ≠ [] := by
  intro empty
  have first := (require_bind_eq_ok.mp passed).1
  rw [empty] at first
  cases first

end Node

end DogeCash
