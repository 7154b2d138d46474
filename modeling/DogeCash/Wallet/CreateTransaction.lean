import DogeCash.Foundation.Loop
import DogeCash.Primitives.Serialize
import DogeCash.Wallet.CoinStake
import DogeCash.Wallet.SelectCoinsToSpend

/-! # Creating a transaction

`CreateTransaction` builds a transaction that pays the given amounts and the fee it started with.
If the transaction turns out to need a higher fee, it starts over with that one. What the coins
are worth beyond the payments and the fee becomes change: an output of its own, part of an output
that pays the change address already, or part of the fee. The sums are of 64 bits and wrap around.
-/

namespace DogeCash

/-- How `CreateTransaction` ends without returning true. -/
inductive CreateStop where
  | failed (strFailReason : String)
  | assertion
  deriving DecidableEq

structure CFeeRate where
  nSatoshisPerK : Int

/-- `CFeeRate::GetFee`. The product with a size and the quotient are unsigned. -/
def CFeeRate.getFee (rate : CFeeRate) (nSize : ℕ) : Int :=
  let nFee := (BitVec.ofInt 64 rate.nSatoshisPerK * BitVec.ofNat 64 nSize / 1000#64).toInt
  if nFee = 0 ∧ 0 < rate.nSatoshisPerK then rate.nSatoshisPerK else nFee

def CTxOut.isDust (txout : CTxOut) (minRelayTxFee : CFeeRate) : Bool :=
  txout.nValue < wrapInt64 (3 * minRelayTxFee.getFee (txout.serializeSize + 148))

/-- `MAX_STANDARD_TX_SIZE` -/
def maxStandardTxSize : ℕ := 1000000

/-- `MAX_FREE_TRANSACTION_CREATE_SIZE` -/
def maxFreeTransactionCreateSize : ℕ := 1000

/-- The arguments of `CreateTransaction`. -/
structure PaymentRequest where
  vecSend : List (CScript × Int)
  coinControl : Option CCoinControl := none
  coin_type : AvailableCoinsType := .allCoins
  useIX : Bool := false
  nFeePay : Int := 0
  fIncludeDelegated : Bool := false

namespace PaymentRequest

/-- `nFeePay`, as it is raised for SwiftX. -/
def feePay (request : PaymentRequest) : Int :=
  if request.useIX && request.nFeePay < CENT then CENT else request.nFeePay

def filter (request : PaymentRequest) : CoinFilter :=
  SpendWallet.spendFilter request.coinControl request.coin_type request.useIX false
    request.fIncludeDelegated

end PaymentRequest

/-- A wallet with the fee policy and what else `CreateTransaction` asks for. What may differ from
round to round is named by the round. -/
structure PayingWallet extends SpendWallet where
  payTxFee : CFeeRate
  estimateFee : ℕ → CFeeRate
  minTxFee : CFeeRate
  minRelayTxFee : CFeeRate
  maxTxFee : Int
  fSendFreeTransactions : Bool
  hasFreePriority : ℕ → Bool
  getRandInt : ℕ → ℕ → ℕ
  /-- The script of the key that `GetReservedKey` gives out, if there is one. -/
  reservedScript : ℕ → Option CScript
  /-- The order of a set of coins, which is by the addresses of their transactions. -/
  order : List WalletCoin → List WalletCoin
  order_perm : ∀ coins, (order coins).Perm coins
  /-- `SignSignature`, with the script it puts into the input. -/
  signSignature : CTransaction → CMutableTransaction → ℕ → Option CScript

structure Created where
  txNew : CMutableTransaction
  nFeeRet : Int
  deriving DecidableEq

/-- The outputs for a payment that is split. -/
def splitOuts (nSplitBlock : Int) (payment : CScript × Int) : List CTxOut :=
  (List.range nSplitBlock.toNat).map fun i : ℕ =>
    if (i : Int) = nSplitBlock - 1 then
      .of (payment.2.tdiv nSplitBlock + payment.2.tmod nSplitBlock) payment.1
    else .of (payment.2.tdiv nSplitBlock) payment.1

/-- The reason when the coins are not enough. -/
def shortOfFunds (coin_type : AvailableCoinsType) (useIX : Bool) : String :=
  (match coin_type with
    | .allCoins => "Insufficient funds."
    | .onlyNot10000IfMN =>
      "Unable to locate enough funds for this transaction that are not equal 5000 DOGEC."
    | .onlyNondenominatedNot10000IfMN =>
      "Unable to locate enough Obfuscation non-denominated funds for this transaction that " ++
        "are not equal 5000 DOGEC."
    | _ =>
      "Unable to locate enough Obfuscation denominated funds for this transaction." ++
        " Obfuscation uses exact denominated amounts to send funds, you might simply need " ++
        "to anonymize some more coins.") ++
    if useIX then
      " SwiftX requires inputs with at least 6 confirmations, you might need to wait a few " ++
        "minutes and try again."
    else ""

/-- The change is added to the first output that pays its address. -/
def addToPayee (scriptChange : CScript) (nChange : Int) : List CTxOut → Option (List CTxOut)
  | [] => none
  | txout :: rest =>
    if scriptChange = txout.scriptPubKey then
      some ({ txout with nValue := addInt64 txout.nValue nChange } :: rest)
    else (addToPayee scriptChange nChange rest).map (txout :: ·)

namespace PayingWallet

variable (wallet : PayingWallet) (request : PaymentRequest)

def getMinimumFee (round nTxBytes : ℕ) : Int :=
  let set := wallet.payTxFee.getFee nTxBytes
  let estimated := if set = 0 then (wallet.estimateFee round).getFee nTxBytes else set
  let chosen := if estimated = 0 then wallet.minTxFee.getFee nTxBytes else estimated
  let relayed := if chosen < wallet.minRelayTxFee.getFee nTxBytes then
    wallet.minRelayTxFee.getFee nTxBytes else chosen
  if wallet.maxTxFee < relayed then wallet.maxTxFee else relayed

def payeeOut (payment : CScript × Int) : Except CreateStop CTxOut := do
  let txout := CTxOut.of payment.2 payment.1
  require (!txout.isDust wallet.minRelayTxFee) (.failed "Transaction amount too small")
  return txout

def payeeOuts : Except CreateStop (List CTxOut) :=
  match request.coinControl with
  | some coinControl =>
    if !coinControl.fSplitBlock then request.vecSend.mapM wallet.payeeOut
    else .ok (request.vecSend.flatMap (splitOuts coinControl.nSplitBlock))
  | none => .ok (request.vecSend.flatMap (splitOuts 1))

/-- An output for the change, unless it would be dust, which is added to the fee. -/
def changeOut (round : ℕ) (scriptChange : CScript) (nChange nFeeRet : Int) (vout : List CTxOut) :
    List CTxOut × Int :=
  let newTxOut := CTxOut.of nChange scriptChange
  if newTxOut.isDust wallet.minRelayTxFee then (vout, addInt64 nFeeRet nChange)
  else
    let position := wallet.getRandInt round (vout.length + 1)
    (vout.take position ++ newTxOut :: vout.drop position, nFeeRet)

/-- What becomes of the change: the outputs and the fee. -/
def addChange (round : ℕ) (nChange nFeeRet : Int) (vout : List CTxOut) :
    Except CreateStop (List CTxOut × Int) :=
  if request.coin_type = .onlyDenominated then .ok (vout, addInt64 nFeeRet nChange)
  else if 0 < nChange then
    match request.coinControl.bind CCoinControl.destChange with
    | some scriptChange =>
      match addToPayee scriptChange nChange vout with
      | some combined => .ok (combined, nFeeRet)
      | none => .ok (wallet.changeOut round scriptChange nChange nFeeRet vout)
    | none =>
      match wallet.reservedScript round with
      | some scriptChange => .ok (wallet.changeOut round scriptChange nChange nFeeRet vout)
      | none => .error .assertion
  else .ok (vout, nFeeRet)

def signInput (vout : List CTxOut) (vin : List CTxIn) (input : WalletCoin × ℕ) :
    Except CreateStop (List CTxIn) :=
  match wallet.signSignature input.1.pcoin.tx ⟨vin, vout⟩ input.2 with
  | none => .error (.failed "Signing transaction failed")
  | some scriptSig => .ok (vin.modify input.2 fun txin => { txin with scriptSig })

def signInputs (coins : List WalletCoin) (vout : List CTxOut) : Except CreateStop (List CTxIn) :=
  coins.zipIdx.foldlM (wallet.signInput vout)
    (coins.map fun coin => ⟨CWallet.outPointOf coin, [], 0xffffffff⟩)

/-- Whether the fee is enough, or the transaction is started over with a higher one. -/
def checkFee (round : ℕ) (created : Created) : Except CreateStop (Int ⊕ Created) :=
  let nBytes := CTransaction.serializeSize ⟨0, 1, created.txNew.vin, created.txNew.vout, 0⟩
  let nFeeNeeded := max request.feePay (wallet.getMinimumFee round nBytes)
  if maxStandardTxSize ≤ nBytes then .error (.failed "Transaction too large")
  else if wallet.fSendFreeTransactions && nBytes ≤ maxFreeTransactionCreateSize &&
      wallet.hasFreePriority round then .ok (.inr created)
  else if nFeeNeeded < wallet.minRelayTxFee.getFee nBytes then
    .error (.failed "Transaction too large for fee policy")
  else if nFeeNeeded ≤ created.nFeeRet then .ok (.inr created)
  else .ok (.inl nFeeNeeded)

def selectionFor (round : ℕ) (nTotalValue : Int) : CoinSelection :=
  wallet.selectCoinsToSpend round nTotalValue request.coinControl request.coin_type
    request.useIX false request.fIncludeDelegated

def setCoins (selection : CoinSelection) : List WalletCoin :=
  (wallet.order (wallet.availableCoins request.filter)).filter fun coin =>
    coin.output.coin.2 ∈ selection.setCoinsRet

/-- One round of the loop, from the fee it starts with. -/
def createRound (nValue : Int) (round : ℕ) (nFeeRet : Int) : Except CreateStop (Int ⊕ Created) := do
  let nTotalValue := addInt64 nValue nFeeRet
  let payees ← wallet.payeeOuts request
  let selection := wallet.selectionFor request round nTotalValue
  require selection.found (.failed (shortOfFunds request.coin_type request.useIX))
  let coins := wallet.setCoins request selection
  require (coins.all fun coin => 0 ≤ wallet.getDepthInMainChain coin.pcoin true) .assertion
  let nChange := subInt64 (subInt64 selection.nValueRet nValue) nFeeRet
  let (vout, nFeeRet) ← wallet.addChange request round nChange nFeeRet payees
  let vin ← wallet.signInputs coins vout
  wallet.checkFee request round ⟨⟨vin, vout⟩, nFeeRet⟩

def addPayment (nValue : Int) (payment : CScript × Int) : Except CreateStop Int := do
  require (!(nValue < 0)) (.failed "Transaction amounts must be positive")
  return addInt64 nValue payment.2

/-- The loop of `CreateTransaction`, from the sum of the payments. -/
def createLoop (fuel : ℕ) (nValue : Int) : Option (Except CreateStop Created) :=
  repeatUntil (wallet.createRound request nValue) fuel 0
    (if 0 < request.feePay then request.feePay else 0)

/-- `CreateTransaction`, whose loop is given fuel. -/
def createTransaction (fuel : ℕ) : Option (Except CreateStop Created) :=
  match request.vecSend.foldlM addPayment 0 with
  | .error reason => some (.error reason)
  | .ok nValue =>
    if request.vecSend.isEmpty || nValue < 0 then
      some (.error (.failed "Transaction amounts must be positive"))
    else wallet.createLoop request fuel nValue

end PayingWallet

end DogeCash
