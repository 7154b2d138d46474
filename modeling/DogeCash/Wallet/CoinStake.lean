import DogeCash.Validation.Node

/-! # Creating a coinstake

`CreateCoinStake` tries the stakable inputs of the wallet one after another. For the
first whose kernel meets the target it asks the input for the outputs
(`CreateTxOuts`), divides the staked value and the reward among them, takes the
masternode payment out of them (`FillBlockPayee`), and adds the input (`CreateTxIn`).
An input that fails in one of these steps is passed over for the next one.
-/

namespace DogeCash

/-- `CMutableTransaction`, as far as a coinstake is built in it. -/
structure CMutableTransaction where
  vin : List CTxIn
  vout : List CTxOut
  deriving DecidableEq

/-- The script the outputs of a DOGEC stake pay to: a public key and `OP_CHECKSIG`, or
the kernel's own script, which is of that form or a cold staking script. -/
structure StakeScript where
  script : CScript
  nonempty : script ≠ []
  notMint : CScript.isZerocoinMint script = false

/-- `CDOGECStake` and `CzdogecStake`, with what `CreateTxOuts` finds: the script or the
mints of the outputs, `none` when it fails. -/
inductive StakeCoin where
  | dogec (value : Int) (positive : 0 < value) (script : Option StakeScript)
  | zdogec (value : Int) (mints : Option { outs : List CTxOut // outs ≠ [] })

/-- An input of the list with the outcomes of the steps it is put through. -/
structure StakeInput where
  coin : StakeCoin
  /-- A new block came in, the wallet is locked or a shutdown was requested. -/
  interrupted : Bool
  /-- `Stake` -/
  kernel : Bool
  oversize : Bool
  /-- `CreateTxIn` -/
  txIn : Option CTxIn
  signed : Bool

/-- How `CreateCoinStake` ends without returning true. -/
inductive StakeStop where
  | returnsFalse
  | divisionByZero
  | outOfRange
  deriving DecidableEq

/-- What `CreateCoinStake` reads. -/
structure StakeEnv where
  params : ChainParams
  tip : ChainTip
  nStakeSplitThreshold : UInt64
  /-- The payee of the next block, by the votes or by the current masternode. -/
  payee : Option CScript
  /-- `CBudgetManager::FillBlockPayee`, when the next block is a budget payment block. -/
  budgetFillBlockPayee : Option (List CTxOut → List CTxOut)
  /-- `GetStakingBalance` -/
  nBalance : Int
  nReserveBalance : Int
  /-- The argument `-reservebalance`, and whether it parses. -/
  reserveBalanceArg : Option (Option Int)
  /-- The list of `SelectStakeCoins`. -/
  listInputs : Option (List StakeInput)

namespace StakeCoin

def getValue : StakeCoin → Int
  | dogec value _ _ => value
  | zdogec value _ => value

def iszdogec : StakeCoin → Bool
  | dogec .. => false
  | zdogec .. => true

/-- `MAX_STANDARD_TX_SIZE >> 11` -/
def txSizeMax : Int := 1000000 / 2 ^ 11

/-- The number of outputs of a DOGEC stake: the threshold is multiplied as an unsigned
number, and `none` stands for a division by zero. -/
def outputCount (nStakeSplitThreshold : UInt64) (nTotal : Int) : Option Nat :=
  if nStakeSplitThreshold = 0 then some 1
  else
    let divisor := (nStakeSplitThreshold * 100000000).toInt64.toInt
    if divisor = 0 then none
    else
      let nSplit := (Int32.ofInt (Int.tdiv nTotal divisor)).toInt
      some (if 1 < nSplit then (min nSplit txSizeMax).toNat else 1)

def createTxOuts (nStakeSplitThreshold : UInt64) (nTotal : Int) :
    StakeCoin → Except StakeStop (Option (List CTxOut))
  | dogec _ _ none => .ok none
  | dogec _ _ (some out) =>
    match outputCount nStakeSplitThreshold nTotal with
    | none => .error .divisionByZero
    | some count => .ok (some (List.replicate count (.of 0 out.script)))
  | zdogec _ none => .ok none
  | zdogec _ (some mints) => .ok (some mints.1)

end StakeCoin

/-- `vout[i].nValue` is changed. -/
def changeValue (change : Int → Int) (vout : List CTxOut) (i : Nat) : List CTxOut :=
  vout.modify i fun out => { out with nValue := change out.nValue }

/-- The loop over the outputs in `CreateCoinStake`. What remains goes to the last output
inside the branch for several outputs. -/
def splitCredit (nCredit : Int) (vout : List CTxOut) : List CTxOut :=
  let outputs := vout.length - 1
  if 1 < outputs then
    let nShare := Int.tdiv nCredit outputs
    let (shared, nRemaining) := (List.range' 1 (outputs - 1)).foldl
      (fun (vout, nRemaining) i => (changeValue (fun _ => nShare) vout i, nRemaining - nShare))
      (vout, nCredit)
    changeValue (· + nRemaining) shared outputs
  else vout

/-- `CMasternodePayments::FillBlockPayee` for a coinstake. -/
def fillBlockPayee (payee : Option CScript) (masternodePayment : Int) (vout : List CTxOut) :
    Except StakeStop (List CTxOut) :=
  match payee with
  | none => .ok vout
  | some payee =>
    let i := vout.length
    let paid := vout ++ [.of masternodePayment payee]
    match paid[1]? with
    | none => .error .outOfRange
    | some second =>
      if second.isZerocoinMint then .ok paid
      else if i = 2 then .ok (changeValue (· - masternodePayment) paid 1)
      else if 2 < i then
        let outputs := i - 1
        let mnPaymentSplit := Int.tdiv masternodePayment outputs
        let mnPaymentRemainder := masternodePayment - mnPaymentSplit * outputs
        let split := (List.range' 1 outputs).foldl (changeValue (· - mnPaymentSplit)) paid
        .ok (changeValue (· - mnPaymentRemainder) split outputs)
      else .ok paid

namespace StakeEnv

variable (env : StakeEnv)

/-- `nReward`: the value of the next block. -/
def nReward : Int := env.params.getBlockValue env.tip.nMoneySupply (env.tip.nHeight + 1)

def masternodePayment : Int := env.params.getMasternodePayment (env.tip.nHeight + 1) env.nReward

/-- `FillBlockPayee` -/
def fillPayee (vout : List CTxOut) : Except StakeStop (List CTxOut) :=
  match env.budgetFillBlockPayee with
  | some fill => .ok (fill vout)
  | none => fillBlockPayee env.payee env.masternodePayment vout

/-- How the loop over the inputs ends: `chosen` is the input it broke off at. -/
structure LoopEnd where
  txNew : CMutableTransaction
  fKernelFound : Bool
  chosen : Option StakeInput

def tryInputs : List StakeInput → CMutableTransaction → Bool → Except StakeStop LoopEnd
  | [], txNew, fKernelFound => .ok ⟨txNew, fKernelFound, none⟩
  | input :: rest, txNew, _ =>
    if input.interrupted then .error .returnsFalse
    else if !input.kernel then tryInputs rest txNew false
    else
      let nCredit := input.coin.getValue + env.nReward
      match input.coin.createTxOuts env.nStakeSplitThreshold nCredit with
      | .error stop => .error stop
      | .ok none => tryInputs rest txNew true
      | .ok (some vout) =>
        let vout := splitCredit nCredit (txNew.vout ++ vout)
        if input.oversize then .error .returnsFalse
        else
          match env.fillPayee vout with
          | .error stop => .error stop
          | .ok vout =>
            match input.txIn with
            | none => tryInputs rest ⟨[], []⟩ true
            | some txIn => .ok ⟨⟨txNew.vin ++ [txIn], vout⟩, true, some input⟩

/-- The inputs `CreateCoinStake` tries, `none` when it returns before the loop. -/
def stakeInputs : Option (List StakeInput) :=
  match env.reserveBalanceArg with
  | some none => none
  | arg =>
    let nReserveBalance := (arg.getD none).getD env.nReserveBalance
    if 0 < env.nBalance ∧ env.nBalance ≤ nReserveBalance then none
    else env.listInputs.filter fun inputs => !inputs.isEmpty

def marker : CTxOut := .of 0 []

/-- The end of `CreateCoinStake`: the coinstake is signed by the script of its first
input. -/
def finish (loop : LoopEnd) : Except StakeStop (CMutableTransaction × StakeInput) :=
  if !loop.fKernelFound then .error .returnsFalse
  else
    match loop.txNew.vin, loop.chosen with
    | _ :: _, some input => if input.signed then .ok (loop.txNew, input) else .error .returnsFalse
    | _, _ => .error .outOfRange

/-- `CreateCoinStake`, with the input that was chosen. -/
def createCoinStake : Except StakeStop (CMutableTransaction × StakeInput) :=
  match env.stakeInputs with
  | none => .error .returnsFalse
  | some inputs => env.tryInputs inputs ⟨[], [marker]⟩ false >>= finish

end StakeEnv

end DogeCash
