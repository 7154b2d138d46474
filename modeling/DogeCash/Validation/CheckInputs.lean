import DogeCash.Chain.Params
import DogeCash.Primitives.ColdStake
import DogeCash.Script.FlagMonotone
import DogeCash.Validation.UpdateCoins

/-! # Checking the inputs of a transaction

`CheckInputs` looks up the outputs a transaction spends, checks that they are
mature and worth enough, and runs the scripts. `AcceptToMemoryPool` calls it twice,
with the standard and with the mandatory flags; the second call cannot fail after
the first.
-/

namespace DogeCash

open Interpreter (verifyScript verifyScript_succeeds)

/-- How a validation function ends when it does not return true. -/
inductive Failure where
  | invalid (nDoS : Nat) (reason : String)
  | script (nDoS : Nat) (error : Option ScriptError)
  | exception
  | assertion
  | abort
  deriving DecidableEq

/-- What script verification takes from outside: `checkSig` is
`TransactionSignatureChecker::CheckSig` for an input of a transaction. -/
structure ScriptEnv where
  crypto : ScriptCrypto
  checkSig : CTransaction → Nat → Valtype → Valtype → CScript → Bool

def CTransaction.checkLockTime (tx : CTransaction) (nIn : Nat) (nLockTime : Int) : Bool :=
  let threshold : Int := 500000000
  let txLockTime : Int := tx.nLockTime.toNat
  if ¬((txLockTime < threshold ∧ nLockTime < threshold) ∨
      (threshold ≤ txLockTime ∧ threshold ≤ nLockTime)) then false
  else if txLockTime < nLockTime then false
  else
    match tx.vin[nIn]? with
    | some txin => txin.nSequence != 0xffffffff
    | none => false

/-- `CachingTransactionSignatureChecker`; the cache holds only results of
`CheckSig`. -/
def ScriptEnv.checker (env : ScriptEnv) (tx : CTransaction) (nIn : Nat) : SignatureChecker where
  checkSig := env.checkSig tx nIn
  checkLockTime := tx.checkLockTime nIn
  checkColdStake := tx.checkColdStake

namespace CoinsMap

def outputFor (view : CoinsMap) (out : COutPoint) : CTxOut :=
  (view out.hash).vout.getD out.n.toNat CTxOut.null

def getValueIn (view : CoinsMap) (tx : CTransaction) : Int :=
  if tx.isCoinBase then 0
  else if tx.isZerocoinSpend then tx.getZerocoinSpent
  else (tx.vin.map fun txin => (view.outputFor txin.prevout).nValue).sum

end CoinsMap

/-- `GetValueOut`, which throws. -/
def CTransaction.getValueOutOrThrow (tx : CTransaction) : Except Failure Int :=
  match tx.getValueOut with
  | some nValueOut => .ok nValueOut
  | none => .error .exception

theorem CTransaction.getValueOutOrThrow_eq_ok {tx : CTransaction} {nValueOut : Int}
    (computed : tx.getValueOutOrThrow = .ok nValueOut) :
    nValueOut = tx.valueOut ∧ ∀ out ∈ tx.vout, 0 ≤ out.nValue := by
  unfold CTransaction.getValueOutOrThrow at computed
  split at computed
  · rename_i value some
    cases computed
    exact CTransaction.getValueOut_eq_some some
  · cases computed

namespace CheckInputs

section

variable (params : ChainParams) (env : ScriptEnv) (nSpendHeight : Int) (view : CoinsMap)
  (flags : ScriptFlags)

/-- The first loop of `CheckInputs`: maturity and the sum of the input values. -/
def sumInputs : Int → List CTxIn → Except Failure Int
  | nValueIn, [] => .ok nValueIn
  | nValueIn, txin :: rest =>
    let coins := view txin.prevout.hash
    let nValue := (view.outputFor txin.prevout).nValue
    if (coins.fCoinBase || coins.fCoinStake) &&
        nSpendHeight - coins.nHeight.toInt < params.nMaturity then
      .error (.invalid 0 "bad-txns-premature-spend-of-coinbase")
    else if !params.moneyRange nValue || !params.moneyRange (nValueIn + nValue) then
      .error (.invalid 100 "bad-txns-inputvalues-outofrange")
    else sumInputs (nValueIn + nValue) rest

/-- The comparison of input and output values, which a coinstake skips. -/
def checkFee (tx : CTransaction) (nValueIn : Int) : Except Failure Unit :=
  if tx.isCoinStake then .ok ()
  else do
    let nValueOut ← tx.getValueOutOrThrow
    if nValueIn < nValueOut then .error (.invalid 100 "bad-txns-in-belowout")
    else if nValueIn - nValueOut < 0 then .error (.invalid 100 "bad-txns-fee-negative")
    else if !params.moneyRange (nValueIn - nValueOut) then
      .error (.invalid 100 "bad-txns-fee-outofrange")
    else .ok ()

/-- `CScriptCheck` for one input. -/
def scriptCheck (tx : CTransaction) (nIn : Nat) (txin : CTxIn) : Except ScriptError Unit :=
  verifyScript env.crypto (env.checker tx nIn) flags txin.scriptSig
    (view.outputFor txin.prevout).scriptPubKey

/-- The verdict on an input whose script does not verify: under the flags that are
standard but not mandatory the failure may be one of policy only. -/
def scriptFailure (tx : CTransaction) (nIn : Nat) (txin : CTxIn) (error : ScriptError) : Failure :=
  let notMandatory := ScriptFlags.standard &&& ~~~ScriptFlags.mandatory
  if flags.has notMandatory ∧
      scriptCheck env view (flags &&& ~~~notMandatory) tx nIn txin = .ok () then
    .script 0 none
  else .script 100 (some error)

/-- The second loop of `CheckInputs`: the scripts. Whether they are checked here or
queued makes no difference to the outcome. -/
def checkScripts (tx : CTransaction) : Nat → List CTxIn → Except Failure Unit
  | _, [] => .ok ()
  | nIn, txin :: rest =>
    match scriptCheck env view flags tx nIn txin with
    | .error error => .error (scriptFailure env view flags tx nIn txin error)
    | .ok () => checkScripts tx (nIn + 1) rest

/-- `CheckInputs`; `nSpendHeight` is one more than the height of the best block of
the view. -/
def checkInputs (fScriptChecks : Bool) (tx : CTransaction) : Except Failure Unit :=
  if !tx.spendsCoins then .ok ()
  else if !view.haveInputs tx then .error (.invalid 0 "")
  else do
    let nValueIn ← sumInputs params nSpendHeight view 0 tx.vin
    checkFee params tx nValueIn
    if fScriptChecks then checkScripts env view flags tx 0 tx.vin else .ok ()

end

variable {params : ChainParams} {nSpendHeight : Int} {view : CoinsMap} {env : ScriptEnv}

theorem sumInputs_eq_ok {inputs : List CTxIn} {start total : Int}
    (ok : sumInputs params nSpendHeight view start inputs = .ok total) :
    total = start + (inputs.map fun txin => (view.outputFor txin.prevout).nValue).sum := by
  induction inputs generalizing start with
  | nil =>
    cases ok
    simp
  | cons txin rest ih =>
    simp only [sumInputs] at ok
    split at ok
    · cases ok
    · split at ok
      · cases ok
      · rw [ih ok, List.map_cons, List.sum_cons, Int.add_assoc]

theorem sumInputs_nonneg {inputs : List CTxIn} {start total : Int} (nonneg : 0 ≤ start)
    (ok : sumInputs params nSpendHeight view start inputs = .ok total) : 0 ≤ total := by
  induction inputs generalizing start with
  | nil =>
    cases ok
    exact nonneg
  | cons txin rest ih =>
    simp only [sumInputs] at ok
    split at ok
    · cases ok
    · split at ok
      · cases ok
      · rename_i inRange
        refine ih ?_ ok
        simp only [ChainParams.moneyRange, Bool.or_eq_true, Bool.not_eq_eq_eq_not,
          Bool.not_true, Bool.and_eq_false_iff, decide_eq_false_iff_not, not_or, not_not] at inRange
        omega

/-- The inputs of a transaction that passes are worth something or nothing. -/
theorem inputs_nonneg_of_checkInputs {flags : ScriptFlags} {fScriptChecks : Bool}
    {tx : CTransaction}
    (ok : checkInputs params env nSpendHeight view flags fScriptChecks tx = .ok ())
    (spends : tx.spendsCoins = true) :
    0 ≤ (tx.vin.map fun txin => (view.outputFor txin.prevout).nValue).sum := by
  simp only [checkInputs, spends, Bool.not_true, Bool.false_eq_true, ↓reduceIte] at ok
  split at ok
  · cases ok
  · obtain ⟨nValueIn, sum, -⟩ := bind_eq_ok.mp ok
    have total := sumInputs_eq_ok sum
    have nonneg := sumInputs_nonneg (Int.le_refl 0) sum
    omega

theorem valueOut_le_of_checkInputs {flags : ScriptFlags} {fScriptChecks : Bool} {tx : CTransaction}
    (ok : checkInputs params env nSpendHeight view flags fScriptChecks tx = .ok ())
    (spends : tx.spendsCoins = true) (notCoinStake : tx.isCoinStake = false) :
    tx.valueOut ≤ (tx.vin.map fun txin => (view.outputFor txin.prevout).nValue).sum := by
  simp only [checkInputs, spends, Bool.not_true, Bool.false_eq_true, ↓reduceIte] at ok
  split at ok
  · cases ok
  · obtain ⟨nValueIn, sum, ok⟩ := bind_eq_ok.mp ok
    obtain ⟨_, fee, -⟩ := bind_eq_ok.mp ok
    simp only [checkFee, notCoinStake, Bool.false_eq_true, ↓reduceIte] at fee
    obtain ⟨nValueOut, out, fee⟩ := bind_eq_ok.mp fee
    obtain ⟨rfl, -⟩ := CTransaction.getValueOutOrThrow_eq_ok out
    split at fee
    · cases fee
    · have sumIs := sumInputs_eq_ok sum
      omega

/-- The flags of the two calls in `AcceptToMemoryPool`. -/
def mempoolFlags (flags : ScriptFlags) (fCLTVIsActive : Bool) : ScriptFlags :=
  if fCLTVIsActive then flags ||| ScriptFlags.CHECKLOCKTIMEVERIFY else flags

variable {fewer flags : ScriptFlags}

theorem checkScripts_succeeds (weaker : ScriptFlags.Weaker fewer flags) (tx : CTransaction)
    (nIn : Nat) (inputs : List CTxIn) :
    Succeeds (checkScripts env view flags tx nIn inputs)
      (checkScripts env view fewer tx nIn inputs) := by
  induction inputs generalizing nIn with
  | nil => exact .refl _
  | cons txin rest ih =>
    simp only [checkScripts]
    cases outcome : scriptCheck env view flags tx nIn txin with
    | error error => exact .error _ _
    | ok result =>
      rw [show scriptCheck env view fewer tx nIn txin = .ok result from
        verifyScript_succeeds weaker _ _ _ outcome]
      exact ih (nIn + 1)

theorem checkInputs_succeeds (weaker : ScriptFlags.Weaker fewer flags) (fScriptChecks : Bool)
    (tx : CTransaction) :
    Succeeds (checkInputs params env nSpendHeight view flags fScriptChecks tx)
      (checkInputs params env nSpendHeight view fewer fScriptChecks tx) :=
  .choice (fun _ => .refl _) fun _ => .check id <| .bind (.refl _) fun _ => .bind (.refl _) fun _ =>
    .choice (fun _ => checkScripts_succeeds weaker tx 0 tx.vin) fun _ => .refl _

theorem mandatory_weaker_standard (fCLTVIsActive : Bool) :
    ScriptFlags.Weaker (mempoolFlags .mandatory fCLTVIsActive)
      (mempoolFlags .standard fCLTVIsActive) := by
  cases fCLTVIsActive with
  | false => exact ⟨rfl, rfl⟩
  | true => exact ⟨rfl, rfl⟩

/-- **Verification is monotone in the flags.** What verifies under some flags
verifies under any part of them without the discouragement of no-ops; in
particular the check of the mandatory flags never fails after that of the standard
ones. -/
theorem verifyScript_mono_and_mempool :
    (∀ (crypto : ScriptCrypto) (checker : SignatureChecker) (scriptSig scriptPubKey : CScript)
        (flags fewer : ScriptFlags), fewer.Subset flags →
        fewer.has .DISCOURAGE_UPGRADABLE_NOPS = false →
        verifyScript crypto checker flags scriptSig scriptPubKey = .ok () →
        verifyScript crypto checker fewer scriptSig scriptPubKey = .ok ()) ∧
    ∀ (params : ChainParams) (env : ScriptEnv) (nSpendHeight : Int) (view : CoinsMap)
        (fScriptChecks fCLTVIsActive : Bool) (tx : CTransaction),
      checkInputs params env nSpendHeight view (mempoolFlags .standard fCLTVIsActive) fScriptChecks
          tx = .ok () →
        checkInputs params env nSpendHeight view (mempoolFlags .mandatory fCLTVIsActive)
          fScriptChecks tx = .ok () := by
  refine ⟨?_, ?_⟩
  · intro crypto checker scriptSig scriptPubKey flags fewer subset noDiscouragement verified
    exact verifyScript_succeeds ⟨subset, noDiscouragement⟩ scriptSig scriptPubKey ()
      verified
  · intro params env nSpendHeight view fScriptChecks fCLTVIsActive tx accepted
    exact checkInputs_succeeds (mandatory_weaker_standard fCLTVIsActive) fScriptChecks tx ()
      accepted

def sampleCrypto : ScriptCrypto := ⟨fun _ vch => vch, fun _ => true⟩

def sampleChecker : SignatureChecker := ⟨fun _ _ _ => true, fun _ => true, fun _ => true⟩

/-- The script of a number and its hash, under the standard and under no flags. -/
theorem verifyScript_sample :
    verifyScript sampleCrypto sampleChecker .standard [0x52, 0x53]
        [0x76, 0xa9, 0x53, 0x88, 0x92, 0x92] = .ok () ∧
      verifyScript sampleCrypto sampleChecker 0 [0x52, 0x53]
        [0x76, 0xa9, 0x53, 0x88, 0x92, 0x92] = .ok () := by
  have verified : verifyScript sampleCrypto sampleChecker .standard [0x52, 0x53]
      [0x76, 0xa9, 0x53, 0x88, 0x92, 0x92] = .ok () := by
    decide +kernel
  refine ⟨verified, ?_⟩
  exact verifyScript_mono_and_mempool.1 sampleCrypto sampleChecker [0x52, 0x53]
    [0x76, 0xa9, 0x53, 0x88, 0x92, 0x92] .standard 0 rfl rfl verified

end CheckInputs

end DogeCash
