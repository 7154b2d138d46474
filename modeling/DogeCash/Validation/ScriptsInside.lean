import DogeCash.Validation.ScriptReads

/-! # When `CheckTransaction` reads inside the scripts

Each read that no test of a length precedes is guarded by the checks before it alone. The
condition here goes by the transaction: what an output or an input has to be like for the
checks to let it through, and what its script has to be like where a read is reached.
-/

namespace DogeCash

open CTxOut (nValue)

namespace Node

/-- What `CheckTransaction` asks before it looks at the outputs. -/
structure WellSized (node : Node) (tx : CTransaction) : Prop where
  inputs : tx.vin ≠ []
  outputs : tx.vout ≠ []
  size : node.txSerializeSize tx ≤ maxZerocoinTxSize

/-- What it asks of an output before it looks for a coin in the script. -/
structure OutValued (node : Node) (tx : CTransaction) (before : List CTxOut) (txout : CTxOut) :
    Prop where
  marked : txout.isEmpty = true → tx.isCoinBase = true ∨ tx.isCoinStake = true
  nonneg : 0 ≤ txout.nValue
  bounded : txout.nValue ≤ node.params.nMaxMoneyOut
  total : node.params.moneyRange ((before.map nValue).sum + txout.nValue) = true

/-- What it asks of an output after those before it. -/
structure OutAccepted (node : Node) (tx : CTransaction) (fColdStakingActive : Bool)
    (before : List CTxOut) (txout : CTxOut) : Prop extends OutValued node tx before txout where
  mint : txout.isZerocoinMint = true →
    ∃ pubCoin, node.zerocoin.txOutToPublicCoin txout = some pubCoin ∧ pubCoin.validate = true
  delegation : CScript.isPayToColdStaking txout.scriptPubKey = true →
    fColdStakingActive = true ∧ node.params.nMinColdStakingAmount ≤ txout.nValue

/-- What it asks before it looks for zerocoin spends. -/
structure PassesOuts (node : Node) (tx : CTransaction) (fColdStakingActive : Bool) : Prop where
  sized : node.WellSized tx
  outs : InTurn (node.OutAccepted tx fColdStakingActive) tx.vout
  distinct : noDuplicateInputs [] tx.vin = true
  limit : 0 ≤ node.params.nMaxZerocoinSpendsPerTransaction

/-- What it asks of a zerocoin spend before it looks at the spent coins. -/
structure PassesSpend (node : Node) (tx : CTransaction) : Prop where
  spend : tx.isZerocoinSpend = true
  inputs : ∀ txin ∈ tx.vin, CScript.isZerocoinSpend txin.scriptSig = true
  outs : tx.isCoinStake = true ∨ (tx.vout.filter fun out => !out.isZerocoinMint).length ≤ 2

def serialsOf (node : Node) (inputs : List CTxIn) : List Int :=
  (inputs.filterMap node.zerocoin.txInToZerocoinSpend).map CoinSpend.coinSerialNumber

/-- What `CheckZerocoinSpend` asks of a spent coin. -/
structure CoinAccepted (node : Node) (tx : CTransaction)
    (fVerifySignature fFakeSerialAttack : Bool) (before : List CTxIn) (txin : CTxIn)
    (newSpend : CoinSpend) : Prop where
  denomination : newSpend.denomination ≠ .error
  declared : newSpend.denomination.toInt = txin.nSequence.toNat
  txOut : newSpend.ptxHash = node.zerocoin.txOutHash tx.vout
  signature : fVerifySignature = true →
    ∃ value, node.zerocoin.readAccumulatorValue newSpend.accChecksum = some value ∧
      newSpend.verify value (!fFakeSerialAttack) = true
  serial : newSpend.coinSerialNumber ∉ node.serialsOf before

/-- What `CheckZerocoinSpend` asks of an input after those before it. -/
def SpendAccepted (node : Node) (tx : CTransaction) (fVerifySignature fFakeSerialAttack : Bool)
    (before : List CTxIn) (txin : CTxIn) : Prop :=
  ∃ newSpend, node.zerocoin.txInToZerocoinSpend txin = some newSpend ∧
    node.CoinAccepted tx fVerifySignature fFakeSerialAttack before txin newSpend

/-- The scripts are long enough wherever the checks let a read be reached: the first byte of
the first input's script when it is looked for, and the bytes up to the coin in each mint
and each spend. -/
structure ScriptsInside (node : Node) (tx : CTransaction)
    (fFakeSerialAttack fColdStakingActive : Bool) : Prop where
  coinBase : node.WellSized tx → InTurn (fun before txout =>
    InTurn (node.OutAccepted tx fColdStakingActive) before → txout.isEmpty = true →
      tx.CoinBaseInside) tx.vout
  mints : node.WellSized tx → InTurn (fun before txout =>
    InTurn (node.OutAccepted tx fColdStakingActive) before → node.OutValued tx before txout →
      txout.isZerocoinMint = true → scriptOffset ≤ txout.scriptPubKey.length) tx.vout
  spend : node.PassesOuts tx fColdStakingActive → tx.SpendInside
  spends : node.PassesOuts tx fColdStakingActive → node.PassesSpend tx →
    ∀ tip, node.tip = some tip → InTurn (fun before txin =>
      InTurn (node.SpendAccepted tx (node.verifiesSpends tip) fFakeSerialAttack) before →
        bignumSize ≤ txin.scriptSig.length) tx.vin

section Outputs

variable {node : Node} {tx : CTransaction} {fColdStakingActive : Bool}

variable {value : Unit} {txout : CTxOut}

theorem checkSizes_eq_ok : node.checkSizes tx = .ok value ↔ node.WellSized tx := by
  unfold checkSizes
  rw [require_bind_eq_ok, require_bind_eq_ok, require_eq_ok]
  simp only [Bool.not_eq_true', List.isEmpty_eq_false_iff, decide_eq_true_eq]
  exact ⟨fun ⟨inputs, outputs, size⟩ => ⟨inputs, outputs, size⟩,
    fun sized => ⟨sized.inputs, sized.outputs, sized.size⟩⟩

theorem checkEmptyOut_eq_ok :
    require (!(txout.isEmpty && !tx.isCoinBase && !tx.isCoinStake)) (Failure.invalid 100 "") =
        .ok value ↔
      (txout.isEmpty = true → tx.isCoinBase = true ∨ tx.isCoinStake = true) := by
  cases txout.isEmpty <;> cases tx.isCoinBase <;> cases tx.isCoinStake <;> simp

theorem checkOutValue_eq_ok {before : List CTxOut} :
    node.checkOutValue (before.map nValue).sum txout = .ok value ↔
      0 ≤ txout.nValue ∧ txout.nValue ≤ node.params.nMaxMoneyOut ∧
        node.params.moneyRange ((before.map nValue).sum + txout.nValue) = true := by
  unfold checkOutValue
  rw [require_bind_eq_ok, require_bind_eq_ok, require_eq_ok, decide_eq_true_eq, decide_eq_true_eq]

theorem checkZerocoinMint_eq_ok :
    node.checkZerocoinMint txout = .ok () ↔
      ∃ pubCoin, node.zerocoin.txOutToPublicCoin txout = some pubCoin ∧
        pubCoin.validate = true := by
  unfold checkZerocoinMint
  cases node.zerocoin.txOutToPublicCoin txout with
  | none => simp
  | some pubCoin => simp [require_eq_ok]

theorem checkDelegation_eq_ok :
    node.checkDelegation fColdStakingActive txout = .ok value ↔
      (CScript.isPayToColdStaking txout.scriptPubKey = true →
        fColdStakingActive = true ∧ node.params.nMinColdStakingAmount ≤ txout.nValue) := by
  unfold checkDelegation
  rw [requireWhen_eq_ok, require_bind_eq_ok, require_eq_ok, decide_eq_true_eq]

theorem checkTxOut_eq_ok (before : List CTxOut) (txout : CTxOut) (next : Int) :
    node.checkTxOut tx true fColdStakingActive (before.map nValue).sum txout = .ok next ↔
      node.OutAccepted tx fColdStakingActive before txout ∧
        next = ((before ++ [txout]).map nValue).sum := by
  have total : ((before ++ [txout]).map nValue).sum =
      (before.map nValue).sum + txout.nValue := by simp
  rw [checkTxOut_eq, total]
  constructor
  · intro passed
    obtain ⟨_, marked, passed⟩ := bind_eq_ok.mp passed
    obtain ⟨_, valued, passed⟩ := bind_eq_ok.mp passed
    obtain ⟨_, minted, passed⟩ := bind_eq_ok.mp passed
    obtain ⟨_, delegated, passed⟩ := bind_eq_ok.mp passed
    cases passed
    obtain ⟨nonneg, bounded, range⟩ := checkOutValue_eq_ok.mp valued
    refine ⟨⟨⟨checkEmptyOut_eq_ok.mp marked, nonneg, bounded, range⟩, fun mint => ?_,
      checkDelegation_eq_ok.mp delegated⟩, rfl⟩
    exact checkZerocoinMint_eq_ok.mp (reported_eq_ok.mp (requireWhen_eq_ok.mp minted mint))
  · rintro ⟨accepted, rfl⟩
    refine bind_eq_ok.mpr ⟨(), checkEmptyOut_eq_ok.mpr accepted.marked, ?_⟩
    refine bind_eq_ok.mpr ⟨(), checkOutValue_eq_ok.mpr
      ⟨accepted.nonneg, accepted.bounded, accepted.total⟩, ?_⟩
    refine bind_eq_ok.mpr ⟨(), requireWhen_eq_ok.mpr fun mint => ?_, ?_⟩
    · exact reported_eq_ok.mpr (checkZerocoinMint_eq_ok.mpr (accepted.mint mint))
    · exact bind_eq_ok.mpr ⟨(), checkDelegation_eq_ok.mpr accepted.delegation, rfl⟩

theorem inBounds_checkTxOutScriptRead (before : List CTxOut) (txout : CTxOut) :
    InBounds
        (node.checkTxOutScriptRead tx true fColdStakingActive (before.map nValue).sum
          txout) ↔
      (txout.isEmpty = true → tx.CoinBaseInside) ∧
        (node.OutValued tx before txout → txout.isZerocoinMint = true →
          scriptOffset ≤ txout.scriptPubKey.length) := by
  unfold checkTxOutScriptRead
  rw [Refines.inBounds_bind (refines_checkEmptyOutRead txout), inBounds_checkEmptyOutRead]
  refine and_congr_right fun _ => ?_
  have minted : InBounds (requireWhen (true && txout.isZerocoinMint)
      (node.checkZerocoinMintRead txout)) ↔
      (txout.isZerocoinMint = true → scriptOffset ≤ txout.scriptPubKey.length) := by
    rw [Bool.true_and, inBounds_requireWhen]
    refine imp_congr_right fun mint => ?_
    unfold checkZerocoinMintRead
    rw [inBounds_bind, inBounds_readFrom]
    exact and_iff_left fun _ _ => inBounds_plainly _
  constructor
  · intro bounds valued
    have later := bounds () (checkEmptyOut_eq_ok.mpr valued.marked)
    have coin := ((Refines.inBounds_bind (Refines.plain _)).mp later).2 ()
      (checkOutValue_eq_ok.mpr ⟨valued.nonneg, valued.bounded, valued.total⟩)
    exact minted.mp (inBounds_bind.mp coin).1
  · intro inside _ marked
    refine (Refines.inBounds_bind (Refines.plain _)).mpr ⟨inBounds_plainly _, fun _ valued => ?_⟩
    obtain ⟨nonneg, bounded, total⟩ := checkOutValue_eq_ok.mp valued
    refine inBounds_bind.mpr ⟨minted.mpr ?_, fun _ _ => ?_⟩
    · exact inside ⟨checkEmptyOut_eq_ok.mp marked, nonneg, bounded, total⟩
    · exact inBounds_bind.mpr ⟨inBounds_plainly _, fun _ _ => inBounds_ok _⟩

end Outputs

section Spends

variable {node : Node} {tx : CTransaction} {fVerifySignature fFakeSerialAttack : Bool}

/-- The state of the loop in `CheckZerocoinSpend` after inputs that it lets through. -/
def redeemed (node : Node) (inputs : List CTxIn) : Redemption where
  serials := (node.serialsOf inputs).reverse
  nTotalRedeemed := ((inputs.filterMap node.zerocoin.txInToZerocoinSpend).map
    fun newSpend => newSpend.denomination.toAmount).sum
  fValidated := !inputs.isEmpty

private theorem redeemed_concat {before : List CTxIn} {txin : CTxIn} {newSpend : CoinSpend}
    (decoded : node.zerocoin.txInToZerocoinSpend txin = some newSpend) :
    node.redeemed (before ++ [txin]) =
      { serials := newSpend.coinSerialNumber :: (node.redeemed before).serials
        nTotalRedeemed := (node.redeemed before).nTotalRedeemed + newSpend.denomination.toAmount
        fValidated := true } := by
  simp [redeemed, serialsOf, decoded]

theorem checkSignature_eq_ok {newSpend : CoinSpend} {value : Unit} :
    requireWhen fVerifySignature
        (match node.zerocoin.readAccumulatorValue newSpend.accChecksum with
        | none => .error (Failure.invalid 100 "")
        | some value => require (newSpend.verify value !fFakeSerialAttack) (.invalid 100 "")) =
      .ok value ↔
    (fVerifySignature = true →
      ∃ value, node.zerocoin.readAccumulatorValue newSpend.accChecksum = some value ∧
        newSpend.verify value (!fFakeSerialAttack) = true) := by
  rw [requireWhen_eq_ok]
  cases node.zerocoin.readAccumulatorValue newSpend.accChecksum with
  | none => simp
  | some value => simp [require_eq_ok]

theorem redeemInput_eq_ok (before : List CTxIn) (txin : CTxIn) (next : Redemption) :
    node.redeemInput tx fVerifySignature fFakeSerialAttack (node.redeemed before) txin = .ok next ↔
      node.SpendAccepted tx fVerifySignature fFakeSerialAttack before txin ∧
        next = node.redeemed (before ++ [txin]) := by
  unfold redeemInput SpendAccepted
  cases decoded : node.zerocoin.txInToZerocoinSpend txin with
  | none => simp
  | some newSpend =>
    rw [redeemed_concat decoded]
    have fresh : (!(node.redeemed before).serials.contains newSpend.coinSerialNumber) = true ↔
        newSpend.coinSerialNumber ∉ node.serialsOf before := by simp [redeemed]
    constructor
    · intro passed
      obtain ⟨denomination, passed⟩ := require_bind_eq_ok.mp passed
      obtain ⟨declared, passed⟩ := require_bind_eq_ok.mp passed
      obtain ⟨txOut, passed⟩ := require_bind_eq_ok.mp passed
      obtain ⟨_, signature, passed⟩ := bind_eq_ok.mp passed
      obtain ⟨serial, passed⟩ := require_bind_eq_ok.mp passed
      cases passed
      refine ⟨⟨newSpend, rfl, ?_⟩, rfl⟩
      exact ⟨bne_iff_ne.mp denomination, beq_iff_eq.mp declared, beq_iff_eq.mp txOut,
        checkSignature_eq_ok.mp signature, fresh.mp serial⟩
    · intro ⟨⟨_, same, accepted⟩, result⟩
      cases same
      cases result
      apply require_bind_eq_ok.mpr
      refine ⟨bne_iff_ne.mpr accepted.denomination, require_bind_eq_ok.mpr ?_⟩
      refine ⟨beq_iff_eq.mpr accepted.declared, require_bind_eq_ok.mpr ?_⟩
      refine ⟨beq_iff_eq.mpr accepted.txOut, bind_eq_ok.mpr ?_⟩
      refine ⟨(), checkSignature_eq_ok.mpr accepted.signature, require_bind_eq_ok.mpr ?_⟩
      exact ⟨fresh.mpr accepted.serial, rfl⟩

theorem checkSpendOuts_eq_ok {value : Unit} :
    checkSpendOuts tx = .ok value ↔
      (tx.isCoinStake = true ∨ (tx.vout.filter fun out => !out.isZerocoinMint).length ≤ 2) := by
  have fewer := List.length_filter_le (fun out : CTxOut => !out.isZerocoinMint) tx.vout
  unfold checkSpendOuts
  rw [require_eq_ok]
  cases tx.isCoinStake with
  | true => simp
  | false =>
    simp only [Bool.not_false, Bool.and_true, Bool.not_eq_true', Bool.and_eq_false_iff,
      decide_eq_false_iff_not, Bool.false_eq_true, false_or]
    omega

theorem inBounds_checkZerocoinSpendRead
    (inputs : ∀ txin ∈ tx.vin, CScript.isZerocoinSpend txin.scriptSig = true) :
    InBounds (node.checkZerocoinSpendRead tx fVerifySignature fFakeSerialAttack) ↔
      ((tx.isCoinStake = true ∨ (tx.vout.filter fun out => !out.isZerocoinMint).length ≤ 2) →
        InTurn (fun before txin =>
          InTurn (node.SpendAccepted tx fVerifySignature fFakeSerialAttack) before →
            bignumSize ≤ txin.scriptSig.length) tx.vin) := by
  have all : tx.zerocoinInputs = tx.vin := List.filter_eq_self.mpr inputs
  have loop : InBounds
      (tx.vin.foldlM (node.redeemInputRead tx fVerifySignature fFakeSerialAttack)
        (node.redeemed [])) ↔
      InTurn (fun before txin =>
        InTurn (node.SpendAccepted tx fVerifySignature fFakeSerialAttack) before →
          InBounds (node.redeemInputRead tx fVerifySignature fFakeSerialAttack
            (node.redeemed before) txin)) tx.vin :=
    Refines.inBounds_foldlM_inTurn refines_redeemInputRead redeemInput_eq_ok
  have round : ∀ redemption txin, InBounds
      (node.redeemInputRead tx fVerifySignature fFakeSerialAttack redemption txin) ↔
      bignumSize ≤ txin.scriptSig.length := by
    intro redemption txin
    unfold redeemInputRead
    rw [inBounds_bind, inBounds_readFrom]
    exact and_iff_left fun _ _ => inBounds_plainly _
  simp only [round] at loop
  unfold checkZerocoinSpendRead
  rw [Refines.inBounds_bind (Refines.plain _), all]
  constructor
  · intro bounds outs
    exact loop.mp (inBounds_bind.mp (bounds.2 () (checkSpendOuts_eq_ok.mpr outs))).1
  · intro inside
    refine ⟨inBounds_plainly _, fun _ outs => ?_⟩
    have redeems := loop.mpr (inside (checkSpendOuts_eq_ok.mp outs))
    exact inBounds_bind.mpr ⟨redeems, fun _ _ => inBounds_plainly _⟩

theorem inBounds_checkSpendRead (spend : tx.isZerocoinSpend = true) :
    InBounds (node.checkSpendRead tx fFakeSerialAttack) ↔
      (node.PassesSpend tx → ∀ tip, node.tip = some tip → InTurn (fun before txin =>
        InTurn (node.SpendAccepted tx (node.verifiesSpends tip) fFakeSerialAttack) before →
          bignumSize ≤ txin.scriptSig.length) tx.vin) := by
  unfold checkSpendRead
  rw [Refines.inBounds_bind (Refines.plain _)]
  constructor
  · intro bounds passes tip known
    have later := bounds.2 () (require_eq_ok.mpr (List.all_eq_true.mpr passes.inputs))
    rw [known] at later
    have loop := inBounds_reportedRead.mp later
    exact (inBounds_checkZerocoinSpendRead passes.inputs).mp loop passes.outs
  · intro inside
    refine ⟨inBounds_plainly _, fun _ all => ?_⟩
    have inputs := List.all_eq_true.mp (require_eq_ok.mp all)
    cases known : node.tip with
    | none => exact inBounds_failed _
    | some tip =>
      apply inBounds_reportedRead.mpr
      apply (inBounds_checkZerocoinSpendRead inputs).mpr
      exact fun outs => inside ⟨spend, inputs, outs⟩ tip known

end Spends

section Transactions

variable {node : Node} {tx : CTransaction} {fFakeSerialAttack fColdStakingActive : Bool}

theorem checkOuts_eq_ok {value : Int} :
    tx.vout.foldlM (node.checkTxOut tx true fColdStakingActive)
        (([] : List CTxOut).map nValue).sum = .ok value ↔
      InTurn (node.OutAccepted tx fColdStakingActive) tx.vout ∧ value = (tx.vout.map nValue).sum :=
  foldlM_eq_ok_iff_inTurn checkTxOut_eq_ok

theorem inBounds_checkOutsAndInputs :
    InBounds (node.checkOutsAndInputs tx true fColdStakingActive) ↔
      (node.WellSized tx → InTurn (fun before txout =>
        InTurn (node.OutAccepted tx fColdStakingActive) before →
          (txout.isEmpty = true → tx.CoinBaseInside) ∧
            (node.OutValued tx before txout → txout.isZerocoinMint = true →
              scriptOffset ≤ txout.scriptPubKey.length)) tx.vout) := by
  have loop : InBounds (tx.vout.foldlM (node.checkTxOutScriptRead tx true fColdStakingActive)
      (([] : List CTxOut).map nValue).sum) ↔ _ :=
    Refines.inBounds_foldlM_inTurn refines_checkTxOutScriptRead checkTxOut_eq_ok
  simp only [inBounds_checkTxOutScriptRead] at loop
  unfold checkOutsAndInputs
  rw [Refines.inBounds_bind (Refines.plain _)]
  constructor
  · intro bounds sized
    exact loop.mp (inBounds_bind.mp (bounds.2 () (checkSizes_eq_ok.mpr sized))).1
  · intro inside
    refine ⟨inBounds_plainly _, fun _ sized => ?_⟩
    have outs := loop.mpr (inside (checkSizes_eq_ok.mp sized))
    exact inBounds_bind.mpr ⟨outs, fun _ _ => inBounds_plainly _⟩

theorem checkInputsAndOutputs_eq_ok {value : Unit} :
    node.checkInputsAndOutputs tx true fColdStakingActive = .ok value ↔
      node.WellSized tx ∧ InTurn (node.OutAccepted tx fColdStakingActive) tx.vout ∧
        noDuplicateInputs [] tx.vin = true := by
  rw [checkInputsAndOutputs_eq]
  constructor
  · intro passed
    obtain ⟨_, sized, passed⟩ := bind_eq_ok.mp passed
    obtain ⟨_, outs, passed⟩ := bind_eq_ok.mp passed
    exact ⟨checkSizes_eq_ok.mp sized, (checkOuts_eq_ok.mp outs).1, require_eq_ok.mp passed⟩
  · intro ⟨sized, outs, distinct⟩
    refine bind_eq_ok.mpr ⟨(), checkSizes_eq_ok.mpr sized, ?_⟩
    exact bind_eq_ok.mpr ⟨_, checkOuts_eq_ok.mpr ⟨outs, rfl⟩, require_eq_ok.mpr distinct⟩

theorem inBounds_checkZerocoinActiveScriptRead :
    InBounds (node.checkZerocoinActiveScriptRead tx fFakeSerialAttack) ↔
      (0 ≤ node.params.nMaxZerocoinSpendsPerTransaction → tx.SpendInside ∧
        (tx.isZerocoinSpend = true → InBounds (node.checkSpendRead tx fFakeSerialAttack))) := by
  unfold checkZerocoinActiveScriptRead
  rw [Refines.inBounds_bind (Refines.plain _)]
  constructor
  · intro bounds limit
    have later := bounds.2 () (require_eq_ok.mpr (decide_eq_true limit))
    obtain ⟨first, rest⟩ :=
      (Refines.inBounds_bind CTransaction.refines_isZerocoinSpendRead).mp later
    exact ⟨CTransaction.inBounds_isZerocoinSpendRead.mp first, inBounds_requireWhen.mp (rest _ rfl)⟩
  · intro inside
    refine ⟨inBounds_plainly _, fun _ limit => ?_⟩
    obtain ⟨first, rest⟩ := inside (of_decide_eq_true (require_eq_ok.mp limit))
    apply (Refines.inBounds_bind CTransaction.refines_isZerocoinSpendRead).mpr
    refine ⟨CTransaction.inBounds_isZerocoinSpendRead.mpr first, fun zerocoinSpend same => ?_⟩
    cases same
    exact inBounds_requireWhen.mpr rest

/-- **Where `CheckTransaction` reads inside the scripts** while zerocoin is active: exactly at
the transactions whose scripts are long enough wherever the checks let a read be reached. -/
theorem inBounds_checkTransactionScriptRead :
    InBounds (node.checkTransactionScriptRead tx true fFakeSerialAttack fColdStakingActive) ↔
      node.ScriptsInside tx fFakeSerialAttack fColdStakingActive := by
  unfold checkTransactionScriptRead
  rw [Refines.inBounds_bind refines_checkOutsAndInputs, inBounds_checkOutsAndInputs]
  constructor
  · intro ⟨outs, later⟩
    have active : node.PassesOuts tx fColdStakingActive → tx.SpendInside ∧
        (tx.isZerocoinSpend = true → InBounds (node.checkSpendRead tx fFakeSerialAttack)) := by
      intro passes
      have reached := later ()
        (checkInputsAndOutputs_eq_ok.mpr ⟨passes.sized, passes.outs, passes.distinct⟩)
      exact inBounds_checkZerocoinActiveScriptRead.mp (inBounds_bind.mp reached).1 passes.limit
    exact {
      coinBase := fun sized before txout after split accepted =>
        (outs sized before txout after split accepted).1
      mints := fun sized before txout after split accepted =>
        (outs sized before txout after split accepted).2
      spend := fun passes => (active passes).1
      spends := fun passes spend =>
        (inBounds_checkSpendRead spend.spend).mp ((active passes).2 spend.spend) spend }
  · intro inside
    refine ⟨fun sized before txout after split accepted =>
      ⟨inside.coinBase sized before txout after split accepted,
        inside.mints sized before txout after split accepted⟩, fun _ passed => ?_⟩
    obtain ⟨sized, outs, distinct⟩ := checkInputsAndOutputs_eq_ok.mp passed
    have active : InBounds (node.checkZerocoinActiveScriptRead tx fFakeSerialAttack) := by
      apply inBounds_checkZerocoinActiveScriptRead.mpr
      intro limit
      have passes : node.PassesOuts tx fColdStakingActive := ⟨sized, outs, distinct, limit⟩
      refine ⟨inside.spend passes, fun spend => ?_⟩
      exact (inBounds_checkSpendRead spend).mpr (inside.spends passes)
    change InBounds (node.checkZerocoinActiveScriptRead tx fFakeSerialAttack >>= _)
    rw [Refines.inBounds_bind refines_checkZerocoinActiveScriptRead]
    refine ⟨active, fun _ checked => ?_⟩
    have limit := of_decide_eq_true (require_bind_eq_ok.mp checked).1
    exact inBounds_checkPrevoutsRead (inside.spend ⟨sized, outs, distinct, limit⟩).coinBase

end Transactions

/-! ## Scripts that are too short -/

def shortScripts (scriptSig scriptPubKey : CScript) : CTransaction :=
  ⟨1, 1, [⟨⟨0, 0⟩, scriptSig, 1⟩], [.of COIN scriptPubKey], 0⟩

/-- An empty script is read at its first byte, and a mint and a spend that are nothing but
their opcode are taken apart. -/
theorem not_inBounds_shortScripts :
    ¬InBounds ((Node.sample .main).checkTransactionScriptRead
        (shortScripts [] [0x51]) true false false) ∧
      ¬InBounds ((Node.sample .main).checkTransactionScriptRead
        (shortScripts [0x51] [Op.OP_ZEROCOINMINT]) true false false) ∧
      ¬InBounds ((Node.sample .main).checkTransactionScriptRead
        (shortScripts [Op.OP_ZEROCOINSPEND] [0x51]) true false false) := by
  unfold InBounds
  refine ⟨?_, ?_, ?_⟩ <;> rw [not_not] <;> decide +kernel

end Node

end DogeCash
