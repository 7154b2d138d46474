import DogeCash.Foundation.Reads
import DogeCash.Masternode.BudgetPayments
import DogeCash.Validation.CheckBlock

/-! # The reads of `CheckBlock`

`CheckBlock` reads elements of the vectors of the block it is given. Most of the reads come
after a test of the length. `CTransaction::IsZerocoinSpend` reads the first byte of a script
that may be empty, and `IsBlockPayeeValid` the second transaction of any block above the
last proof-of-work height. The functions here are those of the source with each of their
reads; where a read is in bounds they do what the functions without the reads do.
-/

namespace DogeCash

open Refines (ok read foldlM value plain choice)

namespace CTransaction

variable (tx : CTransaction)

/-- `CTransaction::IsZerocoinSpend` -/
def isZerocoinSpendRead : Except (Abort Failure) Bool :=
  if 0 < tx.vin.length then do
    let txin ← readAt tx.vin 0
    if txin.prevout.hash = 0 then do
      let opcode ← readAt txin.scriptSig 0
      return opcode == Op.OP_ZEROCOINSPEND
    else return false
  else return false

/-- `CTransaction::IsCoinBase` -/
def isCoinBaseRead : Except (Abort Failure) Bool :=
  if tx.vin.length = 1 then do
    let txin ← readAt tx.vin 0
    if txin.prevout.isNull then do
      let zerocoinSpend ← tx.isZerocoinSpendRead
      return !(zerocoinSpend || tx.isZerocoinMint)
    else return false
  else return false

/-- `CTransaction::IsCoinStake` -/
def isCoinStakeRead : Except (Abort Failure) Bool :=
  if tx.vin.isEmpty then return false
  else do
    let txin ← readAt tx.vin 0
    if txin.prevout.isNull && !CScript.isZerocoinSpend txin.scriptSig then return false
    else if 0 < tx.vin.length ∧ 2 ≤ tx.vout.length then do
      let out ← readAt tx.vout 0
      return out.isEmpty
    else return false

end CTransaction

/-- `CBlock::IsProofOfStake` -/
def CBlock.isProofOfStakeRead (block : CBlock) : Except (Abort Failure) Bool :=
  if 1 < block.vtx.length then do
    let tx ← readAt block.vtx 1
    tx.isCoinStakeRead
  else return false

namespace Node

/-- One round of the loop of `CheckBlock` for further coinbases. -/
def checkNoCoinBaseRead (_ : Unit) (tx : CTransaction) : Except (Abort Failure) Unit := do
  let coinBase ← tx.isCoinBaseRead
  plainly (require (!coinBase) (.invalid 100 "bad-cb-multiple"))

/-- The first transaction of a block is its only coinbase. -/
def checkCoinBaseRead (block : CBlock) : Except (Abort Failure) Unit :=
  if block.vtx.isEmpty then .error (.failed (.invalid 100 "bad-cb-missing"))
  else do
    let first ← readAt block.vtx 0
    let coinBase ← first.isCoinBaseRead
    plainly (require coinBase (.invalid 100 "bad-cb-missing"))
    block.vtx.tail.foldlM checkNoCoinBaseRead ()

/-- The shape of a proof-of-stake block. -/
def checkCoinStakeRead (block : CBlock) : Except (Abort Failure) Unit := do
  let first ← readAt block.vtx 0
  if first.vout.length = 1 then do
    let out ← readAt first.vout 0
    plainly (require out.isEmpty (.invalid 100 ""))
    let second ← readAt block.vtx 1
    let coinStake ← second.isCoinStakeRead
    plainly (require coinStake (.invalid 100 ""))
    plainly (require ((block.vtx.drop 2).all fun tx => !tx.isCoinStake) (.invalid 100 ""))
  else .error (.failed (.invalid 100 ""))

variable (node : Node)

/-- One round of the scan for inputs that are locked for another transaction. -/
def checkLocksRead (_ : Unit) (tx : CTransaction) : Except (Abort Failure) Unit := do
  let coinBase ← tx.isCoinBaseRead
  plainly (require
    (coinBase || tx.vin.all fun txin =>
      match node.mapLockedInputs txin.prevout with
      | none => true
      | some locked => locked == tx.hash)
    (.invalid 0 "conflicting-tx-ix"))

def checkTransactionLocksRead (block : CBlock) : Except (Abort Failure) Unit :=
  if node.isSporkActive .swiftTxBlockFiltering then block.vtx.foldlM node.checkLocksRead ()
  else .ok ()

/-- `CheckColdStakeFreeOutput` -/
def checkColdStakeFreeOutputRead (tx : CTransaction) (nHeight : Int) :
    Except (Abort Failure) Bool :=
  if !tx.hasP2CSOutputs then return true
  else do
    let lastOut ← readAt tx.vout (tx.vout.length - 1)
    if 3 ≤ tx.vout.length then do
      let before ← readAt tx.vout (tx.vout.length - 2)
      if lastOut.scriptPubKey ≠ before.scriptPubKey then
        return lastOut.nValue ==
            node.params.getMasternodePayment nHeight (node.getBlockValue nHeight) ||
          node.isBudgetPaymentBlock nHeight && node.isSporkActive .enableSuperblocks &&
            node.isSporkActive .masternodeBudgetEnforcement
      else return true
    else return true

end Node

namespace Budgets

variable (budgets : Budgets)

/-- `CMasternodePayments::IsTransactionValid`. At a height with payees the payment that is due
is computed first, and for it `IsZerocoinSpend` is asked. -/
def approvesMasternodeRead (node : Node) (txNew : CTransaction) (nBlockHeight : Int) :
    Except (Abort Failure) Bool :=
  if (budgets.mapMasternodeBlocks nBlockHeight).isSome then do
    let _ ← txNew.isZerocoinSpendRead
    return budgets.approvesMasternode node txNew nBlockHeight
  else return true

/-- What `IsBlockPayeeValid` says when no budget payment is due. -/
def isMasternodePaidRead (node : Node) (txNew : CTransaction) (nBlockHeight : Int) :
    Except (Abort Failure) Bool := do
  let approved ← budgets.approvesMasternodeRead node txNew nBlockHeight
  return approved || !node.isSporkActive .masternodePaymentEnforcement

/-- `IsBlockPayeeValid` on the transaction it looks at. -/
def isPayeeValidRead (node : Node) (txNew : CTransaction) (nBlockHeight : Int) :
    Except (Abort Failure) Bool :=
  if node.isSporkActive .enableSuperblocks && budgets.isBudgetPaymentBlock nBlockHeight then
    match (budgets.isTransactionValid txNew nBlockHeight).1 with
    | .valid => return true
    | .inValid =>
      if node.isSporkActive .masternodeBudgetEnforcement then return false
      else budgets.isMasternodePaidRead node txNew nBlockHeight
    | _ => budgets.isMasternodePaidRead node txNew nBlockHeight
  else budgets.isMasternodePaidRead node txNew nBlockHeight

/-- `IsBlockPayeeValid` -/
def isBlockPayeeValidRead (node : Node) (block : CBlock) (nBlockHeight : Int) :
    Except (Abort Failure) Bool :=
  if !node.isSynced then return true
  else do
    let txNew ← readAt block.vtx (if node.params.nLastPOWBlock < nBlockHeight then 1 else 0)
    budgets.isPayeeValidRead node txNew nBlockHeight

/-- The cold-stake outputs of a proof-of-stake block. -/
def checkColdStakeRead (node : Node) (block : CBlock) (nHeight : Int) :
    Except (Abort Failure) Unit :=
  if block.isProofOfStake then do
    let tx ← readAt block.vtx 1
    let valid ← (node.withBudgets budgets).checkColdStakeFreeOutputRead tx nHeight
    plainly (require valid (.invalid 0 "bad-p2cs-outs"))
  else .ok ()

/-- The checks of `CheckBlock` that depend on the height by the active chain. -/
def checkPayeeRead (node : Node) (block : CBlock) : Except (Abort Failure) Bool :=
  match node.tip with
  | none => .ok true
  | some tip =>
    let nHeight := node.heightFor tip block
    if nHeight ≠ 0 ∧ !node.isInitialBlockDownload then do
      budgets.checkColdStakeRead node block nHeight
      let valid ← budgets.isBlockPayeeValidRead node block nHeight
      plainly (require valid (.invalid 0 "bad-cb-payee"))
      return node.isSporkActive .coldStakingEnforcement
    else .ok true

end Budgets

namespace CTransaction

/-- The first input has a script to look at, where `IsZerocoinSpend` looks at it. -/
def SpendInside (tx : CTransaction) : Prop :=
  ∀ txin ∈ tx.vin.head?, txin.prevout.hash = 0 → txin.scriptSig ≠ []

/-- The same where `IsCoinBase` asks. -/
def CoinBaseInside (tx : CTransaction) : Prop :=
  ∀ txin, tx.vin = [txin] → txin.prevout.isNull = true → txin.scriptSig ≠ []

variable {tx : CTransaction}

private theorem isNull_hash {prevout : COutPoint} (null : prevout.isNull = true) :
    prevout.hash = 0 := by
  simp only [COutPoint.isNull, Bool.and_eq_true, beq_iff_eq] at null
  exact null.1

theorem SpendInside.coinBase (inside : tx.SpendInside) : tx.CoinBaseInside := by
  intro txin single null
  apply inside txin
  · rw [single]
    rfl
  · exact isNull_hash null

theorem refines_isZerocoinSpendRead : Refines tx.isZerocoinSpendRead (.ok tx.isZerocoinSpend) := by
  unfold isZerocoinSpendRead isZerocoinSpend
  cases inputs : tx.vin with
  | nil => exact ok false
  | cons txin rest =>
    refine read fun item found => ?_
    cases found
    by_cases zero : txin.prevout.hash = 0
    · rw [if_pos zero]
      refine read fun opcode first => ?_
      have same : (opcode == Op.OP_ZEROCOINSPEND) =
          (txin.prevout.hash == 0 && CScript.isZerocoinSpend txin.scriptSig) := by
        simp [zero, CScript.isZerocoinSpend, List.head?_eq_getElem?, first]
      change Refines _ (.ok (txin.prevout.hash == 0 && CScript.isZerocoinSpend txin.scriptSig))
      rw [← same]
      exact ok _
    · rw [if_neg zero]
      change Refines _ (.ok (txin.prevout.hash == 0 && CScript.isZerocoinSpend txin.scriptSig))
      rw [beq_eq_false_iff_ne.mpr zero]
      exact ok false

theorem inBounds_isZerocoinSpendRead : InBounds tx.isZerocoinSpendRead ↔ tx.SpendInside := by
  unfold isZerocoinSpendRead SpendInside
  cases tx.vin with
  | nil => simp [pure, Except.pure]
  | cons txin rest =>
    change InBounds (if txin.prevout.hash = 0 then _ else _) ↔ _
    by_cases zero : txin.prevout.hash = 0
    · rw [if_pos zero, inBounds_bind, inBounds_readAt]
      simp [zero, List.length_pos_iff, pure, Except.pure]
    · rw [if_neg zero]
      refine iff_of_true (inBounds_ok false) fun other head nonzero => ?_
      cases head
      exact absurd nonzero zero

theorem refines_isCoinBaseRead : Refines tx.isCoinBaseRead (.ok tx.isCoinBase) := by
  unfold isCoinBaseRead isCoinBase
  by_cases one : tx.vin.length = 1
  · obtain ⟨txin, single⟩ := List.length_eq_one_iff.mp one
    rw [if_pos one, single]
    refine read fun item found => ?_
    cases found
    change Refines _ (.ok (txin.prevout.isNull && !tx.containsZerocoins))
    cases null : txin.prevout.isNull with
    | true => exact Refines.bind refines_isZerocoinSpendRead fun _ => ok _
    | false => exact ok false
  · rw [if_neg one]
    split
    · rename_i single
      rw [single] at one
      exact absurd rfl one
    · exact ok false

theorem inBounds_isCoinBaseRead : InBounds tx.isCoinBaseRead ↔ tx.CoinBaseInside := by
  unfold isCoinBaseRead CoinBaseInside
  by_cases one : tx.vin.length = 1
  · obtain ⟨txin, single⟩ := List.length_eq_one_iff.mp one
    have start : (readAt tx.vin 0 : Except (Abort Failure) CTxIn) = .ok txin := by
      rw [single]
      rfl
    rw [if_pos one, start]
    change InBounds (if txin.prevout.isNull = true then _ else _) ↔ _
    by_cases null : txin.prevout.isNull = true
    · rw [if_pos null, inBounds_bind, inBounds_isZerocoinSpendRead]
      simp [SpendInside, single, null, isNull_hash null, pure, Except.pure]
    · simp [single, null, pure, Except.pure]
  · rw [if_neg one]
    simp only [pure, Except.pure, inBounds_ok, true_iff]
    intro txin single
    rw [single] at one
    exact absurd rfl one

theorem isCoinStakeRead_eq : tx.isCoinStakeRead = .ok tx.isCoinStake := by
  unfold isCoinStakeRead isCoinStake
  cases tx.vin with
  | nil => rfl
  | cons txin rest =>
    change (if _ then _ else if _ then _ else _) = _
    by_cases null : (txin.prevout.isNull && !CScript.isZerocoinSpend txin.scriptSig) = true
    · rw [if_pos null]
      cases tx.vout with
      | nil => rfl
      | cons out outs =>
        cases outs with
        | nil => rfl
        | cons other outs => simp [null, pure, Except.pure]
    · rw [if_neg null]
      cases tx.vout with
      | nil => rfl
      | cons out outs =>
        cases outs with
        | nil => rfl
        | cons other outs =>
          simp [null, readAt, pure, Except.pure, bind, Except.bind]

end CTransaction

theorem CBlock.isProofOfStakeRead_eq {block : CBlock} :
    block.isProofOfStakeRead = .ok block.isProofOfStake := by
  unfold isProofOfStakeRead isProofOfStake
  cases block.vtx with
  | nil => rfl
  | cons first rest =>
    cases rest with
    | nil => rfl
    | cons second rest =>
      exact CTransaction.isCoinStakeRead_eq

namespace Node

section Shape

variable {block : CBlock}

private theorem foldlM_checkNoCoinBase (txs : List CTransaction) :
    Refines (txs.foldlM checkNoCoinBaseRead ())
      (require (txs.all fun tx => !tx.isCoinBase) (.invalid 100 "bad-cb-multiple")) := by
  rw [← foldlM_require]
  apply foldlM
  intro state tx
  exact value CTransaction.refines_isCoinBaseRead (plain _)

theorem refines_checkCoinBaseRead : Refines (checkCoinBaseRead block) (checkCoinBase block) := by
  unfold checkCoinBaseRead checkCoinBase
  cases block.vtx with
  | nil => exact plain (.error _)
  | cons first rest =>
    refine read fun item found => ?_
    cases found
    apply value CTransaction.refines_isCoinBaseRead
    exact Refines.bind (plain _) fun _ => foldlM_checkNoCoinBase rest

theorem checkCoinBase_eq_ok {first : CTransaction} {rest : List CTransaction}
    (vtx : block.vtx = first :: rest) :
    checkCoinBase block = .ok () ↔
      first.isCoinBase = true ∧ (rest.all fun tx => !tx.isCoinBase) = true := by
  unfold checkCoinBase
  rw [vtx]
  exact require_bind_eq_ok.trans (and_congr_right fun _ => require_eq_ok)

/-- `IsCoinBase` reads no empty script, at the transactions it is asked about: those with
no transaction before them that ends the search. -/
def CoinBasesInside (block : CBlock) : Prop :=
  ∀ before tx after, block.vtx = before ++ tx :: after →
    (before ≠ [] → checkCoinBase { block with vtx := before } = .ok ()) → tx.CoinBaseInside

private theorem inBounds_noCoinBase (txs : List CTransaction) :
    InBounds (txs.foldlM checkNoCoinBaseRead ()) ↔
      ∀ before tx after, txs = before ++ tx :: after →
        (before.all fun tx => !tx.isCoinBase) = true → tx.CoinBaseInside := by
  have step : ∀ (state : Unit) (tx : CTransaction), Refines (checkNoCoinBaseRead state tx)
      (require (!tx.isCoinBase) (.invalid 100 "bad-cb-multiple")) :=
    fun _ _ => value CTransaction.refines_isCoinBaseRead (plain _)
  rw [Refines.inBounds_foldlM step]
  refine forall₃_congr fun before tx after => ?_
  have round : InBounds (checkNoCoinBaseRead () tx) ↔ tx.CoinBaseInside := by
    unfold checkNoCoinBaseRead
    rw [inBounds_bind, CTransaction.inBounds_isCoinBaseRead]
    simp
  constructor
  · intro bounds split others
    refine round.mp (bounds () split ?_)
    rw [foldlM_require, others]
    rfl
  · intro inside _ split others
    rw [foldlM_require] at others
    exact round.mpr (inside split (require_eq_ok.mp others))

theorem inBounds_checkCoinBaseRead :
    InBounds (checkCoinBaseRead block) ↔ CoinBasesInside block := by
  unfold checkCoinBaseRead CoinBasesInside
  cases block.vtx with
  | nil => simp
  | cons first rest =>
    change InBounds (first.isCoinBaseRead >>= _) ↔ _
    rw [Refines.inBounds_bind CTransaction.refines_isCoinBaseRead,
      CTransaction.inBounds_isCoinBaseRead]
    constructor
    · intro bounds before tx after split searched
      cases before with
      | nil =>
        cases split
        exact bounds.1
      | cons other before =>
        cases split
        obtain ⟨isFirst, others⟩ := (checkCoinBase_eq_ok rfl).mp (searched (by simp))
        have later := inBounds_bind.mp (bounds.2 _ rfl)
        have inside := later.2 () (by rw [isFirst]; rfl)
        exact (inBounds_noCoinBase _).mp inside before tx after rfl others
    · intro inside
      refine ⟨inside [] first rest rfl (fun absent => absurd rfl absent), ?_⟩
      rintro _ ⟨⟩
      refine inBounds_bind.mpr ⟨inBounds_plainly _, fun _ passed => ?_⟩
      have isFirst := require_eq_ok.mp (plainly_eq_ok.mp passed)
      refine (inBounds_noCoinBase rest).mpr fun before tx after split others => ?_
      refine inside (first :: before) tx after (by rw [split, List.cons_append]) fun _ => ?_
      exact (checkCoinBase_eq_ok rfl).mpr ⟨isFirst, others⟩

theorem CoinBasesInside.all (inside : CoinBasesInside block)
    (searched : checkCoinBase block = .ok ()) : ∀ tx ∈ block.vtx, tx.CoinBaseInside := by
  intro tx mem
  obtain ⟨before, after, split⟩ := List.append_of_mem mem
  refine inside before tx after split fun nonempty => ?_
  obtain ⟨first, before, rfl⟩ := List.exists_cons_of_ne_nil nonempty
  obtain ⟨isFirst, others⟩ := (checkCoinBase_eq_ok (split.trans List.cons_append)).mp searched
  rw [List.all_append, Bool.and_eq_true] at others
  exact (checkCoinBase_eq_ok rfl).mpr ⟨isFirst, others.1⟩

theorem exists_second_of_isProofOfStake (proofOfStake : block.isProofOfStake = true) :
    ∃ first second rest, block.vtx = first :: second :: rest := by
  unfold CBlock.isProofOfStake at proofOfStake
  split at proofOfStake
  · rename_i first second rest vtx
    exact ⟨first, second, rest, vtx⟩
  · cases proofOfStake

theorem checkCoinStakeRead_eq (proofOfStake : block.isProofOfStake = true) :
    checkCoinStakeRead block = plainly (checkCoinStake block) := by
  obtain ⟨first, second, rest, vtx⟩ := exists_second_of_isProofOfStake proofOfStake
  unfold checkCoinStakeRead checkCoinStake
  rw [vtx]
  change (if first.vout.length = 1 then _ else _) =
    plainly (require (first.vout.length == 1 && first.vout.all CTxOut.isEmpty) _ >>= _)
  by_cases one : first.vout.length = 1
  · obtain ⟨out, single⟩ := List.length_eq_one_iff.mp one
    have same : ([out].length == 1 && [out].all CTxOut.isEmpty) = out.isEmpty := by simp
    rw [if_pos one, single, same]
    change (plainly (require out.isEmpty _) >>= fun _ => second.isCoinStakeRead >>= _) = _
    rw [CTransaction.isCoinStakeRead_eq]
    cases out.isEmpty with
    | false => rfl
    | true =>
      cases second.isCoinStake with
      | false => rfl
      | true => rfl
  · rw [if_neg one, beq_eq_false_iff_ne.mpr one]
    rfl

variable {node : Node}

private theorem refines_checkLocksRead (state : Unit) (tx : CTransaction) :
    Refines (node.checkLocksRead state tx)
      (require
        (tx.isCoinBase || tx.vin.all fun txin =>
          match node.mapLockedInputs txin.prevout with
          | none => true
          | some locked => locked == tx.hash)
        (.invalid 0 "conflicting-tx-ix")) :=
  value CTransaction.refines_isCoinBaseRead (plain _)

theorem refines_checkTransactionLocksRead :
    Refines (node.checkTransactionLocksRead block) (node.checkTransactionLocks block) := by
  unfold checkTransactionLocksRead checkTransactionLocks
  by_cases active : node.isSporkActive .swiftTxBlockFiltering = true
  · rw [if_pos active, active, Bool.not_true, Bool.false_or, ← foldlM_require]
    exact foldlM refines_checkLocksRead block.vtx ()
  · rw [if_neg active, Bool.not_eq_true _ |>.mp active]
    exact ok ()

theorem inBounds_checkTransactionLocksRead
    (inside : ∀ tx ∈ block.vtx, tx.CoinBaseInside) :
    InBounds (node.checkTransactionLocksRead block) := by
  unfold checkTransactionLocksRead
  by_cases active : node.isSporkActive .swiftTxBlockFiltering = true
  · rw [if_pos active, Refines.inBounds_foldlM refines_checkLocksRead]
    intro before tx after _ split _
    have mem : tx ∈ block.vtx := by
      rw [split]
      simp
    exact inBounds_bind.mpr
      ⟨CTransaction.inBounds_isCoinBaseRead.mpr (inside tx mem), fun _ _ => inBounds_plainly _⟩
  · rw [if_neg active]
    exact inBounds_ok ()

/-- `CheckColdStakeFreeOutput` reads nothing outside: a transaction with a cold-stake output
has outputs. -/
theorem checkColdStakeFreeOutputRead_eq (tx : CTransaction) (nHeight : Int) :
    node.checkColdStakeFreeOutputRead tx nHeight =
      .ok (node.checkColdStakeFreeOutput tx nHeight) := by
  unfold checkColdStakeFreeOutputRead checkColdStakeFreeOutput
  by_cases cold : tx.hasP2CSOutputs = true
  · rw [cold]
    have nonempty : tx.vout ≠ [] := by
      intro empty
      rw [CTransaction.hasP2CSOutputs, empty] at cold
      cases cold
    obtain ⟨before, lastOut, split⟩ := List.eq_nil_or_concat tx.vout |>.resolve_left nonempty
    have last : (readAt tx.vout (tx.vout.length - 1) : Except (Abort Failure) CTxOut) =
        .ok lastOut := readAt_eq_ok.mpr (by simp [split])
    rw [last]
    rcases List.eq_nil_or_concat before with rfl | ⟨before, other, rfl⟩
    · rw [split]
      rfl
    · have secondLast : (readAt tx.vout (tx.vout.length - 2) : Except (Abort Failure) CTxOut) =
          .ok other := readAt_eq_ok.mpr (by simp [split])
      rw [secondLast, split, List.concat_eq_append, List.concat_eq_append]
      change (if _ then (if _ then _ else _) else _) = _
      split_ifs <;> simp_all [pure, Except.pure]
  · simp only [Bool.not_eq_true] at cold
    rw [cold]
    rfl

end Shape

/-- `IsBlockPayeeValid` is asked about the block and looks at its second transaction. -/
def payeeIsSecond (node : Node) (block : CBlock) : Bool :=
  match node.tip with
  | none => false
  | some tip =>
    let nHeight := node.heightFor tip block
    nHeight ≠ 0 && !node.isInitialBlockDownload && node.isSynced &&
      node.params.nLastPOWBlock < nHeight

end Node

namespace Budgets

/-- `IsBlockPayeeValid` gets to the masternode payments, and there are payees for the height:
no superblock is due, or its payment is not settled by the budgets. -/
def asksForPayment (budgets : Budgets) (node : Node) (txNew : CTransaction) (nBlockHeight : Int) :
    Bool :=
  (budgets.mapMasternodeBlocks nBlockHeight).isSome &&
    if node.isSporkActive .enableSuperblocks && budgets.isBudgetPaymentBlock nBlockHeight then
      match (budgets.isTransactionValid txNew nBlockHeight).1 with
      | .valid => false
      | .inValid => !node.isSporkActive .masternodeBudgetEnforcement
      | _ => true
    else true

/-- Where `IsBlockPayeeValid` gets to the masternode payments, the first input of the transaction
it looks at has a script to look at. -/
def PaymentInside (budgets : Budgets) (node : Node) (block : CBlock) : Prop :=
  ∀ tip ∈ node.tip, node.heightFor tip block ≠ 0 → node.isInitialBlockDownload = false →
    node.isSynced = true → budgets.checkColdStakeRead node block (node.heightFor tip block) = .ok () →
      ∀ txNew ∈ payeeTransaction node.params block (node.heightFor tip block),
        budgets.asksForPayment node txNew (node.heightFor tip block) = true → txNew.SpendInside

variable {budgets : Budgets} {node : Node} {block : CBlock}

section Payment

variable {txNew : CTransaction} {nHeight : Int}

theorem refines_isMasternodePaidRead :
    Refines (budgets.isMasternodePaidRead node txNew nHeight)
      (.ok (budgets.isMasternodePaid node txNew nHeight)) := by
  have approved : Refines (budgets.approvesMasternodeRead node txNew nHeight)
      (.ok (budgets.approvesMasternode node txNew nHeight)) := by
    unfold approvesMasternodeRead
    by_cases listed : (budgets.mapMasternodeBlocks nHeight).isSome = true
    · rw [if_pos listed]
      exact value CTransaction.refines_isZerocoinSpendRead (ok _)
    · rw [Bool.not_eq_true, Option.isSome_eq_false_iff, Option.isNone_iff_eq_none] at listed
      rw [approvesMasternode, listed]
      exact ok true
  exact value approved (ok _)

theorem inBounds_isMasternodePaidRead :
    InBounds (budgets.isMasternodePaidRead node txNew nHeight) ↔
      ((budgets.mapMasternodeBlocks nHeight).isSome = true → txNew.SpendInside) := by
  unfold isMasternodePaidRead approvesMasternodeRead
  rw [inBounds_bind]
  by_cases listed : (budgets.mapMasternodeBlocks nHeight).isSome = true
  · rw [if_pos listed, inBounds_bind, CTransaction.inBounds_isZerocoinSpendRead]
    simp [listed, pure, Except.pure]
  · simp [listed, pure, Except.pure]

theorem refines_isPayeeValidRead :
    Refines (budgets.isPayeeValidRead node txNew nHeight)
      (.ok (budgets.isPayeeValid node txNew nHeight).1) := by
  unfold isPayeeValidRead isPayeeValid
  by_cases superblock : (node.isSporkActive .enableSuperblocks &&
      budgets.isBudgetPaymentBlock nHeight) = true
  · rw [if_pos superblock, if_pos superblock]
    rcases budgets.isTransactionValid txNew nHeight with ⟨status, -⟩
    cases status with
    | valid => exact ok true
    | inValid =>
      by_cases enforced : node.isSporkActive .masternodeBudgetEnforcement = true
      · simp only [enforced, ↓reduceIte]
        exact ok false
      · simp only [enforced]
        exact refines_isMasternodePaidRead
    | doublePayment => exact refines_isMasternodePaidRead
    | voteThreshold => exact refines_isMasternodePaidRead
  · rw [if_neg superblock, if_neg superblock]
    exact refines_isMasternodePaidRead

theorem inBounds_isPayeeValidRead :
    InBounds (budgets.isPayeeValidRead node txNew nHeight) ↔
      (budgets.asksForPayment node txNew nHeight = true → txNew.SpendInside) := by
  unfold isPayeeValidRead asksForPayment
  by_cases superblock : (node.isSporkActive .enableSuperblocks &&
      budgets.isBudgetPaymentBlock nHeight) = true
  · rw [if_pos superblock, if_pos superblock]
    cases (budgets.isTransactionValid txNew nHeight).1 with
    | valid => simp [pure, Except.pure]
    | inValid =>
      by_cases enforced : node.isSporkActive .masternodeBudgetEnforcement = true
      · simp [enforced, pure, Except.pure]
      · simp [enforced, inBounds_isMasternodePaidRead]
    | doublePayment => simp [inBounds_isMasternodePaidRead]
    | voteThreshold => simp [inBounds_isMasternodePaidRead]
  · rw [if_neg superblock, if_neg superblock, Bool.and_true]
    exact inBounds_isMasternodePaidRead

end Payment

theorem payeeTransaction_eq (nHeight : Int) :
    payeeTransaction node.params block nHeight =
      block.vtx[if node.params.nLastPOWBlock < nHeight then 1 else 0]? := by
  rw [payeeTransaction]
  split_ifs <;> rfl

theorem refines_isBlockPayeeValidRead (nHeight : Int) :
    Refines (budgets.isBlockPayeeValidRead node block nHeight)
      (.ok (budgets.isBlockPayeeValid node block nHeight)) := by
  unfold isBlockPayeeValidRead isBlockPayeeValid
  by_cases synced : (!node.isSynced) = true
  · rw [if_pos synced, if_pos synced]
    exact ok true
  · rw [if_neg synced, if_neg synced]
    refine read fun txNew found => ?_
    rw [payeeTransaction_eq, found]
    exact refines_isPayeeValidRead

theorem checkColdStakeRead_eq (nHeight : Int) :
    budgets.checkColdStakeRead node block nHeight =
      plainly (require
        (!block.isProofOfStake ||
          (block.vtx[1]?.map
            ((node.withBudgets budgets).checkColdStakeFreeOutput · nHeight)).getD true)
        (.invalid 0 "bad-p2cs-outs")) := by
  unfold checkColdStakeRead
  by_cases proofOfStake : block.isProofOfStake = true
  · obtain ⟨first, second, rest, vtx⟩ := Node.exists_second_of_isProofOfStake proofOfStake
    have found : (readAt block.vtx 1 : Except (Abort Failure) CTransaction) = .ok second :=
      readAt_eq_ok.mpr (by rw [vtx]; rfl)
    rw [if_pos proofOfStake, found, proofOfStake, vtx]
    change ((node.withBudgets budgets).checkColdStakeFreeOutputRead second nHeight >>= _) = _
    rw [Node.checkColdStakeFreeOutputRead_eq]
    rfl
  · rw [if_neg proofOfStake, Bool.not_eq_true _ |>.mp proofOfStake]
    rfl

theorem refines_checkPayeeRead :
    Refines (budgets.checkPayeeRead node block) ((node.withBudgets budgets).checkPayee block) := by
  unfold checkPayeeRead Node.checkPayee
  cases tip : node.tip with
  | none =>
    change Refines _ (match node.tip with | none => _ | some tip => _)
    rw [tip]
    exact ok true
  | some tip' =>
    change Refines _ (match node.tip with | none => _ | some tip => _)
    rw [tip]
    refine choice (fun _ => ?_) fun _ => ok true
    rw [checkColdStakeRead_eq]
    refine Refines.bind (plain _) fun _ => ?_
    apply value (refines_isBlockPayeeValidRead _)
    exact Refines.bind (plain _) fun _ => ok _

theorem inBounds_isBlockPayeeValidRead (nonempty : block.vtx ≠ []) (nHeight : Int) :
    InBounds (budgets.isBlockPayeeValidRead node block nHeight) ↔
      (node.isSynced = true → (node.params.nLastPOWBlock < nHeight → 1 < block.vtx.length) ∧
        ∀ txNew ∈ payeeTransaction node.params block nHeight,
          budgets.asksForPayment node txNew nHeight = true → txNew.SpendInside) := by
  unfold isBlockPayeeValidRead
  by_cases synced : node.isSynced = true
  · have present : (if node.params.nLastPOWBlock < nHeight then 1 else 0) < block.vtx.length ↔
        (node.params.nLastPOWBlock < nHeight → 1 < block.vtx.length) := by
      by_cases above : node.params.nLastPOWBlock < nHeight
      · simp [above]
      · simp [above, List.length_pos_iff.mpr nonempty]
    rw [if_neg (by simp [synced]), inBounds_bind, inBounds_readAt, present, payeeTransaction_eq]
    simp [synced, readAt_eq_ok, inBounds_isPayeeValidRead]
  · simp [synced, pure, Except.pure]

theorem inBounds_checkPayeeRead (nonempty : block.vtx ≠ []) :
    InBounds (budgets.checkPayeeRead node block) ↔
      (node.payeeIsSecond block = true → 1 < block.vtx.length) ∧
        budgets.PaymentInside node block := by
  unfold checkPayeeRead Node.payeeIsSecond PaymentInside
  cases node.tip with
  | none => simp
  | some tip =>
    by_cases asked : node.heightFor tip block ≠ 0 ∧ (!node.isInitialBlockDownload) = true
    · have finished : node.isInitialBlockDownload = false := Bool.not_eq_true' _ |>.mp asked.2
      have cold : InBounds (budgets.checkColdStakeRead node block (node.heightFor tip block)) := by
        rw [checkColdStakeRead_eq]
        exact inBounds_plainly _
      simp only [if_pos asked, inBounds_bind, cold, inBounds_isBlockPayeeValidRead nonempty,
        true_and, Option.mem_some_iff, forall_eq', inBounds_plainly]
      constructor
      · intro bounds
        refine ⟨fun reads => ?_, fun _ _ synced unfrozen => ((bounds () unfrozen).1 synced).2⟩
        simp only [Bool.and_eq_true, decide_eq_true_eq] at reads
        cases proofOfStake : block.isProofOfStake with
        | true =>
          obtain ⟨first, second, rest, vtx⟩ := Node.exists_second_of_isProofOfStake proofOfStake
          simp [vtx]
        | false =>
          -- Without a coinstake nothing is checked before the payee.
          have passes :
              budgets.checkColdStakeRead node block (node.heightFor tip block) = .ok () := by
            rw [checkColdStakeRead_eq, proofOfStake]
            rfl
          exact ((bounds () passes).1 reads.1.2).1 reads.2
      · rintro ⟨inside, payment⟩ _ unfrozen
        refine ⟨fun synced => ⟨fun above => inside ?_, ?_⟩, fun _ _ _ _ => inBounds_ok _⟩
        · simp [asked.1, asked.2, synced, above]
        · exact payment asked.1 finished synced unfrozen
    · simp only [if_neg asked, inBounds_ok, true_iff]
      refine ⟨fun reads => ?_, fun other same height finished => ?_⟩
      · simp only [Bool.and_eq_true, decide_eq_true_eq] at reads
        exact absurd ⟨reads.1.1.1, reads.1.1.2⟩ asked
      · obtain rfl := Option.mem_some_iff.mp same
        exact absurd ⟨height, by rw [finished]; rfl⟩ asked

end Budgets

end DogeCash
