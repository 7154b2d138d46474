import DogeCash.Validation.Node

/-! # Payments of the budget

Which blocks pay a proposal, and what the second transaction of a block has to pay: on a
budget payment block the payment that a finalized budget with enough votes schedules for
the height, and otherwise a masternode. The payment of a proposal is remembered, so that it
is not paid again in the same cycle.
-/

namespace DogeCash

/-- `MNPAYMENTS_SIGNATURES_REQUIRED` -/
def mnPaymentsSignaturesRequired : Int := 6

structure CTxBudgetPayment where
  nProposalHash : UInt256
  payee : CScript
  nAmount : Int
  deriving DecidableEq

/-- `CFinalizedBudget`, with the number of its votes. -/
structure CFinalizedBudget where
  nBlockStart : Int
  vecBudgetPayments : List CTxBudgetPayment
  nVotes : Nat
  deriving DecidableEq

inductive TrxValidationStatus where
  | inValid | valid | doublePayment | voteThreshold

/-- `mapPayment_History`: the height a proposal was paid at. -/
abbrev PaymentHistory := UInt256 → Option Int

namespace CFinalizedBudget

variable (budget : CFinalizedBudget)

def getBlockEnd : Int := budget.nBlockStart + budget.vecBudgetPayments.length - 1

def getVoteCount : Int := budget.nVotes

def pays (nBlockHeight : Int) : Bool :=
  budget.nBlockStart ≤ nBlockHeight && nBlockHeight ≤ budget.getBlockEnd

def getBudgetPaymentByBlock (nBlockHeight : Int) : Option CTxBudgetPayment :=
  if nBlockHeight < budget.nBlockStart then none
  else budget.vecBudgetPayments[(nBlockHeight - budget.nBlockStart).toNat]?

/-- `CFinalizedBudget::IsPaidAlready`. Payments of other cycles are forgotten. -/
def isPaidAlready (nProposalHash : UInt256) (nBlockHeight : Int) (history : PaymentHistory) :
    Bool × PaymentHistory :=
  let current : PaymentHistory := fun hash => (history hash).filter (budget.pays ·)
  match current nProposalHash with
  | none => (false, Function.update current nProposalHash (some nBlockHeight))
  | some _ => (true, current)

/-- The loop of `CFinalizedBudget::IsTransactionValid` over the outputs. -/
def checkOutputs (payment : CTxBudgetPayment) (nBlockHeight : Int) :
    List CTxOut → TrxValidationStatus → PaymentHistory → TrxValidationStatus × PaymentHistory
  | [], transactionStatus, history => (transactionStatus, history)
  | out :: rest, transactionStatus, history =>
    if payment.payee = out.scriptPubKey ∧ payment.nAmount = out.nValue then
      match budget.isPaidAlready payment.nProposalHash nBlockHeight history with
      | (true, after) => (.doublePayment, after)
      | (false, after) => checkOutputs payment nBlockHeight rest .valid after
    else checkOutputs payment nBlockHeight rest transactionStatus history

def isTransactionValid (txNew : CTransaction) (nBlockHeight : Int) (history : PaymentHistory) :
    TrxValidationStatus × PaymentHistory :=
  match budget.getBudgetPaymentByBlock nBlockHeight with
  | none => (.inValid, history)
  | some payment => budget.checkOutputs payment nBlockHeight txNew.vout .inValid history

end CFinalizedBudget

/-- The finalized budgets in the order of their hashes, and what the payments depend on
besides. -/
structure Budgets where
  mapFinalizedBudgets : List CFinalizedBudget
  /-- `CMasternodeMan::CountEnabled` with the active protocol. -/
  countEnabled : Int
  mapPayment_History : PaymentHistory
  /-- The payees of `mapMasternodeBlocks` with their votes. -/
  mapMasternodeBlocks : Int → Option (List (CScript × Int))

namespace Budgets

variable (budgets : Budgets)

/-- One round of the search for `nHighestCount`. -/
def higherCount (nBlockHeight : Int) (nHighestCount : Int) (budget : CFinalizedBudget) : Int :=
  if nHighestCount < budget.getVoteCount && budget.pays nBlockHeight then budget.getVoteCount
  else nHighestCount

def isBudgetPaymentBlock (nBlockHeight : Int) : Bool :=
  let nHighestCount := budgets.mapFinalizedBudgets.foldl (higherCount nBlockHeight) (-1)
  Int.tdiv budgets.countEnabled 20 < nHighestCount

/-- `nHighestCount` of `CBudgetManager::IsTransactionValid` -/
def nHighestCount (nBlockHeight : Int) : Int :=
  budgets.mapFinalizedBudgets.foldl (higherCount nBlockHeight) 0

/-- `nCountThreshold` of `CBudgetManager::IsTransactionValid` -/
def nCountThreshold (nBlockHeight : Int) : Int :=
  budgets.nHighestCount nBlockHeight - Int.tdiv budgets.countEnabled 10

/-- The loop of `CBudgetManager::IsTransactionValid` over the budgets. -/
def checkBudgets (nCountThreshold : Int) (txNew : CTransaction) (nBlockHeight : Int) :
    List CFinalizedBudget → TrxValidationStatus → Bool → PaymentHistory →
      TrxValidationStatus × PaymentHistory
  | [], transactionStatus, fThreshold, history =>
    (if fThreshold then transactionStatus else .voteThreshold, history)
  | budget :: rest, transactionStatus, fThreshold, history =>
    if nCountThreshold < budget.getVoteCount then
      if budget.pays nBlockHeight then
        match budget.isTransactionValid txNew nBlockHeight history with
        | (.valid, after) => (.valid, after)
        | (status, after) => checkBudgets nCountThreshold txNew nBlockHeight rest status true after
      else checkBudgets nCountThreshold txNew nBlockHeight rest transactionStatus true history
    else checkBudgets nCountThreshold txNew nBlockHeight rest transactionStatus fThreshold history

def isTransactionValid (txNew : CTransaction) (nBlockHeight : Int) :
    TrxValidationStatus × PaymentHistory :=
  if budgets.nHighestCount nBlockHeight < Int.tdiv budgets.countEnabled 20 then
    (.inValid, budgets.mapPayment_History)
  else
    checkBudgets (budgets.nCountThreshold nBlockHeight) txNew nBlockHeight
      budgets.mapFinalizedBudgets .inValid false budgets.mapPayment_History

def paysMasternode (requiredMasternodePayment : Int) (payee : CScript) (txNew : CTransaction) :
    Bool :=
  txNew.vout.any fun out => payee = out.scriptPubKey && out.nValue = requiredMasternodePayment

/-- `CMasternodeBlockPayees::IsTransactionValid`. Without a payee that has enough votes every
transaction is approved. -/
def approvesPayee (requiredMasternodePayment : Int) (vecPayments : List (CScript × Int))
    (txNew : CTransaction) : Bool :=
  let signed := vecPayments.filter fun payee => mnPaymentsSignaturesRequired ≤ payee.2
  signed.isEmpty || signed.any fun payee => paysMasternode requiredMasternodePayment payee.1 txNew

/-- `CMasternodePayments::IsTransactionValid` -/
def approvesMasternode (node : Node) (txNew : CTransaction) (nBlockHeight : Int) : Bool :=
  match budgets.mapMasternodeBlocks nBlockHeight with
  | none => true
  | some vecPayments =>
    approvesPayee
      (node.params.getMasternodePayment nBlockHeight (node.getBlockValue nBlockHeight))
      vecPayments txNew

/-- What `IsBlockPayeeValid` says when no budget payment is due. -/
def isMasternodePaid (node : Node) (txNew : CTransaction) (nBlockHeight : Int) : Bool :=
  budgets.approvesMasternode node txNew nBlockHeight ||
    !node.isSporkActive .masternodePaymentEnforcement

/-- `IsBlockPayeeValid` on the transaction it looks at, with the history afterwards. -/
def isPayeeValid (node : Node) (txNew : CTransaction) (nBlockHeight : Int) :
    Bool × PaymentHistory :=
  if node.isSporkActive .enableSuperblocks && budgets.isBudgetPaymentBlock nBlockHeight then
    match budgets.isTransactionValid txNew nBlockHeight with
    | (.valid, after) => (true, after)
    | (.inValid, after) =>
      if node.isSporkActive .masternodeBudgetEnforcement then (false, after)
      else (budgets.isMasternodePaid node txNew nBlockHeight, after)
    | (_, after) => (budgets.isMasternodePaid node txNew nBlockHeight, after)
  else (budgets.isMasternodePaid node txNew nBlockHeight, budgets.mapPayment_History)

/-- The transaction `IsBlockPayeeValid` looks at; the source does not check that the block
has it. -/
def payeeTransaction (params : ChainParams) (block : CBlock) (nBlockHeight : Int) :
    Option CTransaction :=
  if params.nLastPOWBlock < nBlockHeight then block.vtx[1]? else block.vtx[0]?

def isBlockPayeeValid (node : Node) (block : CBlock) (nBlockHeight : Int) : Bool :=
  if !node.isSynced then true
  else
    match payeeTransaction node.params block nBlockHeight with
    | none => true
    | some txNew => (budgets.isPayeeValid node txNew nBlockHeight).1

end Budgets

def Node.withBudgets (node : Node) (budgets : Budgets) : Node :=
  { node with
    isBudgetPaymentBlock := budgets.isBudgetPaymentBlock
    isBlockPayeeValid := budgets.isBlockPayeeValid node }

end DogeCash
