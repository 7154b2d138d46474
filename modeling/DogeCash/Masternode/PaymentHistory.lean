import DogeCash.Foundation.Run
import DogeCash.Validation.Superblocks

/-! # The payment history

`IsPaidAlready` answers whether a proposal was paid in the cycle of a budget. It also
forgets the payments of other cycles, and records the one it is asked about. It is asked
while a block is checked, so every check of a block can change what a later check of the
same or another block finds. A check is repeatable as long as the questions in between
leave the records alone that it relies on (`isBlockPayeeValid_repeatable`).
-/

namespace DogeCash

open Option (filter filter_filter)

/-- A question to `IsPaidAlready`. -/
structure PaymentQuestion where
  budget : CFinalizedBudget
  nProposalHash : UInt256
  nBlockHeight : Int
  deriving DecidableEq

def PaymentQuestion.ask (question : PaymentQuestion) (history : PaymentHistory) : PaymentHistory :=
  (question.budget.isPaidAlready question.nProposalHash question.nBlockHeight history).2

abbrev Records := UInt256 → Int → Bool

namespace PaymentHistory

def AgreesOn (records : Records) (first second : PaymentHistory) : Prop :=
  ∀ hash, (first hash).filter (records hash) = (second hash).filter (records hash)

/-- A question leaves some records alone: its budget pays at their heights, and it records
none of them. -/
def LeavesAlone (records : Records) (question : PaymentQuestion) (history : PaymentHistory) :
    Prop :=
  (∀ hash nHeight, history hash = some nHeight → records hash nHeight = true →
      question.budget.pays nHeight = true) ∧
    (records question.nProposalHash question.nBlockHeight = true →
      ∃ nHeight, history question.nProposalHash = some nHeight ∧
        question.budget.pays nHeight = true)

theorem ask_apply (question : PaymentQuestion) (history : PaymentHistory) (hash : UInt256) :
    question.ask history hash =
      if hash = question.nProposalHash then
        some (((history hash).filter (question.budget.pays ·)).getD question.nBlockHeight)
      else (history hash).filter (question.budget.pays ·) := by
  unfold PaymentQuestion.ask CFinalizedBudget.isPaidAlready
  by_cases here : hash = question.nProposalHash
  · subst here
    cases recorded : (history question.nProposalHash).filter (question.budget.pays ·) with
    | none => simp [recorded]
    | some nHeight => simp [recorded]
  · cases recorded : (history question.nProposalHash).filter (question.budget.pays ·) with
    | none => simp [recorded, here]
    | some nHeight => simp [recorded, here]

theorem isPaidAlready_fst (budget : CFinalizedBudget) (hash : UInt256) (nBlockHeight : Int)
    (history : PaymentHistory) :
    (budget.isPaidAlready hash nBlockHeight history).1 =
      ((history hash).filter (budget.pays ·)).isSome := by
  unfold CFinalizedBudget.isPaidAlready
  cases recorded : (history hash).filter (budget.pays ·) with
  | none => simp [recorded]
  | some nHeight => simp [recorded]

variable {pays kept : Int → Bool} {records : Records}

theorem filter_filter_eq_iff (record : Option Int) :
    (record.filter pays).filter kept = record.filter kept ↔
      ∀ nHeight, record = some nHeight → kept nHeight = true → pays nHeight = true := by
  cases record with
  | none => simp
  | some nHeight =>
    cases paid : pays nHeight with
    | true => simp [filter, paid]
    | false =>
      cases before : kept nHeight with
      | true => simp [filter, paid, before]
      | false => simp [filter, paid, before]

theorem filter_asked_eq {nBlockHeight : Int} {record : Option Int}
    (stays : ∀ nHeight, record = some nHeight → kept nHeight = true → pays nHeight = true)
    (new : kept nBlockHeight = true → ∃ nHeight, record = some nHeight ∧ pays nHeight = true) :
    (some ((record.filter pays).getD nBlockHeight)).filter kept = record.filter kept := by
  cases record with
  | none => simpa [filter] using new
  | some nHeight =>
    cases paid : pays nHeight with
    | true => simp [filter, paid]
    | false =>
      have forgotten : kept nHeight = false := by
        simpa [paid] using stays nHeight rfl
      have recorded : kept nBlockHeight = false := by simpa [paid] using new
      simp [filter, paid, forgotten, recorded]

theorem LeavesAlone.agreesOn {question : PaymentQuestion} {history : PaymentHistory}
    (alone : LeavesAlone records question history) :
    AgreesOn records (question.ask history) history := by
  intro hash
  rw [ask_apply]
  split_ifs with same
  · rw [same]
    exact filter_asked_eq (alone.1 question.nProposalHash) alone.2
  · exact (filter_filter_eq_iff _).mpr (alone.1 hash)

theorem AgreesOn.isPaidAlready {first second : PaymentHistory}
    (agrees : AgreesOn records first second) {budget : CFinalizedBudget} {hash : UInt256}
    (covered : ∀ nHeight, budget.pays nHeight = true → records hash nHeight = true)
    (nBlockHeight : Int) :
    (budget.isPaidAlready hash nBlockHeight first).1 =
        (budget.isPaidAlready hash nBlockHeight second).1 ∧
      AgreesOn records (budget.isPaidAlready hash nBlockHeight first).2
        (budget.isPaidAlready hash nBlockHeight second).2 := by
  have narrow : ∀ record : Option Int, (record.filter (records hash)).filter (budget.pays ·) =
      record.filter (budget.pays ·) := fun record =>
    (filter_filter_eq_iff record).mpr fun nHeight _ paid => covered nHeight paid
  have same : (first hash).filter (budget.pays ·) = (second hash).filter (budget.pays ·) := by
    rw [← narrow (first hash), agrees hash, narrow]
  constructor
  · rw [isPaidAlready_fst, isPaidAlready_fst, same]
  · intro other
    have firstAfter := ask_apply ⟨budget, hash, nBlockHeight⟩ first other
    have secondAfter := ask_apply ⟨budget, hash, nBlockHeight⟩ second other
    simp only [PaymentQuestion.ask] at firstAfter secondAfter
    rw [firstAfter, secondAfter]
    by_cases here : other = hash
    · rw [if_pos here, if_pos here, here, same]
    · rw [if_neg here, if_neg here, filter_filter, filter_filter]
      have commute : ∀ record : Option Int,
          (record.filter fun nHeight => budget.pays nHeight && records other nHeight) =
            (record.filter (records other)).filter (budget.pays ·) := by
        intro record
        rw [filter_filter]
        simp only [Bool.and_comm]
      rw [commute, commute, agrees other]

theorem AgreesOn.trans {first second third : PaymentHistory}
    (former : AgreesOn records first second) (latter : AgreesOn records second third) :
    AgreesOn records first third :=
  fun hash => (former hash).trans (latter hash)

end PaymentHistory

open PaymentHistory

/-! ## What a check asks -/

def CTxBudgetPayment.isMadeBy (payment : CTxBudgetPayment) (out : CTxOut) : Bool :=
  payment.payee = out.scriptPubKey && payment.nAmount = out.nValue

variable {payment : CTxBudgetPayment} {out : CTxOut}

theorem CTxBudgetPayment.isMadeBy_iff :
    payment.isMadeBy out = true ↔
      payment.payee = out.scriptPubKey ∧ payment.nAmount = out.nValue := by
  rw [isMadeBy, Bool.and_eq_true, decide_eq_true_eq, decide_eq_true_eq]

theorem CTxBudgetPayment.isMadeBy_eq_false :
    payment.isMadeBy out = false ↔
      ¬(payment.payee = out.scriptPubKey ∧ payment.nAmount = out.nValue) := by
  rw [← isMadeBy_iff, Bool.not_eq_true]

namespace CFinalizedBudget

variable {budget : CFinalizedBudget} {payment : CTxBudgetPayment} {nBlockHeight : Int}

def matched (budget : CFinalizedBudget) (txNew : CTransaction) (nBlockHeight : Int) :
    Option CTxBudgetPayment :=
  (budget.getBudgetPaymentByBlock nBlockHeight).filter fun payment =>
    txNew.vout.any payment.isMadeBy

theorem pays_of_scheduled (scheduled : budget.getBudgetPaymentByBlock nBlockHeight = some payment) :
    budget.pays nBlockHeight = true := by
  unfold getBudgetPaymentByBlock at scheduled
  by_cases early : nBlockHeight < budget.nBlockStart
  · rw [if_pos early] at scheduled
    cases scheduled
  rw [if_neg early] at scheduled
  obtain ⟨inside, -⟩ := List.getElem?_eq_some_iff.mp scheduled
  rw [pays, Bool.and_eq_true, decide_eq_true_eq, decide_eq_true_eq, getBlockEnd]
  omega

theorem isPaidAlready_again (hash : UInt256) (history : PaymentHistory)
    (current : budget.pays nBlockHeight = true) :
    (budget.isPaidAlready hash nBlockHeight
        (budget.isPaidAlready hash nBlockHeight history).2).2 =
      (budget.isPaidAlready hash nBlockHeight history).2 := by
  funext other
  have once := ask_apply ⟨budget, hash, nBlockHeight⟩ history other
  have twice := ask_apply ⟨budget, hash, nBlockHeight⟩
    (budget.isPaidAlready hash nBlockHeight history).2 other
  simp only [PaymentQuestion.ask] at once twice
  rw [twice, once]
  split_ifs with here
  · cases recorded : (history other).filter (budget.pays ·) with
    | none => simp [filter, current]
    | some nHeight =>
      have paid : budget.pays nHeight = true := by
        simpa using (Option.filter_eq_some_iff.mp recorded).2
      simp [filter, paid]
  · simp

theorem checkOutputs_of_unmatched {outs : List CTxOut}
    (unmatched : outs.any payment.isMadeBy = false) (status : TrxValidationStatus)
    (history : PaymentHistory) :
    budget.checkOutputs payment nBlockHeight outs status history = (status, history) := by
  induction outs with
  | nil => rfl
  | cons out rest ih =>
    rw [List.any_cons, Bool.or_eq_false_iff] at unmatched
    have other := CTxBudgetPayment.isMadeBy_eq_false.mp unmatched.1
    rw [checkOutputs, if_neg other, ih unmatched.2]

theorem checkOutputs_history (current : budget.pays nBlockHeight = true) (outs : List CTxOut)
    (status : TrxValidationStatus) (history : PaymentHistory) :
    (budget.checkOutputs payment nBlockHeight outs status history).2 =
      if outs.any payment.isMadeBy then
        (budget.isPaidAlready payment.nProposalHash nBlockHeight history).2
      else history := by
  induction outs generalizing status history with
  | nil => rfl
  | cons out rest ih =>
    rw [checkOutputs, List.any_cons]
    by_cases made : payment.payee = out.scriptPubKey ∧ payment.nAmount = out.nValue
    · have isMade := CTxBudgetPayment.isMadeBy_iff.mpr made
      rw [if_pos made, isMade, Bool.true_or, if_pos rfl]
      have again := isPaidAlready_again payment.nProposalHash history current
      rcases answer : budget.isPaidAlready payment.nProposalHash nBlockHeight history with
        ⟨paid, after⟩
      rw [answer] at again
      cases paid with
      | true => rfl
      | false =>
        rw [ih, again, ite_self]
    · have isNotMade := CTxBudgetPayment.isMadeBy_eq_false.mpr made
      rw [if_neg made, isNotMade, Bool.false_or, ih]

theorem isTransactionValid_history (budget : CFinalizedBudget) (txNew : CTransaction)
    (nBlockHeight : Int) (history : PaymentHistory) :
    (budget.isTransactionValid txNew nBlockHeight history).2 =
      match budget.matched txNew nBlockHeight with
      | none => history
      | some payment => (budget.isPaidAlready payment.nProposalHash nBlockHeight history).2 := by
  unfold isTransactionValid matched
  cases scheduled : budget.getBudgetPaymentByBlock nBlockHeight with
  | none => rfl
  | some payment =>
    simp only [checkOutputs_history (pays_of_scheduled scheduled), filter]
    split_ifs
    · rfl
    · rfl

variable {txNew : CTransaction} {records : Records} {first second : PaymentHistory}

theorem isTransactionValid_of_unmatched (unmatched : budget.matched txNew nBlockHeight = none)
    (history : PaymentHistory) :
    budget.isTransactionValid txNew nBlockHeight history = (.inValid, history) := by
  unfold isTransactionValid
  cases scheduled : budget.getBudgetPaymentByBlock nBlockHeight with
  | none => rfl
  | some payment =>
    have none : txNew.vout.any payment.isMadeBy = false := by
      simpa [matched, scheduled, filter] using unmatched
    exact checkOutputs_of_unmatched none .inValid history

theorem checkOutputs_congr (agrees : AgreesOn records first second)
    (covered : ∀ nHeight, budget.pays nHeight = true → records payment.nProposalHash nHeight = true)
    (outs : List CTxOut) (status : TrxValidationStatus) :
    (budget.checkOutputs payment nBlockHeight outs status first).1 =
        (budget.checkOutputs payment nBlockHeight outs status second).1 ∧
      AgreesOn records (budget.checkOutputs payment nBlockHeight outs status first).2
        (budget.checkOutputs payment nBlockHeight outs status second).2 := by
  induction outs generalizing status first second with
  | nil => exact ⟨rfl, agrees⟩
  | cons out rest ih =>
    rw [checkOutputs, checkOutputs]
    split_ifs with made
    · obtain ⟨answers, after⟩ := agrees.isPaidAlready covered nBlockHeight
      generalize budget.isPaidAlready payment.nProposalHash nBlockHeight first = left at *
      generalize budget.isPaidAlready payment.nProposalHash nBlockHeight second = right at *
      obtain ⟨paid, left⟩ := left
      obtain ⟨paidToo, right⟩ := right
      cases (answers : paid = paidToo)
      cases paid with
      | true => exact ⟨rfl, after⟩
      | false => exact ih after .valid
    · exact ih agrees status

theorem isTransactionValid_congr (agrees : AgreesOn records first second)
    (covered : ∀ payment, budget.matched txNew nBlockHeight = some payment →
      ∀ nHeight, budget.pays nHeight = true → records payment.nProposalHash nHeight = true) :
    (budget.isTransactionValid txNew nBlockHeight first).1 =
        (budget.isTransactionValid txNew nBlockHeight second).1 ∧
      AgreesOn records (budget.isTransactionValid txNew nBlockHeight first).2
        (budget.isTransactionValid txNew nBlockHeight second).2 := by
  unfold isTransactionValid
  cases scheduled : budget.getBudgetPaymentByBlock nBlockHeight with
  | none => exact ⟨rfl, agrees⟩
  | some payment =>
    simp only
    cases made : txNew.vout.any payment.isMadeBy with
    | false =>
      rw [checkOutputs_of_unmatched made, checkOutputs_of_unmatched made]
      exact ⟨rfl, agrees⟩
    | true =>
      refine checkOutputs_congr agrees (covered payment ?_) txNew.vout .inValid
      simp [matched, scheduled, filter, made]

end CFinalizedBudget

namespace Budgets

variable {budgets : Budgets} {node : Node} {txNew : CTransaction} {nBlockHeight : Int}

/-- The questions that a check asks while it goes through budgets. After a valid payment it
asks no more. -/
def budgetQuestions (nCountThreshold : Int) (txNew : CTransaction) (nBlockHeight : Int) :
    List CFinalizedBudget → PaymentHistory → List PaymentQuestion
  | [], _ => []
  | budget :: rest, history =>
    if nCountThreshold < budget.getVoteCount && budget.pays nBlockHeight then
      match budget.matched txNew nBlockHeight with
      | none => budgetQuestions nCountThreshold txNew nBlockHeight rest history
      | some payment =>
        ⟨budget, payment.nProposalHash, nBlockHeight⟩ ::
          match budget.isTransactionValid txNew nBlockHeight history with
          | (.valid, _) => []
          | (_, after) => budgetQuestions nCountThreshold txNew nBlockHeight rest after
    else budgetQuestions nCountThreshold txNew nBlockHeight rest history

def checksBudgets (budgets : Budgets) (node : Node) (nBlockHeight : Int) : Bool :=
  node.isSporkActive .enableSuperblocks && budgets.isBudgetPaymentBlock nBlockHeight &&
    Int.tdiv budgets.countEnabled 20 ≤ budgets.nHighestCount nBlockHeight

/-- The questions that the check of a transaction asks. -/
def questions (budgets : Budgets) (node : Node) (txNew : CTransaction) (nBlockHeight : Int) :
    List PaymentQuestion :=
  if budgets.checksBudgets node nBlockHeight then
    budgetQuestions (budgets.nCountThreshold nBlockHeight) txNew nBlockHeight
      budgets.mapFinalizedBudgets budgets.mapPayment_History
  else []

/-- The records that the check of a transaction relies on: those of the proposals it may ask
about, in the cycles of the budgets that pay them. -/
def reliesOn (budgets : Budgets) (node : Node) (txNew : CTransaction) (nBlockHeight : Int) :
    Records := fun hash nHeight =>
  budgets.checksBudgets node nBlockHeight && budgets.mapFinalizedBudgets.any fun budget =>
    budgets.nCountThreshold nBlockHeight < budget.getVoteCount && budget.pays nBlockHeight &&
      (budget.matched txNew nBlockHeight).any (·.nProposalHash = hash) && budget.pays nHeight

theorem checkBudgets_history (nCountThreshold : Int) (list : List CFinalizedBudget)
    (status : TrxValidationStatus) (fThreshold : Bool) (history : PaymentHistory) :
    (checkBudgets nCountThreshold txNew nBlockHeight list status fThreshold history).2 =
      (budgetQuestions nCountThreshold txNew nBlockHeight list history).foldl
        (fun history question => question.ask history) history := by
  induction list generalizing status fThreshold history with
  | nil => rfl
  | cons budget rest ih =>
    rw [checkBudgets, budgetQuestions]
    by_cases votes : nCountThreshold < budget.getVoteCount
    · cases paid : budget.pays nBlockHeight with
      | false => simp only [votes, ↓reduceIte, Bool.false_eq_true, Bool.and_false, ih]
      | true =>
        simp only [votes, ↓reduceIte, decide_true, Bool.and_self]
        have after := budget.isTransactionValid_history txNew nBlockHeight history
        cases made : budget.matched txNew nBlockHeight with
        | none => simp only [CFinalizedBudget.isTransactionValid_of_unmatched made, ih]
        | some payment =>
          rw [made] at after
          rcases outcome : budget.isTransactionValid txNew nBlockHeight history with
            ⟨verdict, left⟩
          rw [outcome] at after
          simp only [List.foldl_cons, PaymentQuestion.ask, ← after]
          cases verdict with
          | valid => rfl
          | inValid => exact ih _ _ _
          | doublePayment => exact ih _ _ _
          | voteThreshold => exact ih _ _ _
    · simp [votes, ih]

variable {records : Records} {first second : PaymentHistory}

/-- Histories that agree on what the budgets rely on give their check the same status. -/
theorem checkBudgets_congr {nCountThreshold : Int} {list : List CFinalizedBudget}
    (agrees : AgreesOn records first second)
    (covered : ∀ budget ∈ list, nCountThreshold < budget.getVoteCount →
      budget.pays nBlockHeight = true → ∀ payment,
        budget.matched txNew nBlockHeight = some payment →
          ∀ nHeight, budget.pays nHeight = true → records payment.nProposalHash nHeight = true)
    (status : TrxValidationStatus) (fThreshold : Bool) :
    (checkBudgets nCountThreshold txNew nBlockHeight list status fThreshold first).1 =
      (checkBudgets nCountThreshold txNew nBlockHeight list status fThreshold second).1 := by
  induction list generalizing status fThreshold first second with
  | nil => rfl
  | cons budget rest ih =>
    have later := fun other inside => covered other (List.mem_cons_of_mem budget inside)
    rw [checkBudgets, checkBudgets]
    split_ifs with votes paid
    · obtain ⟨statuses, after⟩ := CFinalizedBudget.isTransactionValid_congr agrees
        (covered budget List.mem_cons_self votes paid)
      generalize budget.isTransactionValid txNew nBlockHeight first = left at *
      generalize budget.isTransactionValid txNew nBlockHeight second = right at *
      obtain ⟨verdict, left⟩ := left
      obtain ⟨verdictToo, right⟩ := right
      cases (statuses : verdict = verdictToo)
      cases verdict with
      | valid => rfl
      | inValid => exact ih after later _ _
      | doublePayment => exact ih after later _ _
      | voteThreshold => exact ih after later _ _
    · exact ih agrees later _ _
    · exact ih agrees later _ _

def withHistory (budgets : Budgets) (history : PaymentHistory) : Budgets :=
  { budgets with mapPayment_History := history }

/-- What a status of the budgets comes to. -/
def verdict (budgets : Budgets) (node : Node) (txNew : CTransaction) (nBlockHeight : Int) :
    TrxValidationStatus → Bool
  | .valid => true
  | .inValid =>
    !node.isSporkActive .masternodeBudgetEnforcement &&
      budgets.isMasternodePaid node txNew nBlockHeight
  | .doublePayment => budgets.isMasternodePaid node txNew nBlockHeight
  | .voteThreshold => budgets.isMasternodePaid node txNew nBlockHeight

theorem isPayeeValid_eq (budgets : Budgets) (node : Node) (txNew : CTransaction)
    (nBlockHeight : Int) :
    budgets.isPayeeValid node txNew nBlockHeight =
      if node.isSporkActive .enableSuperblocks && budgets.isBudgetPaymentBlock nBlockHeight then
        (budgets.verdict node txNew nBlockHeight (budgets.isTransactionValid txNew nBlockHeight).1,
          (budgets.isTransactionValid txNew nBlockHeight).2)
      else (budgets.isMasternodePaid node txNew nBlockHeight, budgets.mapPayment_History) := by
  unfold isPayeeValid
  generalize budgets.isTransactionValid txNew nBlockHeight = outcome
  obtain ⟨status, -⟩ := outcome
  cases status with
  | inValid =>
    cases enforced : node.isSporkActive .masternodeBudgetEnforcement with
    | true => simp [verdict, enforced]
    | false => simp [verdict, enforced]
  | valid => rfl
  | doublePayment => rfl
  | voteThreshold => rfl

theorem isPayeeValid_history (budgets : Budgets) (node : Node) (txNew : CTransaction)
    (nBlockHeight : Int) :
    (budgets.isPayeeValid node txNew nBlockHeight).2 =
      (budgets.questions node txNew nBlockHeight).foldl
        (fun history question => question.ask history) budgets.mapPayment_History := by
  rw [isPayeeValid_eq, questions, checksBudgets, isTransactionValid]
  cases node.isSporkActive .enableSuperblocks && budgets.isBudgetPaymentBlock nBlockHeight with
  | false => rfl
  | true =>
    by_cases few : budgets.nHighestCount nBlockHeight < Int.tdiv budgets.countEnabled 20
    · simp [few, not_le.mpr few]
    · simp [few, not_lt.mp few, checkBudgets_history]

theorem isPayeeValid_congr
    (agrees : AgreesOn (budgets.reliesOn node txNew nBlockHeight) first second) :
    ((budgets.withHistory first).isPayeeValid node txNew nBlockHeight).1 =
      ((budgets.withHistory second).isPayeeValid node txNew nBlockHeight).1 := by
  rw [isPayeeValid_eq, isPayeeValid_eq]
  cases comes : node.isSporkActive .enableSuperblocks &&
      budgets.isBudgetPaymentBlock nBlockHeight with
  | false =>
    have refused : ∀ history, (node.isSporkActive .enableSuperblocks &&
        (budgets.withHistory history).isBudgetPaymentBlock nBlockHeight) = false :=
      fun _ => comes
    rw [refused, refused]
    rfl
  | true =>
    have reached : ∀ history, (node.isSporkActive .enableSuperblocks &&
        (budgets.withHistory history).isBudgetPaymentBlock nBlockHeight) = true :=
      fun _ => comes
    have statuses : ((budgets.withHistory first).isTransactionValid txNew nBlockHeight).1 =
        ((budgets.withHistory second).isTransactionValid txNew nBlockHeight).1 := by
      by_cases few : budgets.nHighestCount nBlockHeight < Int.tdiv budgets.countEnabled 20
      · have sooner : ∀ history,
            ((budgets.withHistory history).isTransactionValid txNew nBlockHeight).1 =
              .inValid := fun history => by
          exact congrArg Prod.fst (if_pos few)
        rw [sooner, sooner]
      · have later : ∀ history,
            ((budgets.withHistory history).isTransactionValid txNew nBlockHeight).1 =
              (checkBudgets (budgets.nCountThreshold nBlockHeight) txNew nBlockHeight
                budgets.mapFinalizedBudgets .inValid false history).1 := fun history => by
          exact congrArg Prod.fst (if_neg few)
        rw [later, later]
        apply checkBudgets_congr agrees
        intro budget known votes paid payment made nHeight inCycle
        have checks : budgets.checksBudgets node nBlockHeight = true := by
          rw [checksBudgets, comes, Bool.true_and, decide_eq_true_eq]
          exact not_lt.mp few
        rw [reliesOn, checks, Bool.true_and]
        exact List.any_eq_true.mpr ⟨budget, known, by simp [votes, paid, made, inCycle]⟩
    rw [reached, reached, if_pos rfl, if_pos rfl, statuses]
    rfl

/-! ## Calls one after another -/

/-- The budgets after a call of `IsBlockPayeeValid` on a block at a height. -/
def checkPayee (node : Node) (call : CBlock × Int) (budgets : Budgets) : Budgets :=
  if !node.isSynced then budgets
  else
    match payeeTransaction node.params call.1 call.2 with
    | none => budgets
    | some txNew => budgets.withHistory (budgets.isPayeeValid node txNew call.2).2

/-- The questions that a call asks. -/
def callQuestions (node : Node) (call : CBlock × Int) (budgets : Budgets) : List PaymentQuestion :=
  if !node.isSynced then []
  else
    match payeeTransaction node.params call.1 call.2 with
    | none => []
    | some txNew => budgets.questions node txNew call.2

/-- The records that a call relies on. -/
def callReliesOn (node : Node) (call : CBlock × Int) (budgets : Budgets) : Records :=
  if !node.isSynced then fun _ _ => false
  else
    match payeeTransaction node.params call.1 call.2 with
    | none => fun _ _ => false
    | some txNew => budgets.reliesOn node txNew call.2

def CallLeavesAlone (node : Node) (records : Records) (budgets : Budgets) (call : CBlock × Int) :
    Prop :=
  RunMeets (total PaymentQuestion.ask) (fun history question => LeavesAlone records question history)
    (budgets.callQuestions node call) budgets.mapPayment_History

theorem checkPayee_history (node : Node) (call : CBlock × Int) (budgets : Budgets) :
    budgets.checkPayee node call = budgets.withHistory
      ((budgets.callQuestions node call).foldl (fun history question => question.ask history)
        budgets.mapPayment_History) := by
  unfold checkPayee callQuestions
  cases node.isSynced with
  | false => rfl
  | true =>
    cases payeeTransaction node.params call.1 call.2 with
    | none => rfl
    | some txNew => exact congrArg budgets.withHistory (isPayeeValid_history budgets node _ _)

theorem CallLeavesAlone.agreesOn {call : CBlock × Int}
    (alone : CallLeavesAlone node records budgets call) :
    AgreesOn records (budgets.checkPayee node call).mapPayment_History
      budgets.mapPayment_History := by
  rw [checkPayee_history]
  exact RunMeets.invariant (AgreesOn records · budgets.mapPayment_History) alone
    (fun question before after here agrees asked => by
      cases asked
      exact here.agreesOn.trans agrees)
    (run_total PaymentQuestion.ask _ _) fun _ => rfl

theorem isBlockPayeeValid_congr {block : CBlock}
    (agrees : AgreesOn (budgets.callReliesOn node (block, nBlockHeight)) first second) :
    (budgets.withHistory first).isBlockPayeeValid node block nBlockHeight =
      (budgets.withHistory second).isBlockPayeeValid node block nBlockHeight := by
  unfold callReliesOn at agrees
  unfold isBlockPayeeValid
  cases synced : node.isSynced with
  | false => rfl
  | true =>
    rw [synced] at agrees
    cases payee : payeeTransaction node.params block nBlockHeight with
    | none => rfl
    | some txNew =>
      simp only [payee] at agrees
      exact isPayeeValid_congr agrees

/-- **Repeated checks.** In every run of calls of `IsBlockPayeeValid` whose questions leave
alone the records that the check of a block relies on, the verdict on that block stays as it
was. -/
theorem isBlockPayeeValid_repeatable (node : Node) (budgets : Budgets) (block : CBlock)
    (nBlockHeight : Int) (calls : List (CBlock × Int))
    (alone : RunMeets (total (checkPayee node))
      (CallLeavesAlone node (budgets.callReliesOn node (block, nBlockHeight))) calls budgets) :
    RunStays (total (checkPayee node))
      (fun now => now.isBlockPayeeValid node block nBlockHeight =
        budgets.isBlockPayeeValid node block nBlockHeight) calls budgets := by
  have records : RunStays (total (checkPayee node))
      (fun now => now = budgets.withHistory now.mapPayment_History ∧
        AgreesOn (budgets.callReliesOn node (block, nBlockHeight)) now.mapPayment_History
          budgets.mapPayment_History) calls budgets := by
    refine alone.stays _ ?_ ⟨rfl, fun _ => rfl⟩
    intro call before after here agrees stepped
    obtain ⟨only, same⟩ := agrees
    cases stepped
    refine ⟨?_, here.agreesOn.trans same⟩
    rw [checkPayee_history, only]
    rfl
  refine records.imp fun now agrees => ?_
  obtain ⟨only, same⟩ := agrees
  rw [only]
  exact isBlockPayeeValid_congr same

def twoPayments : Budgets :=
  { sampleBudgets with
    mapFinalizedBudgets := [⟨43200, [⟨500, [0x52], 100 * COIN⟩, ⟨501, [0x54], 100 * COIN⟩], 20⟩]
    mapMasternodeBlocks := Function.update (fun _ => none) 43200 (some [([0x53], 6)]) }

def secondSuperblock : CBlock :=
  stakeBlock ⟨3, 2, 42, 1600000120, 0, []⟩ ⟨8, 0⟩ [.of 0 [], .of (100 * COIN) [0x54]]

/-- A check of the second payment leaves the verdict on the first one alone. -/
theorem isBlockPayeeValid_repeatable_second :
    RunStays (total (checkPayee superblockNode))
      (fun now => now.isBlockPayeeValid superblockNode (sampleSuperblock 0) 43200 =
        twoPayments.isBlockPayeeValid superblockNode (sampleSuperblock 0) 43200)
      [(secondSuperblock, 43201)] twoPayments := by
  apply isBlockPayeeValid_repeatable
  refine ⟨?_, trivial⟩
  refine ⟨⟨fun hash nHeight recorded => ?_, fun relied => ?_⟩, trivial⟩
  · cases recorded
  · exact absurd relied (by decide)

/-- A second check of the block that makes the first payment refuses it. -/
theorem not_repeatable_same_block :
    superblockNode.isSporkActive .enableSuperblocks = true ∧
      ¬RunStays (total (checkPayee superblockNode))
        (fun now => now.isBlockPayeeValid superblockNode (sampleSuperblock 0) 43200 =
          twoPayments.isBlockPayeeValid superblockNode (sampleSuperblock 0) 43200)
        [(sampleSuperblock 0, 43200)] twoPayments := by
  refine ⟨by decide, fun stays => ?_⟩
  have same := stays.at_end (run_total _ _ _)
  revert same
  decide

end Budgets

end DogeCash
