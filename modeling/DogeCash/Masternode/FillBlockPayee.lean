import DogeCash.Foundation.Writes
import DogeCash.Masternode.PaymentHistory
import DogeCash.Wallet.StakeKept

/-! # What a staker builds

`FillBlockPayee` adds to a coinstake the payment that is due at the next height:
that of the finalized budget with the most votes, or the one of a masternode.
`IsBlockPayeeValid` decides by other rules which payment it wants. The two agree when no
budget payment is due (`isMasternodePaid_fillBlockPayee`). On a budget payment block the
threshold of the check is as high as the most votes when there are fewer than ten
masternodes, so that no budget reaches it (`filled_passes_iff`).
-/

namespace DogeCash

open List (any_cons any_eq_true foldl_cons mem_cons mem_cons_of_mem mem_cons_self mem_filter
  not_mem_nil)
open CFinalizedBudget (getVoteCount)

open Function (update update_of_ne update_self)

/-- `CMasternodeBlockPayees::GetPayee`: the first payee with the most votes. -/
def getPayee (vecPayments : List (CScript × Int)) : Option CScript :=
  (vecPayments.foldl (fun best payee => if best.2 < payee.2 then (some payee.1, payee.2) else best)
    ((none, -1) : Option CScript × Int)).1

namespace Budgets

variable (budgets : Budgets)

def getBlockPayee (nBlockHeight : Int) : Option CScript :=
  (budgets.mapMasternodeBlocks nBlockHeight).bind getPayee

/-- One round of the search of `CBudgetManager::FillBlockPayee`, for the number of votes,
the payee and the amount. -/
def fillRound (nBlockHeight : Int) (best : Int × CScript × Int) (budget : CFinalizedBudget) :
    Int × CScript × Int :=
  if best.1 < budget.getVoteCount && budget.pays nBlockHeight then
    match budget.getBudgetPaymentByBlock nBlockHeight with
    | none => best
    | some payment => (budget.getVoteCount, payment.payee, payment.nAmount)
  else best

/-- `CBudgetManager::FillBlockPayee` for a coinstake -/
def fillBudgetPayee (nBlockHeight : Int) (vout : List CTxOut) : List CTxOut :=
  let best := budgets.mapFinalizedBudgets.foldl (fillRound nBlockHeight) (0, [], 0)
  if 0 < best.1 then vout ++ [.of best.2.2 best.2.1] else vout

/-- `FillBlockPayee` for a coinstake. Without votes for a payee the current masternode is
paid. -/
def fillPayee (node : Node) (currentMasternode : Option CScript) (vout : List CTxOut) :
    Except StakeStop (List CTxOut) :=
  match node.tip with
  | none => .ok vout
  | some tip =>
    let nBlockHeight := tip.nHeight + 1
    if node.isSporkActive .enableSuperblocks && budgets.isBudgetPaymentBlock nBlockHeight then
      .ok (budgets.fillBudgetPayee nBlockHeight vout)
    else
      fillBlockPayee (budgets.getBlockPayee nBlockHeight <|> currentMasternode)
        (node.params.getMasternodePayment nBlockHeight (node.getBlockValue nBlockHeight)) vout

end Budgets

/-! ## Masternode payments -/

theorem getElem?_changeValue_of_ne (change : Int → Int) (vout : List CTxOut) {i j : Nat}
    (other : i ≠ j) : (changeValue change vout i)[j]? = vout[j]? := by
  simp [changeValue, other]

theorem getElem?_foldl_changeValue (change : Int → Int) {indices : List Nat} {j : Nat}
    (others : ∀ i ∈ indices, i ≠ j) (vout : List CTxOut) :
    (indices.foldl (changeValue change) vout)[j]? = vout[j]? := by
  induction indices generalizing vout with
  | nil => rfl
  | cons i rest ih =>
    rw [foldl_cons, ih fun later mem => others later (mem_cons_of_mem _ mem),
      getElem?_changeValue_of_ne change vout (others i mem_cons_self)]

theorem mem_fillBlockPayee {payee : CScript} {masternodePayment : Int} {vout filled : List CTxOut}
    (nonempty : vout ≠ [])
    (fill : fillBlockPayee (some payee) masternodePayment vout = .ok filled) :
    CTxOut.of masternodePayment payee ∈ filled := by
  have length : 0 < vout.length := List.length_pos_of_ne_nil nonempty
  have appended : (vout ++ [CTxOut.of masternodePayment payee])[vout.length]? =
      some (.of masternodePayment payee) := by simp
  suffices here : filled[vout.length]? = some (.of masternodePayment payee) from
    List.mem_of_getElem? here
  obtain ⟨second, inside⟩ : ∃ second,
      (vout ++ [CTxOut.of masternodePayment payee])[1]? = some second :=
    ⟨_, List.getElem?_eq_getElem (by simpa using length)⟩
  simp only [fillBlockPayee, inside] at fill
  split_ifs at fill with mint pair several
  · cases fill
    exact appended
  · cases fill
    rw [getElem?_changeValue_of_ne _ _ (by omega)]
    exact appended
  · cases fill
    rw [getElem?_changeValue_of_ne _ _ (by omega), getElem?_foldl_changeValue]
    · exact appended
    · intro i mem
      have bounds := List.mem_range'_1.mp mem
      omega
  · cases fill
    exact appended

theorem foldl_getPayee (vecPayments : List (CScript × Int)) (best : Option CScript × Int) :
    let last := vecPayments.foldl
      (fun best payee => if best.2 < payee.2 then (some payee.1, payee.2) else best) best
    best.2 ≤ last.2 ∧ (∀ payee ∈ vecPayments, payee.2 ≤ last.2) ∧
      (last = best ∨ ∃ payee ∈ vecPayments, last = (some payee.1, payee.2)) := by
  induction vecPayments generalizing best with
  | nil => exact ⟨le_rfl, nofun, .inl rfl⟩
  | cons first rest ih =>
    rw [foldl_cons]
    split_ifs with more
    · obtain ⟨above, others, from_⟩ := ih (some first.1, first.2)
      refine ⟨more.le.trans above, fun payee mem => ?_, ?_⟩
      · rcases mem_cons.mp mem with same | later
        · exact same ▸ above
        · exact others payee later
      · rcases from_ with same | ⟨payee, mem, same⟩
        · exact .inr ⟨first, mem_cons_self, same⟩
        · exact .inr ⟨payee, mem_cons_of_mem _ mem, same⟩
    · obtain ⟨above, others, from_⟩ := ih best
      refine ⟨above, fun payee mem => ?_, ?_⟩
      · rcases mem_cons.mp mem with same | later
        · exact same ▸ (not_lt.mp more).trans above
        · exact others payee later
      · exact from_.imp_right fun ⟨payee, mem, same⟩ => ⟨payee, mem_cons_of_mem _ mem, same⟩

theorem getPayee_spec {vecPayments : List (CScript × Int)} {payee : CScript × Int}
    (mem : payee ∈ vecPayments) (voted : 0 ≤ payee.2) :
    ∃ best ∈ vecPayments, getPayee vecPayments = some best.1 ∧ payee.2 ≤ best.2 := by
  obtain ⟨-, others, found⟩ := foldl_getPayee vecPayments (none, -1)
  rcases found with none | ⟨best, inside, same⟩
  · have above := others payee mem
    rw [none] at above
    omega
  · refine ⟨best, inside, by rw [getPayee, same], ?_⟩
    have above := others payee mem
    rw [same] at above
    exact above

namespace Budgets

variable {budgets : Budgets} {node : Node} {nBlockHeight : Int} {txNew : CTransaction}

theorem isMasternodePaid_of_filled {currentMasternode : Option CScript} {vout : List CTxOut}
    (nonempty : vout ≠ [])
    (fill : fillBlockPayee (budgets.getBlockPayee nBlockHeight <|> currentMasternode)
      (node.params.getMasternodePayment nBlockHeight (node.getBlockValue nBlockHeight)) vout =
        .ok txNew.vout) :
    budgets.isMasternodePaid node txNew nBlockHeight = true := by
  rw [isMasternodePaid, Bool.or_eq_true]
  left
  unfold approvesMasternode
  cases known : budgets.mapMasternodeBlocks nBlockHeight with
  | none => rfl
  | some vecPayments =>
    simp only [approvesPayee, Bool.or_eq_true, List.isEmpty_iff]
    by_contra refused
    rw [not_or] at refused
    obtain ⟨voted, unpaid⟩ := refused
    obtain ⟨payee, signed⟩ := List.exists_mem_of_ne_nil _ voted
    obtain ⟨mem, enough⟩ := mem_filter.mp signed
    rw [decide_eq_true_eq] at enough
    have positive : 0 ≤ payee.2 := le_trans (by decide) enough
    obtain ⟨best, inside, chosen, most⟩ := getPayee_spec mem positive
    have payeeIs : (budgets.getBlockPayee nBlockHeight <|> currentMasternode) = some best.1 := by
      rw [getBlockPayee, known, Option.bind_some, chosen]
      rfl
    rw [payeeIs] at fill
    refine unpaid (any_eq_true.mpr ⟨best, mem_filter.mpr ⟨inside, ?_⟩, ?_⟩)
    · exact decide_eq_true (enough.trans most)
    · exact any_eq_true.mpr ⟨_, mem_fillBlockPayee nonempty fill, by simp [CTxOut.of]⟩

end Budgets

/-! ## Budget payments at one height -/

def PaymentHistory.OnlyAt (nBlockHeight : Int) (history : PaymentHistory) : Prop :=
  ∀ hash nHeight, history hash = some nHeight → nHeight = nBlockHeight

namespace CFinalizedBudget

variable {budget : CFinalizedBudget} {payment : CTxBudgetPayment} {nBlockHeight : Int}
  {history : PaymentHistory}

theorem isPaidAlready_onlyAt (current : budget.pays nBlockHeight = true)
    (only : history.OnlyAt nBlockHeight) (hash : UInt256) :
    budget.isPaidAlready hash nBlockHeight history =
      ((history hash).isSome, update history hash (some nBlockHeight)) := by
  have kept : ∀ other, (history other).filter (budget.pays ·) = history other := by
    intro other
    cases recorded : history other with
    | none => rfl
    | some nHeight =>
      rw [only other nHeight recorded]
      simp [Option.filter, current]
  unfold isPaidAlready
  simp only [kept]
  cases recorded : history hash with
  | none => rfl
  | some nHeight =>
    have same : update history hash (some nBlockHeight) = history := by
      rw [← only hash nHeight recorded, ← recorded, Function.update_eq_self]
    rw [same]
    rfl

theorem OnlyAt.update (only : history.OnlyAt nBlockHeight) (hash : UInt256) :
    PaymentHistory.OnlyAt nBlockHeight (update history hash (some nBlockHeight)) :=
  forall_update_some rfl fun other nHeight _ => only other nHeight

variable {outs : List CTxOut}

theorem checkOutputs_of_recorded (current : budget.pays nBlockHeight = true)
    (only : history.OnlyAt nBlockHeight) (recorded : (history payment.nProposalHash).isSome = true)
    (made : outs.any payment.isMadeBy = true) (status : TrxValidationStatus) :
    budget.checkOutputs payment nBlockHeight outs status history =
      (.doublePayment, update history payment.nProposalHash (some nBlockHeight)) := by
  induction outs with
  | nil => cases made
  | cons out rest ih =>
    rw [checkOutputs]
    by_cases here : payment.payee = out.scriptPubKey ∧ payment.nAmount = out.nValue
    · rw [if_pos here, isPaidAlready_onlyAt current only, recorded]
    · rw [if_neg here]
      refine ih ?_
      have other := CTxBudgetPayment.isMadeBy_eq_false.mpr here
      rwa [any_cons, other, Bool.false_or] at made

theorem checkOutputs_of_new (current : budget.pays nBlockHeight = true)
    (only : history.OnlyAt nBlockHeight) (new : history payment.nProposalHash = none)
    (made : outs.any payment.isMadeBy = true) (status : TrxValidationStatus) :
    budget.checkOutputs payment nBlockHeight outs status history =
      (if outs.countP payment.isMadeBy = 1 then .valid else .doublePayment,
        update history payment.nProposalHash (some nBlockHeight)) := by
  induction outs with
  | nil => cases made
  | cons out rest ih =>
    rw [checkOutputs]
    by_cases here : payment.payee = out.scriptPubKey ∧ payment.nAmount = out.nValue
    · have isMade := CTxBudgetPayment.isMadeBy_iff.mpr here
      rw [if_pos here, isPaidAlready_onlyAt current only, new, Option.isSome_none,
        List.countP_cons_of_pos isMade]
      simp only
      cases again : rest.any payment.isMadeBy with
      | false =>
        have once : rest.countP payment.isMadeBy = 0 := List.countP_eq_zero.mpr fun other mem =>
            by simpa using List.any_eq_false.mp again other mem
        rw [checkOutputs_of_unmatched again, once, if_pos rfl]
      | true =>
        have twice : rest.countP payment.isMadeBy ≠ 0 := by
          obtain ⟨other, mem, makes⟩ := any_eq_true.mp again
          exact (List.countP_pos_iff.mpr ⟨other, mem, makes⟩).ne'
        rw [checkOutputs_of_recorded current (OnlyAt.update only _)
          (by rw [update_self]; rfl) again, if_neg (by omega), Function.update_idem]
    · have other := CTxBudgetPayment.isMadeBy_eq_false.mpr here
      rw [if_neg here, List.countP_cons_of_neg (by simp [other])]
      refine ih ?_
      rwa [any_cons, other, Bool.false_or] at made

/-- A budget with a payment for the height finds it valid if the payment is new and made
once. -/
theorem isTransactionValid_due {txNew : CTransaction}
    (scheduled : budget.getBudgetPaymentByBlock nBlockHeight = some payment)
    (only : history.OnlyAt nBlockHeight) :
    budget.isTransactionValid txNew nBlockHeight history =
      if txNew.vout.countP payment.isMadeBy = 0 then (.inValid, history)
      else
        (if history payment.nProposalHash = none ∧ txNew.vout.countP payment.isMadeBy = 1
          then .valid else .doublePayment,
          update history payment.nProposalHash (some nBlockHeight)) := by
  have current := pays_of_scheduled scheduled
  simp only [isTransactionValid, scheduled]
  cases made : txNew.vout.any payment.isMadeBy with
  | false =>
    have never : txNew.vout.countP payment.isMadeBy = 0 := List.countP_eq_zero.mpr fun out mem =>
        by simpa using List.any_eq_false.mp made out mem
    rw [checkOutputs_of_unmatched made, if_pos never]
  | true =>
    obtain ⟨out, mem, makes⟩ := any_eq_true.mp made
    rw [if_neg (List.countP_pos_iff.mpr ⟨out, mem, makes⟩).ne']
    cases recorded : history payment.nProposalHash with
    | none => simp [checkOutputs_of_new current only recorded made]
    | some nHeight =>
      simp [checkOutputs_of_recorded current only (by rw [recorded]; rfl) made]

end CFinalizedBudget

/-- The payments that budgets above a threshold schedule for a height. -/
def duePayments (nCountThreshold nBlockHeight : Int) (list : List CFinalizedBudget) :
    List CTxBudgetPayment :=
  (list.filter fun budget =>
    nCountThreshold < budget.getVoteCount && budget.pays nBlockHeight).filterMap
      (·.getBudgetPaymentByBlock nBlockHeight)

/-- One of the payments due is made by one output, is not recorded, and none of the earlier
ones for its proposal is made. -/
def MadeOnce (outs : List CTxOut) (history : PaymentHistory) (due : List CTxBudgetPayment) : Prop :=
  ∃ front payment back, due = front ++ payment :: back ∧ outs.countP payment.isMadeBy = 1 ∧
    history payment.nProposalHash = none ∧ ∀ earlier ∈ front,
      earlier.nProposalHash = payment.nProposalHash → outs.countP earlier.isMadeBy = 0

variable {outs : List CTxOut} {history : PaymentHistory} {payment : CTxBudgetPayment}
    {nCountThreshold nBlockHeight : Int}

theorem not_madeOnce_nil : ¬MadeOnce outs history [] := by
  intro made
  obtain ⟨front, payment, back, split, -⟩ := made
  cases front <;> cases split

theorem madeOnce_cons (nBlockHeight : Int) {rest : List CTxBudgetPayment} :
    MadeOnce outs history (payment :: rest) ↔
      (history payment.nProposalHash = none ∧ outs.countP payment.isMadeBy = 1) ∨
        MadeOnce outs (if outs.countP payment.isMadeBy = 0 then history
          else update history payment.nProposalHash (some nBlockHeight)) rest := by
  constructor
  · intro made
    obtain ⟨front, found, back, split, once, new, earlier⟩ := made
    cases front with
    | nil =>
      cases split
      exact .inl ⟨new, once⟩
    | cons first front =>
      cases split
      refine .inr ⟨front, found, back, rfl, once, ?_, fun other mem =>
        earlier other (mem_cons_of_mem _ mem)⟩
      split_ifs with unmade
      · exact new
      · rw [update_of_ne]
        · exact new
        · exact fun same => unmade (earlier payment mem_cons_self same.symm)
  · intro made
    rcases made with ⟨new, once⟩ | ⟨front, found, back, split, once, new, earlier⟩
    · exact ⟨[], payment, rest, rfl, once, new, nofun⟩
    · refine ⟨payment :: front, found, back, by rw [split]; rfl, once, ?_, ?_⟩
      · split_ifs at new with unmade
        · exact new
        · by_cases same : found.nProposalHash = payment.nProposalHash
          · rw [same, update_self] at new
            cases new
          · rwa [update_of_ne same] at new
      · intro other mem same
        rcases mem_cons.mp mem with first | later
        · rw [first] at same ⊢
          by_contra makes
          rw [if_neg makes, same, update_self] at new
          cases new
        · exact earlier other later same

/-- The status that the last payment due leaves when none was found valid. -/
def lastStatus (outs : List CTxOut) (due : List CTxBudgetPayment) (status : TrxValidationStatus) :
    TrxValidationStatus :=
  match due.getLast? with
  | none => status
  | some payment => if outs.countP payment.isMadeBy = 0 then .inValid else .doublePayment

theorem lastStatus_cons (outs : List CTxOut) (payment : CTxBudgetPayment)
    (rest : List CTxBudgetPayment) (status : TrxValidationStatus) :
    lastStatus outs (payment :: rest) status =
      lastStatus outs rest
        (if outs.countP payment.isMadeBy = 0 then .inValid else .doublePayment) := by
  rw [lastStatus, lastStatus, List.getLast?_cons]
  cases rest.getLast? with
  | none => rfl
  | some last => rfl

variable {budget : CFinalizedBudget}

theorem duePayments_cons_of_due (votes : nCountThreshold < budget.getVoteCount)
    (scheduled : budget.getBudgetPaymentByBlock nBlockHeight = some payment)
    (rest : List CFinalizedBudget) :
    duePayments nCountThreshold nBlockHeight (budget :: rest) =
      payment :: duePayments nCountThreshold nBlockHeight rest := by
  simp [duePayments, votes, CFinalizedBudget.pays_of_scheduled scheduled, scheduled]

theorem duePayments_cons_of_not_due
    (other : ¬(nCountThreshold < budget.getVoteCount ∧ budget.pays nBlockHeight = true))
    (rest : List CFinalizedBudget) :
    duePayments nCountThreshold nBlockHeight (budget :: rest) =
      duePayments nCountThreshold nBlockHeight rest := by
  rw [duePayments, List.filter_cons_of_neg (by simpa using other)]
  rfl

theorem CFinalizedBudget.exists_scheduled {nBlockHeight : Int}
    (current : budget.pays nBlockHeight = true) :
    ∃ payment, budget.getBudgetPaymentByBlock nBlockHeight = some payment := by
  rw [pays, Bool.and_eq_true, decide_eq_true_eq, decide_eq_true_eq, getBlockEnd] at current
  have inside : (nBlockHeight - budget.nBlockStart).toNat < budget.vecBudgetPayments.length := by
    omega
  rw [getBudgetPaymentByBlock, if_neg (by omega)]
  exact ⟨_, List.getElem?_eq_getElem inside⟩

namespace Budgets

variable {budgets : Budgets} {node : Node} {nBlockHeight : Int} {txNew : CTransaction}

/-- The status of the check of the budgets. -/
theorem checkBudgets_status (txNew : CTransaction) (nCountThreshold : Int)
    (list : List CFinalizedBudget) (status : TrxValidationStatus) (fThreshold : Bool)
    {history : PaymentHistory} (only : history.OnlyAt nBlockHeight) :
    (MadeOnce txNew.vout history (duePayments nCountThreshold nBlockHeight list) →
      (checkBudgets nCountThreshold txNew nBlockHeight list status fThreshold history).1 = .valid) ∧
    (¬MadeOnce txNew.vout history (duePayments nCountThreshold nBlockHeight list) →
      (checkBudgets nCountThreshold txNew nBlockHeight list status fThreshold history).1 =
        if fThreshold || list.any (fun budget => nCountThreshold < budget.getVoteCount) then
          lastStatus txNew.vout (duePayments nCountThreshold nBlockHeight list) status
        else .voteThreshold) := by
  induction list generalizing status fThreshold history with
  | nil =>
    refine ⟨fun made => absurd made not_madeOnce_nil, fun _ => ?_⟩
    simp [checkBudgets, lastStatus, duePayments]
  | cons budget rest ih =>
    rw [checkBudgets, any_cons]
    by_cases votes : nCountThreshold < budget.getVoteCount
    · rw [if_pos votes, decide_eq_true votes, Bool.true_or, Bool.or_true]
      cases paid : budget.pays nBlockHeight with
      | false =>
        rw [if_neg Bool.false_ne_true, duePayments_cons_of_not_due (by simp [paid])]
        simpa using ih status true only
      | true =>
        obtain ⟨payment, scheduled⟩ := CFinalizedBudget.exists_scheduled paid
        rw [if_pos rfl, duePayments_cons_of_due votes scheduled,
          CFinalizedBudget.isTransactionValid_due scheduled only,
          madeOnce_cons nBlockHeight, lastStatus_cons]
        by_cases unmade : txNew.vout.countP payment.isMadeBy = 0
        · -- the payment is not made, and the search goes on with the same history
          have later := ih .inValid true only
          simp only [unmade, ↓reduceIte, Nat.zero_ne_one, and_false, false_or]
          simpa using later
        · by_cases settled : history payment.nProposalHash = none ∧
              txNew.vout.countP payment.isMadeBy = 1
          · simp only [↓reduceIte, settled]
            exact ⟨fun _ => rfl, fun other => absurd (.inl ⟨trivial, trivial⟩) other⟩
          · have later := ih .doublePayment true
              (CFinalizedBudget.OnlyAt.update only payment.nProposalHash)
            simp only [unmade, ↓reduceIte, settled, false_or]
            simpa using later
    · rw [if_neg votes, decide_eq_false votes, Bool.false_or,
        duePayments_cons_of_not_due fun both => votes both.1]
      exact ih status fThreshold only

/-! ## The budget with the most votes -/

/-- The first of the budgets with the most votes among those that pay at a height. -/
def IsHighest (budgets : Budgets) (nBlockHeight : Int) (winner : CFinalizedBudget) : Prop :=
  ∃ front back, budgets.mapFinalizedBudgets = front ++ winner :: back ∧
    winner.pays nBlockHeight = true ∧
    (∀ budget ∈ front, budget.pays nBlockHeight = true →
      budget.getVoteCount < winner.getVoteCount) ∧
    ∀ budget ∈ back, budget.pays nBlockHeight = true → budget.getVoteCount ≤ winner.getVoteCount

theorem foldl_higherCount (nBlockHeight : Int) (list : List CFinalizedBudget) (start : Int) :
    let found := list.foldl (higherCount nBlockHeight) start
    start ≤ found ∧
      (∀ budget ∈ list, budget.pays nBlockHeight = true → budget.getVoteCount ≤ found) ∧
      (found = start ∨
        ∃ budget ∈ list, budget.pays nBlockHeight = true ∧ found = budget.getVoteCount) := by
  induction list generalizing start with
  | nil => exact ⟨le_rfl, nofun, .inl rfl⟩
  | cons first rest ih =>
    obtain ⟨above, others, origin⟩ := ih (higherCount nBlockHeight start first)
    have raised : start ≤ higherCount nBlockHeight start first ∧
        (first.pays nBlockHeight = true →
          first.getVoteCount ≤ higherCount nBlockHeight start first) ∧
        (higherCount nBlockHeight start first = start ∨ first.pays nBlockHeight = true ∧
          higherCount nBlockHeight start first = first.getVoteCount) := by
      unfold higherCount
      cases paid : first.pays nBlockHeight with
      | false => simp
      | true =>
        by_cases more : start < first.getVoteCount
        · simp [more, more.le]
        · simp [more, not_lt.mp more]
    refine ⟨raised.1.trans above, fun budget mem current => ?_, ?_⟩
    · rcases mem_cons.mp mem with same | later
      · rw [same] at current ⊢
        exact (raised.2.1 current).trans above
      · exact others budget later current
    · rcases origin with same | ⟨budget, mem, current, same⟩
      · rcases raised.2.2 with kept | ⟨current, taken⟩
        · exact .inl (same.trans kept)
        · exact .inr ⟨first, mem_cons_self, current, same.trans taken⟩
      · exact .inr ⟨budget, mem_cons_of_mem _ mem, current, same⟩

variable {winner : CFinalizedBudget} {payment : CTxBudgetPayment}

theorem IsHighest.foldl_eq (highest : budgets.IsHighest nBlockHeight winner) {start : Int}
    (below : start ≤ winner.getVoteCount) :
    budgets.mapFinalizedBudgets.foldl (higherCount nBlockHeight) start = winner.getVoteCount := by
  obtain ⟨front, back, split, current, former, latter⟩ := highest
  have most : ∀ budget ∈ budgets.mapFinalizedBudgets, budget.pays nBlockHeight = true →
      budget.getVoteCount ≤ winner.getVoteCount := by
    intro budget mem paid
    rw [split] at mem
    rcases List.mem_append.mp mem with inFront | inBack
    · exact (former budget inFront paid).le
    · rcases mem_cons.mp inBack with same | later
      · exact same ▸ le_rfl
      · exact latter budget later paid
  have known : winner ∈ budgets.mapFinalizedBudgets := by
    rw [split]
    exact List.mem_append_right _ mem_cons_self
  obtain ⟨-, above, origin⟩ := foldl_higherCount nBlockHeight
    budgets.mapFinalizedBudgets start
  apply le_antisymm
  · rcases origin with same | ⟨budget, mem, paid, same⟩
    · rw [same]
      exact below
    · rw [same]
      exact most budget mem paid
  · exact above winner known current

variable {list : List CFinalizedBudget}

variable {best : Int × CScript × Int}

theorem foldl_fillRound_of_le
    (most : ∀ budget ∈ list, budget.pays nBlockHeight = true → budget.getVoteCount ≤ best.1) :
    list.foldl (fillRound nBlockHeight) best = best := by
  induction list with
  | nil => rfl
  | cons first rest ih =>
    have kept : fillRound nBlockHeight best first = best := by
      unfold fillRound
      cases paid : first.pays nBlockHeight with
      | false => simp
      | true => simp [not_lt.mpr (most first mem_cons_self paid)]
    rw [foldl_cons, kept]
    exact ih fun budget mem => most budget (mem_cons_of_mem _ mem)

theorem foldl_fillRound_lt {nVotes : Int} (below : best.1 < nVotes)
    (fewer : ∀ budget ∈ list, budget.pays nBlockHeight = true → budget.getVoteCount < nVotes) :
    (list.foldl (fillRound nBlockHeight) best).1 < nVotes := by
  induction list generalizing best with
  | nil => exact below
  | cons first rest ih =>
    refine ih ?_ fun budget mem => fewer budget (mem_cons_of_mem _ mem)
    unfold fillRound
    split_ifs with more
    · split
      · exact below
      · exact fewer first mem_cons_self (Bool.and_eq_true _ _ ▸ more).2
    · exact below

theorem IsHighest.fillBudgetPayee_eq (highest : budgets.IsHighest nBlockHeight winner)
    (scheduled : winner.getBudgetPaymentByBlock nBlockHeight = some payment)
    (voted : 0 < winner.getVoteCount) (vout : List CTxOut) :
    budgets.fillBudgetPayee nBlockHeight vout = vout ++ [.of payment.nAmount payment.payee] := by
  obtain ⟨front, back, split, current, former, latter⟩ := highest
  have none : ((0, [], 0) : Int × CScript × Int).1 < winner.getVoteCount := voted
  have fewer := foldl_fillRound_lt none former
  have taken : fillRound nBlockHeight (front.foldl (fillRound nBlockHeight) (0, [], 0)) winner =
      (winner.getVoteCount, payment.payee, payment.nAmount) := by
    simp [fillRound, fewer, current, scheduled]
  rw [fillBudgetPayee, split, List.foldl_append, foldl_cons, taken, foldl_fillRound_of_le latter]
  simp only [if_pos voted]

/-! ## The staker and the network -/

def due (budgets : Budgets) (nBlockHeight : Int) : List CTxBudgetPayment :=
  duePayments (budgets.nCountThreshold nBlockHeight) nBlockHeight budgets.mapFinalizedBudgets

/-- A coinstake for the next height, as it is before and after `FillBlockPayee` and in a
block, at a synced node without payments in the history. -/
structure Produced (budgets : Budgets) (node : Node) (currentMasternode : Option CScript)
    (nBlockHeight : Int) (coinStake txNew : CTransaction) (block : CBlock) : Prop where
  synced : node.isSynced = true
  next : ∃ tip, node.tip = some tip ∧ nBlockHeight = tip.nHeight + 1
  counted : 0 ≤ budgets.countEnabled
  unpaid : budgets.mapPayment_History = fun _ => none
  due : budgets.isBudgetPaymentBlock nBlockHeight = true
  outputs : coinStake.vout ≠ []
  filled : budgets.fillPayee node currentMasternode coinStake.vout = .ok txNew.vout
  looksAt : payeeTransaction node.params block nBlockHeight = some txNew

/-- When the outputs of a coinstake with the payment of the highest budget are accepted:
superblocks are off, or a payment due is made by one output, and no earlier one for its
proposal is made, or the outputs pay a masternode as far as that is enforced and are not
invalid for the budgets. -/
def Accepts (budgets : Budgets) (node : Node) (nBlockHeight : Int) (txNew : CTransaction) : Prop :=
  node.isSporkActive .enableSuperblocks = false ∨
    MadeOnce txNew.vout (fun _ => none) (budgets.due nBlockHeight) ∨
    (budgets.isMasternodePaid node txNew nBlockHeight = true ∧
      (node.isSporkActive .masternodeBudgetEnforcement = false ∨
        (∀ budget ∈ budgets.mapFinalizedBudgets,
          budget.getVoteCount ≤ budgets.nCountThreshold nBlockHeight) ∨
        ∃ payment, (budgets.due nBlockHeight).getLast? = some payment ∧
          0 < txNew.vout.countP payment.isMadeBy))

variable {currentMasternode : Option CScript} {coinStake : CTransaction} {block : CBlock}

theorem Produced.vout_eq
    (produced : Produced budgets node currentMasternode nBlockHeight coinStake txNew block)
    (highest : budgets.IsHighest nBlockHeight winner)
    (scheduled : winner.getBudgetPaymentByBlock nBlockHeight = some payment)
    (superblocks : node.isSporkActive .enableSuperblocks = true) :
    txNew.vout = coinStake.vout ++ [.of payment.nAmount payment.payee] := by
  obtain ⟨tip, tipIs, height⟩ := produced.next
  have votes : 0 < winner.getVoteCount := by
    have enough := produced.due
    have share := Int.tdiv_nonneg produced.counted (by decide : (0 : Int) ≤ 20)
    have above : (-1 : Int) ≤ winner.getVoteCount := by
      rw [getVoteCount]
      omega
    rw [isBudgetPaymentBlock, highest.foldl_eq above, decide_eq_true_eq] at enough
    omega
  have filled := produced.filled
  simp only [fillPayee, tipIs, ← height, superblocks, produced.due, Bool.and_self, ↓reduceIte,
    highest.fillBudgetPayee_eq scheduled votes] at filled
  exact (Except.ok.inj filled).symm

theorem isMasternodePaid_congr {other : CTransaction} (same : txNew.vout = other.vout) :
    budgets.isMasternodePaid node txNew nBlockHeight =
      budgets.isMasternodePaid node other nBlockHeight := by
  simp only [isMasternodePaid, approvesMasternode, approvesPayee, paysMasternode, same]

/-- The verdict on a transaction when no payment is in the history. -/
theorem verdict_of_unpaid (unpaid : budgets.mapPayment_History = fun _ => none)
    (enough : Int.tdiv budgets.countEnabled 20 ≤ budgets.nHighestCount nBlockHeight) :
    budgets.verdict node txNew nBlockHeight (budgets.isTransactionValid txNew nBlockHeight).1 =
        true ↔
      MadeOnce txNew.vout (fun _ => none) (budgets.due nBlockHeight) ∨
      (budgets.isMasternodePaid node txNew nBlockHeight = true ∧
        (node.isSporkActive .masternodeBudgetEnforcement = false ∨
          (∀ budget ∈ budgets.mapFinalizedBudgets,
            budget.getVoteCount ≤ budgets.nCountThreshold nBlockHeight) ∨
          ∃ payment, (budgets.due nBlockHeight).getLast? = some payment ∧
            0 < txNew.vout.countP payment.isMadeBy)) := by
  have only : PaymentHistory.OnlyAt nBlockHeight fun _ => none := fun _ _ recorded => by
    cases recorded
  obtain ⟨valid, other⟩ := checkBudgets_status txNew (budgets.nCountThreshold nBlockHeight)
    budgets.mapFinalizedBudgets .inValid false only
  rw [isTransactionValid, if_neg (not_lt.mpr enough), unpaid]
  by_cases once : MadeOnce txNew.vout (fun _ => none) (budgets.due nBlockHeight)
  · rw [valid once]
    exact iff_of_true rfl (.inl once)
  · rw [other once, Bool.false_or, or_iff_right once]
    by_cases above : (budgets.mapFinalizedBudgets.any fun budget =>
        budgets.nCountThreshold nBlockHeight < budget.getVoteCount) = true
    · rw [if_pos above, lastStatus]
      have notAll : ¬∀ budget ∈ budgets.mapFinalizedBudgets,
          budget.getVoteCount ≤ budgets.nCountThreshold nBlockHeight := by
        obtain ⟨budget, mem, more⟩ := any_eq_true.mp above
        intro all
        exact absurd (all budget mem) (not_le.mpr (by simpa using more))
      rw [or_iff_right_of_imp fun all => absurd all notAll]
      change budgets.verdict node txNew nBlockHeight
        (match (budgets.due nBlockHeight).getLast? with
          | none => .inValid
          | some payment =>
              if txNew.vout.countP payment.isMadeBy = 0 then .inValid else .doublePayment) =
            true ↔ _
      cases (budgets.due nBlockHeight).getLast? with
      | none => simp [verdict, and_comm]
      | some payment =>
        simp only [Option.some.injEq, exists_eq_left']
        generalize txNew.vout.countP payment.isMadeBy = outputs
        cases outputs with
        | zero => simp [verdict, and_comm]
        | succ outputs => simp [verdict]
    · rw [if_neg above]
      have all : ∀ budget ∈ budgets.mapFinalizedBudgets,
          budget.getVoteCount ≤ budgets.nCountThreshold nBlockHeight := by
        intro budget mem
        by_contra more
        exact above (any_eq_true.mpr ⟨budget, mem, decide_eq_true (not_le.mp more)⟩)
      exact ⟨fun paid => ⟨paid, .inr (.inl all)⟩, fun both => both.1⟩

/-- **The staker and the network.** On a budget payment block the coinstake that
`FillBlockPayee` completes is accepted exactly under these conditions on the coinstake with
the payment of the highest budget. -/
theorem filled_passes_iff
    (produced : Produced budgets node currentMasternode nBlockHeight coinStake txNew block)
    (highest : budgets.IsHighest nBlockHeight winner)
    (scheduled : winner.getBudgetPaymentByBlock nBlockHeight = some payment) :
    budgets.isBlockPayeeValid node block nBlockHeight = true ↔
      budgets.Accepts node nBlockHeight
        { coinStake with vout := coinStake.vout ++ [.of payment.nAmount payment.payee] } := by
  simp only [isBlockPayeeValid, produced.synced, Bool.not_true, Bool.false_eq_true, ↓reduceIte,
    produced.looksAt, isPayeeValid_eq, produced.due, Bool.and_true]
  cases superblocks : node.isSporkActive .enableSuperblocks with
  | false =>
    obtain ⟨tip, tipIs, height⟩ := produced.next
    have filled := produced.filled
    simp only [fillPayee, tipIs, ← height, superblocks, Bool.false_and, Bool.false_eq_true,
      ↓reduceIte] at filled
    exact iff_of_true (isMasternodePaid_of_filled produced.outputs filled) (.inl superblocks)
  | true =>
    have same := produced.vout_eq highest scheduled superblocks
    have enough : Int.tdiv budgets.countEnabled 20 ≤ budgets.nHighestCount nBlockHeight := by
      have due := produced.due
      have nonneg : (0 : Int) ≤ winner.getVoteCount := by
        rw [getVoteCount]
        omega
      rw [isBudgetPaymentBlock, highest.foldl_eq (by omega), decide_eq_true_eq] at due
      rw [nHighestCount, highest.foldl_eq nonneg]
      exact due.le
    have paid : budgets.isMasternodePaid node txNew nBlockHeight =
        budgets.isMasternodePaid node
          { coinStake with vout := coinStake.vout ++ [.of payment.nAmount payment.payee] }
          nBlockHeight := isMasternodePaid_congr same
    rw [if_pos rfl, verdict_of_unpaid produced.unpaid enough, paid, same, Accepts, superblocks]
    simp

theorem madeOnce_of_large (highest : budgets.IsHighest nBlockHeight winner)
    (scheduled : winner.getBudgetPaymentByBlock nBlockHeight = some payment)
    (large : 10 ≤ budgets.countEnabled)
    (others : ∀ out ∈ coinStake.vout, ∀ payment ∈ budgets.due nBlockHeight,
      payment.isMadeBy out = false) :
    MadeOnce (coinStake.vout ++ [.of payment.nAmount payment.payee]) (fun _ => none)
      (budgets.due nBlockHeight) := by
  have dueHere : payment ∈ budgets.due nBlockHeight := by
    have nonneg : (0 : Int) ≤ winner.getVoteCount := by
      rw [getVoteCount]
      omega
    have tenth : 1 ≤ Int.tdiv budgets.countEnabled 10 := by
      rw [Int.tdiv_eq_ediv_of_nonneg (by omega)]
      omega
    have votes : budgets.nCountThreshold nBlockHeight < winner.getVoteCount := by
      rw [nCountThreshold, nHighestCount, highest.foldl_eq nonneg]
      omega
    obtain ⟨front, back, split, current, -⟩ := highest
    refine List.mem_filterMap.mpr ⟨winner, mem_filter.mpr ⟨?_, ?_⟩, scheduled⟩
    · rw [split]
      exact List.mem_append_right _ mem_cons_self
    · rw [decide_eq_true votes, current, Bool.and_self]
  have counts : ∀ other ∈ budgets.due nBlockHeight,
      (coinStake.vout ++ [CTxOut.of payment.nAmount payment.payee]).countP other.isMadeBy =
        if other.isMadeBy (CTxOut.of payment.nAmount payment.payee) then 1 else 0 := by
    intro other mem
    have none : coinStake.vout.countP other.isMadeBy = 0 :=
      List.countP_eq_zero.mpr fun out inside => by simp [others out inside other mem]
    rw [List.countP_append, none, Nat.zero_add, List.countP_singleton]
  -- the first payment due that the added output makes is made by that output alone
  obtain ⟨found, isFirst⟩ : ∃ found, (budgets.due nBlockHeight).find?
      (·.isMadeBy (.of payment.nAmount payment.payee)) = some found := by
    apply Option.isSome_iff_exists.mp
    rw [List.find?_isSome]
    exact ⟨payment, dueHere, by simp [CTxBudgetPayment.isMadeBy, CTxOut.of]⟩
  obtain ⟨made, front, back, split, earlier⟩ := List.find?_eq_some_iff_append.mp isFirst
  refine ⟨front, found, back, split, ?_, rfl, fun other mem _ => ?_⟩
  · rw [counts found (by rw [split]; simp), if_pos made]
  · have unmade := earlier other mem
    rw [counts other (by rw [split]; simp [mem]), if_neg (by simpa using unmade)]

/-- The coinstake of a block at height 43200 before and after `FillBlockPayee`. -/
def sampleStake : CTransaction := stakeTransaction ⟨7, 0⟩ [.of 0 [], .of COIN [0x51]]

/-- A block with a coinstake that also makes the payment of `sampleBudgets`. -/
def filledBlock : CBlock :=
  stakeBlock ⟨2, 1000, 42, 1600000060, 0, []⟩ ⟨7, 0⟩
    [.of 0 [], .of COIN [0x51], .of (100 * COIN) [0x52]]

def filledStake : CTransaction :=
  stakeTransaction ⟨7, 0⟩ [.of 0 [], .of COIN [0x51], .of (100 * COIN) [0x52]]

/-- With twenty masternodes the completed coinstake is accepted. -/
theorem filled_passes_sample :
    sampleBudgets.isBlockPayeeValid superblockNode filledBlock 43200 = true := by
  have produced : Produced sampleBudgets superblockNode none 43200 sampleStake filledStake
      filledBlock :=
    { synced := rfl
      next := ⟨⟨1000, 43199, 1600000000, 8000000 * COIN⟩, rfl, rfl⟩
      counted := by decide
      unpaid := rfl
      due := by decide
      outputs := by decide
      filled := by rfl
      looksAt := by rfl }
  have highest : sampleBudgets.IsHighest 43200 ⟨43200, [⟨500, [0x52], 100 * COIN⟩], 20⟩ :=
    ⟨[], [], rfl, by decide, by decide, by decide⟩
  refine (filled_passes_iff produced highest rfl).mpr (.inr (.inl ?_))
  exact madeOnce_of_large highest rfl (by decide) (by decide)

/-- Nine masternodes, six of which vote for the budget of the height and all of which voted
for a budget of another cycle. -/
def fewMasternodes : Budgets :=
  { sampleBudgets with
    mapFinalizedBudgets :=
      [⟨43200, [⟨500, [0x52], 100 * COIN⟩], 6⟩, ⟨86400, [⟨501, [0x54], 100 * COIN⟩], 9⟩]
    countEnabled := 9 }

/-- With nine masternodes the network refuses what the staker builds. -/
theorem filled_refused_few :
    Produced fewMasternodes superblockNode none 43200 sampleStake filledStake filledBlock ∧
      fewMasternodes.IsHighest 43200 ⟨43200, [⟨500, [0x52], 100 * COIN⟩], 6⟩ ∧
      fewMasternodes.isBlockPayeeValid superblockNode filledBlock 43200 = false := by
  refine ⟨?_, ⟨[], [⟨86400, [⟨501, [0x54], 100 * COIN⟩], 9⟩], rfl, ?_, ?_, ?_⟩, ?_⟩
  · exact
      { synced := rfl
        next := ⟨⟨1000, 43199, 1600000000, 8000000 * COIN⟩, rfl, rfl⟩
        counted := by decide
        unpaid := rfl
        due := by decide
        outputs := by decide
        filled := by rfl
        looksAt := by rfl }
  · decide
  · decide
  · decide
  · decide

end Budgets

end DogeCash
