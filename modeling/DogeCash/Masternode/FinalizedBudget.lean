import Mathlib.Algebra.Order.BigOperators.Group.List
import DogeCash.Foundation.FixedWidth
import DogeCash.Masternode.BudgetPayments
import DogeCash.Masternode.LockTables
import DogeCash.Primitives.Serialize

/-! # The checks of a finalized budget

`CFinalizedBudget::IsValid` compares what a finalized budget pays in all with the budget of its
cycle. The sum is one of 64 bits, and no amount is looked at by itself: negative amounts and sums
that wrap around pass. The budgets that it accepts keep to the cycle's budget exactly if they
have neither.
-/

namespace DogeCash

/-- `nBudget_Fee_Confirmations` -/
def ChainParams.nBudgetFeeConfirmations (params : ChainParams) : Int :=
  match params.networkID with
  | .main => 6
  | .testnet | .regtest => 3

/-- `BUDGET_FEE_TX` -/
def budgetFeeTx : Int := 5 * COIN

/-- `PROPOSAL_FEE_TX` -/
def proposalFeeTx : Int := 350 * COIN

/-- `uint256::ToString` -/
def UInt256.toHexString (number : UInt256) : String :=
  String.ofList ((List.range 64).reverse.map fun i => Nat.digitChar (number.toNat / 16 ^ i % 16))

def Node.getTotalBudget (node : Node) (nHeight : Int) : Int :=
  if node.tip = none then 0
  else if node.params.networkID = .testnet then
    let nSubsidy := 500 * COIN
    Int.tdiv nSubsidy 100 * 10 * 146
  else if 1 < nHeight then
    let nSubsidy := node.getBlockValue nHeight + Int.tdiv (node.getBlockValue nHeight) 10
    Int.tdiv nSubsidy 100 * 10 * 1440 * 30
  else 0

/-- What the checks of the budget ask the rest of the node. -/
structure BudgetCheckEnv where
  /-- `GetTransaction`, with the hash of the block. -/
  getTransaction : UInt256 → Option (CTransaction × UInt256)
  getIXConfirmations : UInt256 → Int
  activeHeight : UInt256 → Option Int
  /-- The name of a proposal of `mapProposals`. -/
  proposalName : UInt256 → Option String
  /-- `CTransaction::ToString` of a transaction, and of an empty one. -/
  txToString : Option CTransaction → String
  /-- The hash of the name, the first block and the payments of a finalized budget. -/
  finalizedBudgetHash : String → Int → List CTxBudgetPayment → UInt256

namespace BudgetCheckEnv

variable (env : BudgetCheckEnv)

/-- The script that the collateral has to have: `OP_RETURN` and the hash. -/
def findScript (nExpectedHash : UInt256) : CScript :=
  Op.OP_RETURN :: 32 :: UInt256.serialize nExpectedHash

def isCollateralOutput (out : CTxOut) : Bool :=
  out.scriptPubKey.isNormalPaymentScript || out.scriptPubKey.isUnspendable

/-- The confirmations of the collateral, with those of its lock. -/
def confirmations (node : Node) (nTxCollateralHash nBlockHash : UInt256) : Int :=
  env.getIXConfirmations nTxCollateralHash +
    match env.activeHeight nBlockHash with
    | some nHeight => if nBlockHash = 0 then 0 else node.chainHeight - nHeight + 1
    | none => 0

/-- `IsBudgetCollateralValid`. The time and the confirmations that it returns besides are not
read by the checks. -/
def isBudgetCollateralValid (node : Node) (nTxCollateralHash nExpectedHash : UInt256)
    (fBudgetFinalization : Bool) : Except String Unit :=
  match env.getTransaction nTxCollateralHash with
  | none => .error ("Can't find collateral tx " ++ env.txToString none)
  | some (txCollateral, nBlockHash) =>
    let fee := if fBudgetFinalization then budgetFeeTx else proposalFeeTx
    let foundOpReturn := txCollateral.vout.any fun out =>
      out.scriptPubKey = findScript nExpectedHash && fee ≤ out.nValue
    let conf := env.confirmations node nTxCollateralHash nBlockHash
    if txCollateral.vout = [] then .error ""
    else if txCollateral.nLockTime ≠ 0 then .error ""
    else if !txCollateral.vout.all isCollateralOutput then
      .error ("Invalid Script " ++ env.txToString txCollateral)
    else if !foundOpReturn then
      .error ("Couldn't find opReturn " ++ UInt256.toHexString nExpectedHash ++ " in " ++
        env.txToString txCollateral)
    else if node.params.nBudgetFeeConfirmations ≤ conf then .ok ()
    else
      .error ("Collateral requires at least " ++ toString node.params.nBudgetFeeConfirmations ++
        " confirmations - " ++ toString conf ++ " confirmations")

end BudgetCheckEnv

structure CFinalizedBudgetBroadcast extends CFinalizedBudget where
  strBudgetName : String
  nFeeTXHash : UInt256

namespace CFinalizedBudgetBroadcast

variable (env : BudgetCheckEnv) (node : Node) (budget : CFinalizedBudgetBroadcast)

def getTotalPayout : Int :=
  budget.vecBudgetPayments.foldl (fun ret payment => addInt64 ret payment.nAmount) 0

def getProposals : String :=
  budget.vecBudgetPayments.foldl (fun ret payment =>
    let token := (env.proposalName payment.nProposalHash).getD
      (UInt256.toHexString payment.nProposalHash)
    if ret = "" then token else ret ++ "," ++ token) ""

def isValid (fCheckCollateral : Bool) : Except String Unit :=
  let strProposals := budget.getProposals env
  let title := "Budget " ++ budget.strBudgetName ++ " (" ++ strProposals ++ ")"
  let cycle := node.params.nBudgetCycleBlocks
  if Int.tmod budget.nBlockStart cycle ≠ 0 then .error "Invalid BlockStart"
  else if 100 < budget.getBlockEnd - budget.nBlockStart then .error "Invalid BlockEnd"
  else if 100 < budget.vecBudgetPayments.length then
    .error "Invalid budget payments count (too many)"
  else if budget.strBudgetName = "" then .error "Invalid Budget Name"
  else if budget.nBlockStart = 0 then .error (title ++ " Invalid BlockStart == 0")
  else if budget.nFeeTXHash = 0 then .error (title ++ " Invalid FeeTx == 0")
  else if node.getTotalBudget budget.nBlockStart < budget.getTotalPayout then
    .error (title ++ " Invalid Payout (more than max)")
  else
    let hash := env.finalizedBudgetHash budget.strBudgetName budget.nBlockStart
      budget.vecBudgetPayments
    match if fCheckCollateral then env.isBudgetCollateralValid node budget.nFeeTXHash hash true
      else .ok () with
    | .error strError2 => .error (title ++ " Invalid Collateral : " ++ strError2)
    | .ok () =>
      if node.tip = none then .ok ()
      else
        let nCurrentHeight := node.chainHeight
        let nBlockStart := nCurrentHeight - Int.tmod nCurrentHeight cycle + cycle
        let nMaxAge := nBlockStart - 2 * cycle
        -- The source formats this text with the name in it, which throws on a stray conversion.
        if budget.getBlockEnd < nMaxAge then
          .error (title ++ " (ends at block " ++ toString budget.getBlockEnd ++
            ") too old and obsolete")
        else .ok ()

def exactPayout : Int := (budget.vecBudgetPayments.map CTxBudgetPayment.nAmount).sum

end CFinalizedBudgetBroadcast

/-! ## The budget of a cycle -/

theorem Node.getTotalBudget_nonneg (node : Node) (nHeight : Int) :
    0 ≤ node.getTotalBudget nHeight := by
  have := node.params.getBlockValue_nonneg ((node.tip.map ChainTip.nMoneySupply).getD 0) nHeight
  simp only [getTotalBudget, getBlockValue]
  split_ifs
  · exact Int.le_refl 0
  · decide
  · rw [Int.tdiv_eq_ediv_of_nonneg this, Int.tdiv_eq_ediv_of_nonneg (by omega)]
    omega
  · exact Int.le_refl 0

theorem Node.getTotalBudget_lt (node : Node) (nHeight : Int) :
    node.getTotalBudget nHeight < 2 ^ 62 := by
  have bound := (node.params.getBlockValue_le_subsidy
    ((node.tip.map ChainTip.nMoneySupply).getD 0) nHeight).trans (node.params.subsidy_le nHeight)
  have nonneg := node.params.getBlockValue_nonneg
    ((node.tip.map ChainTip.nMoneySupply).getD 0) nHeight
  rw [show (7000000 * COIN : Int) = 700000000000000 from rfl] at bound
  simp only [getTotalBudget, getBlockValue]
  split_ifs
  · decide
  · decide
  · rw [Int.tdiv_eq_ediv_of_nonneg nonneg, Int.tdiv_eq_ediv_of_nonneg (by omega)]
    omega
  · decide

namespace CFinalizedBudgetBroadcast

variable {env : BudgetCheckEnv} {node : Node} {budget : CFinalizedBudgetBroadcast}
  {fCheckCollateral : Bool}

theorem getTotalPayout_eq (budget : CFinalizedBudgetBroadcast) :
    budget.getTotalPayout = wrapInt64 budget.exactPayout := by
  rw [getTotalPayout, foldl_addInt64 CTxBudgetPayment.nAmount _ (by decide), zero_add, exactPayout]

theorem getTotalPayout_of_nonneg
    (nonneg : ∀ payment ∈ budget.vecBudgetPayments, 0 ≤ payment.nAmount)
    (fits : budget.exactPayout < 2 ^ 63) : budget.getTotalPayout = budget.exactPayout := by
  have positive : 0 ≤ budget.exactPayout := by
    apply List.sum_nonneg
    intro amount mem
    obtain ⟨payment, listed, rfl⟩ := List.mem_map.mp mem
    exact nonneg payment listed
  rw [getTotalPayout_eq]
  exact wrapInt64_of_fits ⟨by omega, fits⟩

theorem getTotalPayout_le (accepted : budget.isValid env node fCheckCollateral = .ok ()) :
    budget.getTotalPayout ≤ node.getTotalBudget budget.nBlockStart := by
  have later {refused : Prop} [Decidable refused] {strError : String} {rest : Except String Unit}
      (ok : (if refused then .error strError else rest) = .ok ()) : rest = .ok () := by
    split_ifs at ok
    exact ok
  by_contra excess
  have ok := later (later (later (later (later (later accepted)))))
  rw [if_pos (Int.not_le.mp excess)] at ok
  cases ok

/-- **When finalized budgets keep to the cycle's budget.** The amounts of an accepted budget are
not negative and add up, each by itself too, to at most the budget of its cycle, exactly if none
of them is negative and the sum has room in 64 bits. -/
theorem isValid_payout_iff (accepted : budget.isValid env node fCheckCollateral = .ok ()) :
    ((∀ payment ∈ budget.vecBudgetPayments, 0 ≤ payment.nAmount ∧
        payment.nAmount ≤ node.getTotalBudget budget.nBlockStart) ∧
      budget.exactPayout ≤ node.getTotalBudget budget.nBlockStart) ↔
    (∀ payment ∈ budget.vecBudgetPayments, 0 ≤ payment.nAmount) ∧ budget.exactPayout < 2 ^ 63 := by
  constructor
  · intro ⟨amounts, total⟩
    have bound := node.getTotalBudget_lt budget.nBlockStart
    exact ⟨fun payment mem => (amounts payment mem).1, by omega⟩
  · intro ⟨nonneg, fits⟩
    have total := getTotalPayout_le accepted
    rw [getTotalPayout_of_nonneg nonneg fits] at total
    refine ⟨fun payment mem => ⟨nonneg payment mem, ?_⟩, total⟩
    refine (List.single_le_sum (fun amount listed => ?_) _ (List.mem_map_of_mem mem)).trans total
    obtain ⟨other, inside, rfl⟩ := List.mem_map.mp listed
    exact nonneg other inside

/-- A collateral for the hash 7 that is confirmed in the tip. -/
def sampleEnv : BudgetCheckEnv where
  getTransaction hash :=
    if hash = 5 then some (⟨5, 1, [], [.of budgetFeeTx (BudgetCheckEnv.findScript 7)], 0⟩, 144)
    else none
  getIXConfirmations _ := 0
  activeHeight hash := if hash = 144 then some 144 else none
  proposalName _ := none
  txToString _ := ""
  finalizedBudgetHash _ _ _ := 7

/-- A budget of the first cycle with some payments. -/
def sampleBudget (amounts : List Int) : CFinalizedBudgetBroadcast where
  nBlockStart := 43200
  vecBudgetPayments := amounts.map fun nAmount => ⟨1, [], nAmount⟩
  nVotes := 0
  strBudgetName := "main"
  nFeeTXHash := 5

theorem isValid_payout_iff_two :
    ((∀ payment ∈ (sampleBudget [COIN, 2 * COIN]).vecBudgetPayments, 0 ≤ payment.nAmount ∧
        payment.nAmount ≤ (Node.sample .main).getTotalBudget 43200) ∧
      (sampleBudget [COIN, 2 * COIN]).exactPayout ≤ (Node.sample .main).getTotalBudget 43200) ↔
    (∀ payment ∈ (sampleBudget [COIN, 2 * COIN]).vecBudgetPayments, 0 ≤ payment.nAmount) ∧
      (sampleBudget [COIN, 2 * COIN]).exactPayout < 2 ^ 63 := by
  have accepted : (sampleBudget [COIN, 2 * COIN]).isValid sampleEnv (.sample .main) true =
    .ok () := rfl
  exact isValid_payout_iff accepted

/-- Two payments of which the second takes the first back are accepted, and the first is due in the
first block; so are three payments whose sum wraps around to nothing. -/
theorem isValid_more_than_budget :
    (sampleBudget [9 * 10 ^ 18, -9 * 10 ^ 18]).isValid sampleEnv (.sample .main) true = .ok () ∧
      ((sampleBudget [9 * 10 ^ 18, -9 * 10 ^ 18]).getBudgetPaymentByBlock 43200).map
        CTxBudgetPayment.nAmount = some (9 * 10 ^ 18) ∧
      (sampleBudget [2 ^ 63 - 1, 2 ^ 63 - 1, 2]).isValid sampleEnv (.sample .main) true = .ok () ∧
      (Node.sample .main).getTotalBudget 43200 = 5132160000000 ∧
      (sampleBudget [2 ^ 63 - 1, 2 ^ 63 - 1, 2]).exactPayout = 2 ^ 64 :=
  ⟨rfl, rfl, rfl, by decide, by decide⟩

end CFinalizedBudgetBroadcast

end DogeCash
