import DogeCash.Masternode.BudgetPayments
import DogeCash.Validation.Availability
import DogeCash.Validation.Overmint
import Mathlib.Algebra.Order.BigOperators.Group.List

/-! # Budget payment blocks

On a budget payment block `IsBlockValueValid` leaves the value of the block to
`IsBlockPayeeValid`, and that only looks for the scheduled payment among the outputs. So
whatever block the two accept, they also accept one that mints more
(`exists_superblock_exceeding`).
-/

namespace DogeCash

open CheckInputs (checkInputs checkScripts sumInputs checkFee)
open CTransaction (addValueOut containsZerocoins getValueOutOrThrow getValueOutUnspendable
  isCoinBase isCoinStake spendsCoins_iff)
open CScript (getSigOpCount)
open CTxOut (of_nValue of isZerocoinMint)

/-! ## One more output -/

namespace CFinalizedBudget

variable {budget : CFinalizedBudget} {payment : CTxBudgetPayment} {nBlockHeight : Int}
  {extra : CTxOut}

theorem checkOutputs_append (unmatched : payment.nAmount ≠ extra.nValue) (outs : List CTxOut)
    (status : TrxValidationStatus) (history : PaymentHistory) :
    budget.checkOutputs payment nBlockHeight (outs ++ [extra]) status history =
      budget.checkOutputs payment nBlockHeight outs status history := by
  induction outs generalizing status history with
  | nil =>
    have other : ¬(payment.payee = extra.scriptPubKey ∧ payment.nAmount = extra.nValue) :=
      fun same => unmatched same.2
    simp [checkOutputs, if_neg other]
  | cons out rest ih =>
    simp [checkOutputs, ih]

theorem isTransactionValid_append
    (unmatched : ∀ payment, budget.getBudgetPaymentByBlock nBlockHeight = some payment →
      payment.nAmount ≠ extra.nValue)
    {txNew other : CTransaction} (more : other.vout = txNew.vout ++ [extra])
    (history : PaymentHistory) :
    budget.isTransactionValid other nBlockHeight history =
      budget.isTransactionValid txNew nBlockHeight history := by
  unfold isTransactionValid
  cases scheduled : budget.getBudgetPaymentByBlock nBlockHeight with
  | none => rfl
  | some payment => simp only [more, checkOutputs_append (unmatched payment scheduled)]

end CFinalizedBudget

namespace Budgets

variable {budgets : Budgets} {node : Node} {nBlockHeight : Int} {extra : CTxOut}
  {txNew other : CTransaction}

def scheduled (budgets : Budgets) (nBlockHeight : Int) : List Int :=
  (budgets.mapFinalizedBudgets.filter fun budget =>
    budgets.nCountThreshold nBlockHeight < budget.getVoteCount).filterMap fun budget =>
      (budget.getBudgetPaymentByBlock nBlockHeight).map CTxBudgetPayment.nAmount

def maxScheduled (budgets : Budgets) (nBlockHeight : Int) : Int :=
  (budgets.scheduled nBlockHeight).foldr max 0

theorem foldr_max_bounds (amounts : List Int) :
    0 ≤ amounts.foldr max 0 ∧ ∀ amount ∈ amounts, amount ≤ amounts.foldr max 0 := by
  induction amounts with
  | nil => exact ⟨le_refl 0, nofun⟩
  | cons amount rest ih =>
    refine ⟨ih.1.trans (le_max_right _ _), fun other mem => ?_⟩
    rcases List.mem_cons.mp mem with rfl | later
    · exact le_max_left _ _
    · exact (ih.2 other later).trans (le_max_right _ _)

theorem le_maxScheduled {budget : CFinalizedBudget} {payment : CTxBudgetPayment}
    (known : budget ∈ budgets.mapFinalizedBudgets)
    (votes : budgets.nCountThreshold nBlockHeight < budget.getVoteCount)
    (scheduled : budget.getBudgetPaymentByBlock nBlockHeight = some payment) :
    payment.nAmount ≤ budgets.maxScheduled nBlockHeight := by
  apply (foldr_max_bounds _).2
  apply List.mem_filterMap.mpr
  refine ⟨budget, List.mem_filter.mpr ⟨known, decide_eq_true votes⟩, ?_⟩
  rw [scheduled]
  rfl

theorem checkBudgets_append {nCountThreshold : Int} (list : List CFinalizedBudget)
    (unmatched : ∀ budget ∈ list, nCountThreshold < budget.getVoteCount → ∀ payment,
      budget.getBudgetPaymentByBlock nBlockHeight = some payment → payment.nAmount ≠ extra.nValue)
    (more : other.vout = txNew.vout ++ [extra]) (status : TrxValidationStatus)
    (fThreshold : Bool) (history : PaymentHistory) :
    checkBudgets nCountThreshold other nBlockHeight list status fThreshold history =
      checkBudgets nCountThreshold txNew nBlockHeight list status fThreshold history := by
  induction list generalizing status fThreshold history with
  | nil => rfl
  | cons budget rest ih =>
    have later := ih fun other mem => unmatched other (List.mem_cons_of_mem _ mem)
    unfold checkBudgets
    split_ifs with votes pays
    · rw [CFinalizedBudget.isTransactionValid_append
        (unmatched budget List.mem_cons_self votes) more]
      simp only [later]
    · exact later _ _ _
    · exact later _ _ _

theorem isTransactionValid_append (above : budgets.maxScheduled nBlockHeight < extra.nValue)
    (more : other.vout = txNew.vout ++ [extra]) :
    budgets.isTransactionValid other nBlockHeight =
      budgets.isTransactionValid txNew nBlockHeight := by
  unfold isTransactionValid
  split_ifs
  · rfl
  · apply checkBudgets_append _ _ more
    intro budget known votes payment scheduled
    have bounded := le_maxScheduled known votes scheduled
    omega

theorem isMasternodePaid_append (more : other.vout = txNew.vout ++ [extra])
    (paid : budgets.isMasternodePaid node txNew nBlockHeight = true) :
    budgets.isMasternodePaid node other nBlockHeight = true := by
  have pays : ∀ required payee, paysMasternode required payee txNew = true →
      paysMasternode required payee other = true := by
    intro required payee found
    unfold paysMasternode at found ⊢
    rw [more, List.any_append, found, Bool.true_or]
  unfold isMasternodePaid at paid ⊢
  rcases Bool.or_eq_true_iff.mp paid with approved | unenforced
  · apply Bool.or_eq_true_iff.mpr
    left
    unfold approvesMasternode at approved ⊢
    split at approved
    · rfl
    · next vecPayments _ =>
        rcases Bool.or_eq_true_iff.mp approved with none | some
        · exact Bool.or_eq_true_iff.mpr (.inl none)
        · apply Bool.or_eq_true_iff.mpr
          right
          obtain ⟨payee, mem, found⟩ := List.any_eq_true.mp some
          exact List.any_eq_true.mpr ⟨payee, mem, pays _ _ found⟩
  · rw [unenforced, Bool.or_true]

theorem isPayeeValid_append (above : budgets.maxScheduled nBlockHeight < extra.nValue)
    (more : other.vout = txNew.vout ++ [extra])
    (valid : (budgets.isPayeeValid node txNew nBlockHeight).1 = true) :
    (budgets.isPayeeValid node other nBlockHeight).1 = true := by
  unfold isPayeeValid at valid ⊢
  rw [isTransactionValid_append above more]
  by_cases due : (node.isSporkActive .enableSuperblocks &&
      budgets.isBudgetPaymentBlock nBlockHeight) = true
  · rw [if_pos due] at valid ⊢
    generalize budgets.isTransactionValid txNew nBlockHeight = outcome at valid ⊢
    obtain ⟨status, after⟩ := outcome
    cases status with
    | valid => rfl
    | inValid =>
      by_cases enforced : node.isSporkActive .masternodeBudgetEnforcement = true
      · simp only [enforced, ↓reduceIte, Bool.false_eq_true] at valid
      · simp only [enforced, Bool.false_eq_true, ↓reduceIte] at valid ⊢
        exact isMasternodePaid_append more valid
    | doublePayment => exact isMasternodePaid_append more valid
    | voteThreshold => exact isMasternodePaid_append more valid
  · rw [if_neg due] at valid ⊢
    exact isMasternodePaid_append more valid

end Budgets

/-! ## A block with a chosen coinstake -/

/-- A coinstake that spends one output, with the given outputs. -/
def stakeTransaction (prevout : COutPoint) (outs : List CTxOut) : CTransaction where
  hash := prevout.hash + 2
  nVersion := 1
  vin := [⟨prevout, [], 0xffffffff⟩]
  vout := outs
  nLockTime := 0

/-- The coinbase of a proof-of-stake block. -/
def emptyCoinBase (prevout : COutPoint) : CTransaction where
  hash := prevout.hash + 1
  nVersion := 1
  vin := [⟨.null, [0x51, 0x51], 0xffffffff⟩]
  vout := [.of 0 []]
  nLockTime := 0

def freeCoin (prevout : COutPoint) : CCoins :=
  { vout := List.replicate (prevout.n.toNat + 1) (.of 0 [0x51]) }

def freeView (prevout : COutPoint) : CoinsMap :=
  Function.update (fun _ => {}) prevout.hash (freeCoin prevout)

def stakeBlock (header : CBlock) (prevout : COutPoint) (outs : List CTxOut) : CBlock :=
  { header with vtx := [emptyCoinBase prevout, stakeTransaction prevout outs] }

namespace Node

variable {node : Node} {entry : BlockEntry} {prevout : COutPoint} {outs : List CTxOut}

theorem verifyScript_free (crypto : ScriptCrypto) (checker : SignatureChecker)
    (flags : ScriptFlags) : Interpreter.verifyScript crypto checker flags [] [0x51] = .ok () := by
  have sigScript : Interpreter.evalScript crypto checker flags [] [] = .ok [] := rfl
  have pubKey : Interpreter.evalScript crypto checker flags [] [0x51] = .ok [[1]] := rfl
  have pushOnly : CScript.isPushOnly [] = true := rfl
  have notP2SH : CScript.isPayToScriptHash [0x51] = false := rfl
  simp only [Interpreter.verifyScript, pushOnly, Bool.not_true, Bool.and_false, Bool.false_eq_true,
    ↓reduceIte, notP2SH]
  exact bind_eq_ok.mpr ⟨[], sigScript, bind_eq_ok.mpr ⟨[[1]], pubKey, rfl⟩⟩

variable {view : CoinsMap} {tx : CTransaction} {acct : Accounting} {before after : Accounting}

theorem outputFor_free (free : view prevout.hash = freeCoin prevout) :
    view.outputFor prevout = .of 0 [0x51] := by
  rw [CoinsMap.outputFor, free, freeCoin]
  simp

/-- An output worth nothing that anyone can spend, and that is old enough. -/
structure Free (node : Node) (entry : BlockEntry) (view : CoinsMap) (prevout : COutPoint) : Prop where
  output : view.outputFor prevout = .of 0 [0x51]
  mature : (((view prevout.hash).fCoinBase || (view prevout.hash).fCoinStake) &&
    entry.spendHeight - (view prevout.hash).nHeight.toInt < node.params.nMaturity) = false

theorem Free.of_freeCoin (free : view prevout.hash = freeCoin prevout) :
    Free node entry view prevout := by
  refine ⟨outputFor_free free, ?_⟩
  rw [free]
  rfl

theorem Free.available (free : Free node entry view prevout) : view.Available prevout := by
  have output := free.output
  rw [CoinsMap.outputFor, List.getD_eq_getElem?_getD] at output
  rw [CoinsMap.Available, CCoins.isAvailable_iff]
  cases slot : (view prevout.hash).vout[prevout.n.toNat]? with
  | none =>
    rw [slot] at output
    cases output
  | some out =>
    rw [slot, Option.getD_some] at output
    exact ⟨out, rfl, by rw [output]; rfl, by rw [output]; rfl⟩

section

variable (inputs : tx.vin = [⟨prevout, [], 0xffffffff⟩]) (free : Free node entry view prevout)
include inputs free

theorem updateCoins_free (nHeight : Int32) : ∃ after txundo,
    view.updateCoins tx nHeight = some (after, txundo) := by
  refine CoinsMap.updateCoins_of_available nHeight (fun _ txin mem => ?_) fun _ => ?_
  · rw [inputs, List.mem_singleton] at mem
    rw [mem]
    exact free.available
  · rw [inputs]
    exact List.nodup_singleton prevout

variable (spends : tx.spendsCoins = true)
include spends

/-- A transaction finds its free input and passes `CheckInputs` if its outputs do. -/
theorem checkInputs_free (fee : checkFee node.params tx 0 = .ok ())
    (zero : node.params.moneyRange 0 = true) :
    view.haveInputs tx = true ∧
      checkInputs node.params node.script entry.spendHeight view
        (node.connectFlags entry) (node.fScriptChecks entry) tx = .ok () := by
  have available : view.haveInputs tx = true := CoinsMap.haveInputs_iff.mpr fun _ txin mem => by
    rw [inputs, List.mem_singleton] at mem
    rw [mem]
    exact free.available
  refine ⟨available, ?_⟩
  have sum : sumInputs node.params entry.spendHeight view 0 tx.vin = .ok 0 := by
    simp [inputs, sumInputs, free.mature, free.output, of_nValue, zero]
  have scripts : checkScripts node.script view (node.connectFlags entry) tx 0 tx.vin = .ok () := by
    have verified : ∀ checker, Interpreter.verifyScript node.script.crypto checker
        (node.connectFlags entry) [] (of 0 [0x51]).scriptPubKey = .ok () :=
      fun checker => verifyScript_free _ checker _
    simp only [inputs, checkScripts, CheckInputs.scriptCheck, free.output, verified]
  unfold checkInputs
  simp only [spends, Bool.not_true, Bool.false_eq_true, ↓reduceIte, available]
  refine bind_eq_ok.mpr ⟨0, sum, bind_eq_ok.mpr ⟨(), fee, ?_⟩⟩
  split_ifs
  · exact scripts
  · rfl

end

def mintAccepted (node : Node) (entry : BlockEntry) (out : CTxOut) : Prop :=
  ∃ coin, node.zerocoin.txOutToPublicCoin out = some coin ∧
    node.contextualCheckZerocoinMint coin entry.nHeight = true

theorem connectMints_isOk_iff :
    (∃ after, node.connectMints entry tx acct = .ok after) ↔
      ∀ out ∈ tx.vout.filter isZerocoinMint, node.mintAccepted entry out := by
  unfold connectMints
  generalize tx.vout.filter isZerocoinMint = mints
  induction mints generalizing acct with
  | nil => exact ⟨nofun, fun _ => ⟨acct, rfl⟩⟩
  | cons out rest ih =>
    constructor
    · rintro ⟨after, ok⟩
      obtain ⟨next, stepped, later⟩ := foldlM_cons_eq_ok.mp ok
      intro other mem
      rcases List.mem_cons.mp mem with rfl | inside
      · unfold connectMintOutput at stepped
        split at stepped
        · cases stepped
        · next coin decoded =>
            obtain ⟨checked, -⟩ := require_bind_eq_ok.mp stepped
            exact ⟨coin, decoded, checked⟩
      · exact ih.mp ⟨after, later⟩ other inside
    · intro accepted
      obtain ⟨coin, decoded, checked⟩ := accepted out List.mem_cons_self
      have stepped : node.connectMintOutput entry tx acct out =
          .ok { acct with vMints := acct.vMints ++ [(coin, tx.hash)] } := by
        unfold connectMintOutput
        simp only [decoded]
        exact require_bind_eq_ok.mpr ⟨checked, rfl⟩
      obtain ⟨after, ok⟩ := ih.mpr fun other inside =>
        accepted other (List.mem_cons_of_mem _ inside)
      exact ⟨after, foldlM_cons_eq_ok.mpr ⟨_, stepped, ok⟩⟩

/-- What the loop of `ConnectBlock` asks of the outputs of a transaction in a block. -/
structure Payable (node : Node) (entry : BlockEntry) (block : CBlock) (outs : List CTxOut) :
    Prop where
  mints : ∀ out ∈ outs.filter isZerocoinMint, node.mintAccepted entry out
  sigOps : (outs.map fun out => getSigOpCount out.scriptPubKey false).sum ≤ maxBlockSigOps
  maintenance : ((node.getSporkValue .zerocoinMaintenanceMode < block.nTime.toNat) &&
    !node.isInitialBlockDownload &&
      outs.any fun out => CScript.isZerocoinMint out.scriptPubKey) = false
  total : ∃ total, outs.foldlM addValueOut 0 = some total

theorem updateCoins_emptyCoinBase (prevout : COutPoint) (nHeight : Int32) :
    ∃ view txundo, (freeView prevout).updateCoins (emptyCoinBase prevout) nHeight =
      some (view, txundo) ∧ view prevout.hash = freeCoin prevout := by
  refine ⟨(freeView prevout).addOutputs (emptyCoinBase prevout) nHeight, ⟨[]⟩, rfl, ?_⟩
  have ne : prevout.hash ≠ (emptyCoinBase prevout).hash := by
    simp [emptyCoinBase]
  rw [CoinsMap.addOutputs, CoinsMap.modifyCoins_of_ne _ ne, freeView, Function.update_self]

theorem connectTransaction_of_parts (block : CBlock) {tx : CTransaction}
    {before middle : Accounting} {nValueOut : Int} {view : CoinsMap} {txundo : CTxUndo}
    (sigOps : before.nSigOps + tx.getLegacySigOpCount ≤ maxBlockSigOps)
    (maintenance : ((node.getSporkValue .zerocoinMaintenanceMode < block.nTime.toNat) &&
      !node.isInitialBlockDownload && tx.containsZerocoins) = false)
    (kind : node.connectKind entry tx
      { before with nSigOps := before.nSigOps + tx.getLegacySigOpCount } = .ok middle)
    (value : tx.getValueOutOrThrow = .ok nValueOut)
    (updated : middle.view.updateCoins tx (Int32.ofInt entry.nHeight) = some (view, txundo)) :
    node.connectTransaction entry block before tx = .ok { middle with
      view := view
      nValueOut := middle.nValueOut + nValueOut
      nValueOutUnspendable := middle.nValueOutUnspendable + tx.getValueOutUnspendable
      vtxundo := middle.vtxundo ++ [txundo] } := by
  refine require_bind_eq_ok.mpr ⟨decide_eq_true sigOps, require_bind_eq_ok.mpr ⟨?_, ?_⟩⟩
  · rw [maintenance]
    rfl
  · refine bind_eq_ok.mpr ⟨middle, kind, bind_eq_ok.mpr ⟨nValueOut, value, ?_⟩⟩
    simp only [connectOutputs, updated]

/-- A transaction with a free input in the loop of `ConnectBlock`. -/
theorem connectKind_free (inputs : tx.vin = [⟨prevout, [], 0xffffffff⟩])
    (spends : tx.spendsCoins = true) (fee : checkFee node.params tx 0 = .ok ())
    (zero : node.params.moneyRange 0 = true)
    (valid : node.validOutPoint prevout entry.nHeight = true)
    (mints : ∀ out ∈ tx.vout.filter isZerocoinMint, node.mintAccepted entry out)
    (sigOps : acct.nSigOps ≤ maxBlockSigOps) (free : Free node entry acct.view prevout) :
    ∃ after, node.connectKind entry tx acct = .ok after ∧ after.view = acct.view ∧
      after.nSigOps = acct.nSigOps ∧ after.nValueIn = acct.nValueIn ∧
      after.nValueOutUnspendable = acct.nValueOutUnspendable := by
  obtain ⟨notCoinBase, notSpend⟩ := spendsCoins_iff.mp spends
  obtain ⟨middle, minted⟩ : ∃ middle, node.connectMints entry tx acct = .ok middle :=
    connectMints_isOk_iff.mpr mints
  have same := connectMints_eq_ok minted
  have sameView : middle.view = acct.view := by rw [same]
  have sameOps : middle.nSigOps = acct.nSigOps := by rw [same]
  have sameIn : middle.nValueIn = acct.nValueIn := by rw [same]
  have sameUnspendable : middle.nValueOutUnspendable = acct.nValueOutUnspendable := by rw [same]
  have free' : Free node entry middle.view prevout := by rw [sameView]; exact free
  obtain ⟨available, checked⟩ := checkInputs_free inputs free' spends fee zero
  have noP2SH : middle.view.getP2SHSigOpCount tx = 0 := by
    have script : CScript.isPayToScriptHash (of 0 [0x51]).scriptPubKey = false := rfl
    unfold CoinsMap.getP2SHSigOpCount
    simp [notCoinBase, notSpend, inputs, free'.output, script]
  have noValue : middle.view.getValueIn tx = 0 := by
    simp [CoinsMap.getValueIn, notCoinBase, notSpend, inputs, free'.output, of_nValue]
  obtain ⟨value, feeIs⟩ : ∃ value, feeOf middle.view tx = .ok value := by
    unfold feeOf
    unfold checkFee at fee
    split_ifs at fee ⊢
    · exact ⟨0, rfl⟩
    · obtain ⟨nValueOut, out, -⟩ := bind_eq_ok.mp fee
      exact ⟨_, bind_eq_ok.mpr ⟨nValueOut, out, rfl⟩⟩
  unfold connectKind
  rw [if_neg (by simp [notSpend]), if_neg (by simp [notCoinBase])]
  refine ⟨_, require_bind_eq_ok.mpr ⟨sameView ▸ available, require_bind_eq_ok.mpr ⟨?_,
    bind_eq_ok.mpr ⟨middle, minted, require_bind_eq_ok.mpr ⟨?_, bind_eq_ok.mpr ⟨value, feeIs,
      bind_eq_ok.mpr ⟨(), checked, rfl⟩⟩⟩⟩⟩⟩, sameView, ?_, ?_, sameUnspendable⟩
  · simp [inputs, valid]
  · rw [noP2SH, sameOps]
    exact decide_eq_true sigOps
  · rw [noP2SH, sameOps]
    rfl
  · rw [noValue, sameIn, Int.add_zero]

/-- The loop of `ConnectBlock` takes the block. -/
theorem connectTransactions_stakeBlock (header : CBlock)
    (coinStake : (stakeTransaction prevout outs).isCoinStake = true)
    (spends : (stakeTransaction prevout outs).spendsCoins = true)
    (zero : node.params.moneyRange 0 = true)
    (valid : node.validOutPoint prevout entry.nHeight = true)
    (payable : node.Payable entry header outs) :
    ∃ acct, node.connectTransactions entry (stakeBlock header prevout outs) (freeView prevout) =
      .ok acct := by
  obtain ⟨view, txundo, updated, free⟩ :=
    updateCoins_emptyCoinBase prevout (Int32.ofInt entry.nHeight)
  have plain : (emptyCoinBase prevout).containsZerocoins = false := rfl
  have first : ∃ next, node.connectTransaction entry (stakeBlock header prevout outs)
      { view := freeView prevout } (emptyCoinBase prevout) = .ok next ∧ next.view = view ∧
        next.nSigOps = 0 := by
    have maintenance : ((node.getSporkValue .zerocoinMaintenanceMode <
        (stakeBlock header prevout outs).nTime.toNat) && !node.isInitialBlockDownload &&
          (emptyCoinBase prevout).containsZerocoins) = false := by
      rw [plain, Bool.and_false]
    exact ⟨_, connectTransaction_of_parts _ (Nat.zero_le _) maintenance rfl rfl updated, rfl, rfl⟩
  obtain ⟨next, first, nextView, nextOps⟩ := first
  obtain ⟨total, value⟩ := payable.total
  have valueOut : (stakeTransaction prevout outs).getValueOutOrThrow = .ok total := by
    have sum : (stakeTransaction prevout outs).getValueOut = some total := value
    rw [getValueOutOrThrow, sum]
  have sigOps : next.nSigOps + (stakeTransaction prevout outs).getLegacySigOpCount ≤
      maxBlockSigOps := by
    have count : (stakeTransaction prevout outs).getLegacySigOpCount =
        (outs.map fun out => getSigOpCount out.scriptPubKey false).sum := by
      have none : getSigOpCount [] false = 0 := rfl
      simp [CTransaction.getLegacySigOpCount, stakeTransaction, none]
    rw [nextOps, count, Nat.zero_add]
    exact payable.sigOps
  have nextFree : Free node entry next.view prevout := by
    rw [nextView]
    exact .of_freeCoin free
  have fee : checkFee node.params (stakeTransaction prevout outs) 0 = .ok () := by
    rw [checkFee, if_pos coinStake]
  obtain ⟨middle, kind, middleView, -⟩ : ∃ middle, node.connectKind entry
      (stakeTransaction prevout outs) { next with
        nSigOps := next.nSigOps + (stakeTransaction prevout outs).getLegacySigOpCount } =
          .ok middle ∧ middle.view = next.view ∧ _ :=
    connectKind_free rfl spends fee zero valid payable.mints sigOps nextFree
  have maintenance : ((node.getSporkValue .zerocoinMaintenanceMode <
      (stakeBlock header prevout outs).nTime.toNat) && !node.isInitialBlockDownload &&
        (stakeTransaction prevout outs).containsZerocoins) = false := by
    have notSpend := (spendsCoins_iff.mp spends).2
    rw [containsZerocoins, notSpend, Bool.false_or]
    exact payable.maintenance
  have middleFree : Free node entry middle.view prevout := by
    rw [middleView]
    exact nextFree
  have inputs : (stakeTransaction prevout outs).vin = [⟨prevout, [], 0xffffffff⟩] := rfl
  obtain ⟨last, lastUndo, lastUpdated⟩ :=
    updateCoins_free inputs middleFree (Int32.ofInt entry.nHeight)
  have second := connectTransaction_of_parts (stakeBlock header prevout outs) sigOps maintenance
    kind valueOut lastUpdated
  exact ⟨_, foldlM_cons_eq_ok.mpr ⟨next, first, foldlM_cons_eq_ok.mpr ⟨_, second, rfl⟩⟩⟩

theorem sumOver_stakeBlock (header : CBlock) :
    ∃ view : CoinsMap, view prevout.hash = freeCoin prevout ∧
      ∀ amount, sumOver entry (stakeBlock header prevout outs) (freeView prevout) amount =
        amount (emptyCoinBase prevout) (freeView prevout) +
          amount (stakeTransaction prevout outs) view := by
  obtain ⟨view, txundo, updated, free⟩ :=
    updateCoins_emptyCoinBase prevout (Int32.ofInt entry.nHeight)
  refine ⟨view, free, fun amount => ?_⟩
  simp only [sumOver, stakeBlock, CoinsMap.withViews, updated]
  cases view.updateCoins (stakeTransaction prevout outs) (Int32.ofInt entry.nHeight) with
  | none => simp
  | some pair => simp

theorem nMint_stakeBlock {header : CBlock}
    (coinStake : (stakeTransaction prevout outs).isCoinStake = true)
    (spends : (stakeTransaction prevout outs).spendsCoins = true)
    (ok : node.connectTransactions entry (stakeBlock header prevout outs)
      (freeView prevout) = .ok acct) :
    acct.nMint entry = wrapInt64 ((stakeTransaction prevout outs).valueOut -
      (stakeTransaction prevout outs).getValueOutUnspendable) := by
  obtain ⟨view, free, sum⟩ := sumOver_stakeBlock header
  obtain ⟨nValueOut, nValueOutUnspendable, nValueIn, nFees⟩ := connectTransactions_totals ok
  rw [sum] at nValueOut nValueOutUnspendable nValueIn nFees
  have baseOut : (emptyCoinBase prevout).valueOut = 0 := rfl
  have baseUnspendable : (emptyCoinBase prevout).getValueOutUnspendable = 0 := rfl
  have baseIn : node.valueIn (freeView prevout) (emptyCoinBase prevout) = 0 := rfl
  have baseFee : fee (freeView prevout) (emptyCoinBase prevout) = 0 := rfl
  have notSpend := (spendsCoins_iff.mp spends).2
  have stakeIn : node.valueIn view (stakeTransaction prevout outs) = 0 := by
    have inputs : (stakeTransaction prevout outs).vin = [⟨prevout, [], 0xffffffff⟩] := rfl
    simp [valueIn, notSpend, CoinsMap.consumed, spends, inputs, outputFor_free free]
  have stakeFee : fee view (stakeTransaction prevout outs) = 0 := by
    simp [fee, coinStake]
  rw [acct.nMint_eq]
  congr 1
  omega

/-! ## What an accepted coinstake shows -/

variable {block : CBlock} {stake : CTransaction}

theorem exists_prevout (coinStake : stake.isCoinStake = true)
    (transparent : stake.isZerocoinSpend = false) :
    ∃ txin rest, stake.vin = txin :: rest ∧ txin.prevout.isNull = false := by
  unfold isCoinStake at coinStake
  split at coinStake
  · next txin rest out second others vin vout =>
      refine ⟨txin, rest, vin, ?_⟩
      cases null : txin.prevout.isNull with
      | false => rfl
      | true =>
        have zeroHash : (txin.prevout.hash == 0) = true := by
          exact (Bool.and_eq_true_iff.mp null).1
        simp only [CTransaction.isZerocoinSpend, vin, zeroHash, Bool.true_and] at transparent
        simp [null, transparent] at coinStake
  · cases coinStake

theorem spendsCoins_of_isCoinStake (coinStake : stake.isCoinStake = true)
    (transparent : stake.isZerocoinSpend = false) : stake.spendsCoins = true := by
  obtain ⟨txin, rest, vin, notNull⟩ := exists_prevout coinStake transparent
  apply spendsCoins_iff.mpr
  refine ⟨?_, transparent⟩
  unfold isCoinBase
  rw [vin]
  cases rest with
  | nil => simp only [notNull, Bool.false_and]
  | cons second others => rfl

theorem stakeTransaction_isCoinStake (notNull : prevout.isNull = false)
    (coinStake : stake.isCoinStake = true) (extra : List CTxOut) :
    (stakeTransaction prevout (stake.vout ++ extra)).isCoinStake = true := by
  unfold isCoinStake at coinStake
  split at coinStake
  · next txin rest out second others vin vout =>
      have isEmpty : out.isEmpty = true := (Bool.and_eq_true_iff.mp coinStake).2
      simp [isCoinStake, stakeTransaction, vout, notNull, isEmpty]
  · cases coinStake

theorem stakeTransaction_isZerocoinSpend :
    (stakeTransaction prevout outs).isZerocoinSpend = false := by
  simp [CTransaction.isZerocoinSpend, stakeTransaction]

theorem payable_of_connectTransaction (coinStake : stake.isCoinStake = true)
    (transparent : stake.isZerocoinSpend = false)
    (ok : node.connectTransaction entry block before stake = .ok after) :
    node.Payable entry block stake.vout ∧
      (stake.vin.all fun txin => node.validOutPoint txin.prevout entry.nHeight) = true := by
  have spends := spendsCoins_of_isCoinStake coinStake transparent
  obtain ⟨notCoinBase, -⟩ := spendsCoins_iff.mp spends
  obtain ⟨sigOps, ok⟩ := require_bind_eq_ok.mp ok
  obtain ⟨maintenance, ok⟩ := require_bind_eq_ok.mp ok
  obtain ⟨middle, kind, ok⟩ := bind_eq_ok.mp ok
  obtain ⟨total, value, -⟩ := bind_eq_ok.mp ok
  unfold connectKind at kind
  rw [if_neg (by simp [transparent]), if_neg (by simp [notCoinBase])] at kind
  obtain ⟨-, kind⟩ := require_bind_eq_ok.mp kind
  obtain ⟨valid, kind⟩ := require_bind_eq_ok.mp kind
  obtain ⟨minted, mints, -⟩ := bind_eq_ok.mp kind
  refine ⟨⟨connectMints_isOk_iff.mp ⟨minted, mints⟩, ?_, ?_, ?_⟩, valid⟩
  · have count : stake.getLegacySigOpCount =
        (stake.vin.map fun txin => getSigOpCount txin.scriptSig false).sum +
          (stake.vout.map fun out => getSigOpCount out.scriptPubKey false).sum := rfl
    have bound := of_decide_eq_true sigOps
    omega
  · rwa [containsZerocoins, transparent, Bool.false_or, Bool.not_eq_true']
      at maintenance
  · unfold getValueOutOrThrow at value
    split at value
    · next sum computed => exact ⟨sum, computed⟩
    · cases value

theorem Payable.append {nValue : Int} (payable : node.Payable entry block stake.vout)
    (nonneg : 0 ≤ nValue) (fits : stake.valueOut + nValue ≤ int64Max) :
    node.Payable entry block (stake.vout ++ [.of nValue [0x51]]) where
  mints := by
    have plain : (of nValue [0x51]).isZerocoinMint = false := rfl
    rw [List.filter_append, List.filter_singleton, plain]
    simpa using payable.mints
  sigOps := by
    have none : getSigOpCount (of nValue [0x51]).scriptPubKey false = 0 := rfl
    rw [List.map_append, List.sum_append, List.map_singleton, List.sum_singleton, none]
    exact payable.sigOps
  maintenance := by
    have plain : CScript.isZerocoinMint (of nValue [0x51]).scriptPubKey = false := rfl
    rw [List.any_append, List.any_cons, plain, List.any_nil, Bool.or_false, Bool.or_false]
    exact payable.maintenance
  total := by
    obtain ⟨total, sum⟩ := payable.total
    have same : total = stake.valueOut := (CTransaction.getValueOut_eq_some sum).1
    subst same
    refine ⟨stake.valueOut + nValue, ?_⟩
    rw [List.foldlM_append, sum]
    simp only [Option.bind_eq_bind, Option.bind_some, List.foldlM_cons, List.foldlM_nil]
    rw [CTransaction.addValueOut_of_fits nonneg fits]
    rfl

theorem moneyRange_zero (coinStake : stake.isCoinStake = true)
    (transparent : stake.isZerocoinSpend = false)
    (ok : node.connectTransaction entry block before stake = .ok after) :
    node.params.moneyRange 0 = true := by
  have spends := spendsCoins_of_isCoinStake coinStake transparent
  obtain ⟨available, checked⟩ := (connectTransaction_eq_ok ok).inputs spends
  obtain ⟨txin, rest, vin, -⟩ := exists_prevout coinStake transparent
  unfold checkInputs at checked
  rw [spends, available, if_neg (by decide), if_neg (by decide)] at checked
  obtain ⟨nValueIn, sum, -⟩ := bind_eq_ok.mp checked
  rw [vin] at sum
  simp only [sumInputs] at sum
  split_ifs at sum with premature range
  rw [Bool.or_eq_true, not_or] at range
  have inRange := range.1
  simp only [ChainParams.moneyRange, Bool.not_eq_true, Bool.not_eq_false', Bool.and_eq_true,
    decide_eq_true_eq] at inRange ⊢
  omega

end Node

/-! ## Blocks that are accepted -/

/-- A node for which a height above the last proof-of-work block is a budget payment block
and the budget is enforced. -/
structure SuperblockHeight (node : Node) (budgets : Budgets) (tip : ChainTip) (nHeight : Int) :
    Prop where
  tipIs : node.tip = some tip
  synced : node.isSynced = true
  superblocks : node.isSporkActive .enableSuperblocks = true
  enforcement : node.isSporkActive .masternodeBudgetEnforcement = true
  staked : node.params.nLastPOWBlock < nHeight
  payment : budgets.isBudgetPaymentBlock nHeight = true

/-- The call of `IsBlockPayeeValid` in `CheckBlock` and that of `IsBlockValueValid` in
`ConnectBlock` accept a proof-of-stake block at a height. -/
structure SuperblockAccepted (node : Node) (budgets : Budgets) (tip : ChainTip)
    (entry : BlockEntry) (view : CoinsMap) (block : CBlock) : Prop where
  height : node.heightFor tip block = entry.nHeight
  stake : block.isProofOfStake = true
  payee : budgets.isBlockPayeeValid node block entry.nHeight = true
  value : (node.withBudgets budgets).valueAccepted entry view block = true

/-- What a budget payment block may mint: the block value and the largest amount that is
scheduled for the height. -/
def superblockLimit (node : Node) (budgets : Budgets) (nHeight : Int) : Int :=
  node.getBlockValue nHeight + budgets.maxScheduled nHeight

section

variable {node : Node} {budgets : Budgets} {tip : ChainTip} {entry : BlockEntry}
  {view : CoinsMap} {block : CBlock} {stake : CTransaction}

theorem isBlockValueValid_of_due (due : SuperblockHeight node budgets tip entry.nHeight)
    (height : node.heightFor tip block = entry.nHeight) (nExpectedValue nMinted : Int) :
    (node.withBudgets budgets).isBlockValueValid block nExpectedValue nMinted = true := by
  have tipIs : (node.withBudgets budgets).tip = some tip := due.tipIs
  have synced : (node.withBudgets budgets).isSynced = true := due.synced
  have active : (node.withBudgets budgets).isSporkActive .enableSuperblocks = true :=
    due.superblocks
  have here : (node.withBudgets budgets).heightFor tip block = entry.nHeight := height
  have payment : (node.withBudgets budgets).isBudgetPaymentBlock entry.nHeight = true := due.payment
  simp [Node.isBlockValueValid, tipIs, synced, active, here, payment]

/-- **Nothing bounds what a budget payment block mints.** Whenever a block is accepted at such
a height, a block with the same header is accepted that mints more than the limit. -/
theorem exists_superblock_exceeding (due : SuperblockHeight node budgets tip entry.nHeight)
    (accepted : SuperblockAccepted node budgets tip entry view block)
    (second : block.vtx[1]? = some stake) (transparent : stake.isZerocoinSpend = false)
    (fits : stake.valueOut + superblockLimit node budgets entry.nHeight < int64Max) :
    ∃ otherView other acct, SuperblockAccepted node budgets tip entry otherView other ∧
      other.hashPrevBlock = block.hashPrevBlock ∧
      (node.withBudgets budgets).connectTransactions entry other otherView = .ok acct ∧
      superblockLimit node budgets entry.nHeight < acct.nMint entry := by
  have scheduledNonneg : 0 ≤ budgets.maxScheduled entry.nHeight := (Budgets.foldr_max_bounds _).1
  have blockValueNonneg : 0 ≤ node.getBlockValue entry.nHeight :=
    node.params.getBlockValue_nonneg _ _
  have limitIs : superblockLimit node budgets entry.nHeight =
    node.getBlockValue entry.nHeight + budgets.maxScheduled entry.nHeight := rfl
  generalize superblockLimit node budgets entry.nHeight = limit at *
  -- What the accepted coinstake shows about its outputs and its first input.
  obtain ⟨first, rest, vtx⟩ : ∃ first rest, block.vtx = first :: stake :: rest := by
    match shape : block.vtx with
    | [] => rw [shape] at second; cases second
    | [_] => rw [shape] at second; cases second
    | first :: other :: rest =>
      rw [shape] at second
      cases second
      exact ⟨first, rest, rfl⟩
  have coinStake : stake.isCoinStake = true := by
    have staked := accepted.stake
    rwa [CBlock.isProofOfStake, vtx] at staked
  obtain ⟨acct, connected, -⟩ := Node.valueAccepted_iff.mp accepted.value
  unfold Node.connectTransactions at connected
  rw [vtx] at connected
  obtain ⟨start, -, connected⟩ := foldlM_cons_eq_ok.mp connected
  obtain ⟨after, round, -⟩ := foldlM_cons_eq_ok.mp connected
  obtain ⟨payable, validInputs⟩ := Node.payable_of_connectTransaction coinStake transparent round
  have zero := Node.moneyRange_zero coinStake transparent round
  have nonneg := (Node.connectTransaction_eq_ok round).nonneg
  obtain ⟨txin, inputs, vin, notNull⟩ := Node.exists_prevout coinStake transparent
  have valid : (node.withBudgets budgets).validOutPoint txin.prevout entry.nHeight = true := by
    rw [vin, List.all_cons] at validInputs
    exact (Bool.and_eq_true_iff.mp validInputs).1
  -- The coinstake with one more output.
  have extended := payable.append (by omega : 0 ≤ limit + 1) (by omega)
  have stakes := Node.stakeTransaction_isCoinStake notNull coinStake [.of (limit + 1) [0x51]]
  have spends := Node.spendsCoins_of_isCoinStake stakes Node.stakeTransaction_isZerocoinSpend
  obtain ⟨minted, ok⟩ := Node.connectTransactions_stakeBlock block stakes spends zero valid extended
  refine ⟨freeView txin.prevout, stakeBlock block txin.prevout _, minted, ?_, rfl, ok, ?_⟩
  · have height : node.heightFor tip (stakeBlock block txin.prevout
        (stake.vout ++ [.of (limit + 1) [0x51]])) = entry.nHeight := accepted.height
    refine ⟨height, stakes, ?_, Node.valueAccepted_iff.mpr ⟨minted, ok, ?_⟩⟩
    · have payee := accepted.payee
      unfold Budgets.isBlockPayeeValid at payee ⊢
      rw [due.synced, if_neg (by decide)] at payee ⊢
      unfold Budgets.payeeTransaction at payee ⊢
      rw [if_pos due.staked] at payee ⊢
      rw [second] at payee
      exact Budgets.isPayeeValid_append
        (by rw [of_nValue]; omega : _ < (of (limit + 1) [0x51]).nValue) rfl payee
    · exact isBlockValueValid_of_due due height _ _
  · have worth : (stakeTransaction txin.prevout
        (stake.vout ++ [.of (limit + 1) [0x51]])).valueOut = stake.valueOut + (limit + 1) := by
      simp [CTransaction.valueOut, stakeTransaction]
    have burned : (stakeTransaction txin.prevout
        (stake.vout ++ [.of (limit + 1) [0x51]])).getValueOutUnspendable =
          stake.getValueOutUnspendable := by
      have spendable : CScript.isUnspendable (of (limit + 1) [0x51]).scriptPubKey = false :=
        rfl
      simp [getValueOutUnspendable, stakeTransaction, spendable]
    obtain ⟨some, covered⟩ := CTransaction.getValueOutUnspendable_bounds nonneg
    rw [int64Max] at fits
    rw [Node.nMint_stakeBlock stakes spends ok, worth, burned,
      wrapInt64_of_fits ⟨by omega, by omega⟩]
    omega

end

def superblockNode : Node :=
  { Node.sample .main with
    tip := some ⟨1000, 43199, 1600000000, 8000000 * COIN⟩
    getSporkValue := fun _ => 0 }

/-- A finalized budget with the votes of all masternodes pays 100 DOGEC at height 43200. -/
def sampleBudgets : Budgets where
  mapFinalizedBudgets := [⟨43200, [⟨500, [0x52], 100 * COIN⟩], 20⟩]
  countEnabled := 20
  mapPayment_History _ := none
  mapMasternodeBlocks _ := none

def superblockEntry : BlockEntry := ⟨some 2, 43200, superblockNode.tip⟩

def sampleSuperblock (nValue : Int) : CBlock :=
  stakeBlock ⟨2, 1000, 42, 1600000060, 0, []⟩ ⟨7, 0⟩
    [.of 0 [], .of (100 * COIN) [0x52], .of nValue [0x51]]

theorem superblockHeight_sample :
    SuperblockHeight superblockNode sampleBudgets ⟨1000, 43199, 1600000000, 8000000 * COIN⟩
      43200 where
  tipIs := rfl
  synced := rfl
  superblocks := by decide
  enforcement := by decide
  staked := by decide
  payment := by decide

theorem superblockAccepted_sample :
    SuperblockAccepted superblockNode sampleBudgets ⟨1000, 43199, 1600000000, 8000000 * COIN⟩
      superblockEntry (freeView ⟨7, 0⟩) (sampleSuperblock 1080000000) where
  height := by decide
  stake := by decide
  payee := by decide
  value := by decide

/-- After that block one that mints more is accepted as well. -/
theorem exists_superblock_exceeding_sample :
    ∃ view block acct, SuperblockAccepted superblockNode sampleBudgets
        ⟨1000, 43199, 1600000000, 8000000 * COIN⟩ superblockEntry view block ∧
      block.hashPrevBlock = 1000 ∧
      (superblockNode.withBudgets sampleBudgets).connectTransactions superblockEntry block view =
        .ok acct ∧
      superblockLimit superblockNode sampleBudgets 43200 < acct.nMint superblockEntry :=
  exists_superblock_exceeding superblockHeight_sample superblockAccepted_sample rfl rfl
    (by decide)

/-- The block mints a million DOGEC, and the two calls accept it. -/
theorem superblock_mints_million :
    SuperblockHeight superblockNode sampleBudgets ⟨1000, 43199, 1600000000, 8000000 * COIN⟩ 43200 ∧
    SuperblockAccepted superblockNode sampleBudgets ⟨1000, 43199, 1600000000, 8000000 * COIN⟩
      superblockEntry (freeView ⟨7, 0⟩) (sampleSuperblock (999900 * COIN)) ∧
    superblockLimit superblockNode sampleBudgets 43200 = 11080000000 ∧
    ∃ acct, (superblockNode.withBudgets sampleBudgets).connectTransactions superblockEntry
      (sampleSuperblock (999900 * COIN)) (freeView ⟨7, 0⟩) = .ok acct ∧
        acct.nMint superblockEntry = 1000000 * COIN := by
  refine ⟨superblockHeight_sample, ⟨?_, ?_, ?_, ?_⟩, ?_, ?_⟩
  · decide
  · decide
  · decide
  · decide
  · decide
  · have minted : ((superblockNode.withBudgets sampleBudgets).connectTransactions superblockEntry
        (sampleSuperblock (999900 * COIN)) (freeView ⟨7, 0⟩)).toOption.map
          (·.nMint superblockEntry) = some (1000000 * COIN) := by
      decide
    cases connected : (superblockNode.withBudgets sampleBudgets).connectTransactions
        superblockEntry (sampleSuperblock (999900 * COIN)) (freeView ⟨7, 0⟩) with
    | error failure =>
      rw [connected] at minted
      cases minted
    | ok acct =>
      rw [connected] at minted
      exact ⟨acct, rfl, Option.some.inj minted⟩

end DogeCash
