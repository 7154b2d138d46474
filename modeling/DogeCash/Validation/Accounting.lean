import DogeCash.Validation.ConnectBlock
import Mathlib.Algebra.BigOperators.Group.List.Basic
import Mathlib.Algebra.Order.BigOperators.Group.List

/-! # The totals of a block

What a round of the loop in `ConnectBlock` does (`Round`), and what follows for the
whole loop: each total is a sum over the transactions of the block, each taken with
the view it was applied to.
-/

namespace DogeCash

open CTransaction (getValueOutOrThrow_eq_ok spendsCoins)

namespace CoinsMap

/-- The transactions, each with the view that `UpdateCoins` has reached before it. -/
def withViews (view : CoinsMap) (nHeight : Int32) :
    List CTransaction → List (CTransaction × CoinsMap)
  | [] => []
  | tx :: rest =>
    (tx, view) ::
      match view.updateCoins tx nHeight with
      | none => []
      | some (updated, _) => updated.withViews nHeight rest

def consumed (view : CoinsMap) (tx : CTransaction) : Int :=
  if tx.spendsCoins then (tx.vin.map fun txin => (view.outputFor txin.prevout).nValue).sum else 0

theorem mem_of_mem_withViews {view : CoinsMap} {nHeight : Int32} {txs : List CTransaction}
    {pair : CTransaction × CoinsMap} (mem : pair ∈ view.withViews nHeight txs) :
    pair.1 ∈ txs := by
  induction txs generalizing view with
  | nil => cases mem
  | cons tx rest ih =>
    rcases List.mem_cons.mp mem with rfl | mem
    · exact List.mem_cons_self
    · split at mem
      · cases mem
      · exact List.mem_cons_of_mem tx (ih mem)

end CoinsMap

namespace Node

/-- What the loop counts as the inputs of a transaction: a zerocoin spend is credited
with the denominations it claims. -/
def valueIn (node : Node) (view : CoinsMap) (tx : CTransaction) : Int :=
  if tx.isZerocoinSpend then tx.redeemed node.zerocoin else view.consumed tx

def fee (view : CoinsMap) (tx : CTransaction) : Int :=
  if tx.spendsCoins && !tx.isCoinStake then view.consumed tx - tx.valueOut else 0

/-- What one round of the loop does. -/
structure Round (node : Node) (entry : BlockEntry) (tx : CTransaction)
    (before after : Accounting) : Prop where
  updated : ∃ txundo,
    before.view.updateCoins tx (Int32.ofInt entry.nHeight) = some (after.view, txundo)
  nonneg : ∀ out ∈ tx.vout, 0 ≤ out.nValue
  nValueOut : after.nValueOut = before.nValueOut + tx.valueOut
  nValueOutUnspendable :
    after.nValueOutUnspendable = before.nValueOutUnspendable + tx.getValueOutUnspendable
  nValueIn : after.nValueIn = before.nValueIn + node.valueIn before.view tx
  nFees : after.nFees = before.nFees + fee before.view tx
  inputs : tx.spendsCoins = true → before.view.haveInputs tx = true ∧
    CheckInputs.checkInputs node.params node.script entry.spendHeight before.view
      (node.connectFlags entry) (node.fScriptChecks entry) tx = .ok ()

end Node

variable {tx : CTransaction}

/-- The unspendable outputs are among the outputs. -/
theorem CTransaction.getValueOutUnspendable_bounds (nonneg : ∀ out ∈ tx.vout, 0 ≤ out.nValue) :
    0 ≤ tx.getValueOutUnspendable ∧ tx.getValueOutUnspendable ≤ tx.valueOut := by
  refine ⟨List.sum_nonneg fun amount mem => ?_, List.sum_le_sum fun out mem => ?_⟩
  · obtain ⟨out, inside, rfl⟩ := List.mem_map.mp mem
    split_ifs
    · exact nonneg out inside
    · exact le_rfl
  · split_ifs
    · exact le_rfl
    · exact nonneg out mem

theorem CTransaction.spendsCoins_iff :
    tx.spendsCoins = true ↔ tx.isCoinBase = false ∧ tx.isZerocoinSpend = false := by
  simp [spendsCoins]

theorem CTransaction.kind_cases (tx : CTransaction) :
    (tx.isZerocoinSpend = true ∧ tx.isCoinBase = false ∧ tx.spendsCoins = false) ∨
    (tx.isZerocoinSpend = false ∧ tx.isCoinBase = true ∧ tx.spendsCoins = false) ∨
    (tx.isZerocoinSpend = false ∧ tx.isCoinBase = false ∧ tx.spendsCoins = true) := by
  by_cases spend : tx.isZerocoinSpend = true
  · have notCoinBase := CTransaction.isCoinBase_eq_false_of_isZerocoinSpend spend
    simp [spendsCoins, spend, notCoinBase]
  · by_cases coinBase : tx.isCoinBase = true
    · simp [spendsCoins, spend, coinBase]
    · simp [spendsCoins, spend, coinBase]

theorem CoinsMap.getValueIn_eq_consumed {view : CoinsMap} (spends : tx.spendsCoins = true) :
    view.getValueIn tx = view.consumed tx := by
  obtain ⟨notCoinBase, notSpend⟩ := CTransaction.spendsCoins_iff.mp spends
  simp [CoinsMap.getValueIn, CoinsMap.consumed, notCoinBase, notSpend, spends]

namespace Node

variable {node : Node} {entry : BlockEntry} {block : CBlock} {tx : CTransaction}
  {before after : Accounting}

theorem connectMints_eq_ok (ok : node.connectMints entry tx before = .ok after) :
    after = { before with vMints := after.vMints } := by
  refine foldlM_invariant (fun acct => acct = { before with vMints := acct.vMints }) ?_ ok rfl
  intro out _ acct next same step
  unfold connectMintOutput at step
  split at step
  · cases step
  · obtain ⟨-, step⟩ := require_bind_eq_ok.mp step
    cases step
    rw [same]

theorem foldlM_connectSpendInput (inputs : List CTxIn) (acct final : Accounting)
    (ok : inputs.foldlM (node.connectSpendInput entry tx) acct = .ok final) :
    final = { acct with
      nValueIn := acct.nValueIn + ((inputs.filterMap node.zerocoin.txInToZerocoinSpend).map
        fun spend => spend.denomination.toInt * COIN).sum
      vSpends := acct.vSpends ++ (inputs.filterMap node.zerocoin.txInToZerocoinSpend).map
        fun spend => (spend, tx.hash) } ∧
    ∀ txin ∈ inputs, ∃ spend, node.zerocoin.txInToZerocoinSpend txin = some spend ∧
      node.contextualCheckZerocoinSpend tx spend entry.nHeight = true := by
  induction inputs generalizing acct with
  | nil =>
    cases ok
    simp
  | cons txin rest ih =>
    obtain ⟨next, stepped, later⟩ := foldlM_cons_eq_ok.mp ok
    unfold connectSpendInput at stepped
    split at stepped
    · cases stepped
    · rename_i spend decoded
      obtain ⟨checked, stepped⟩ := require_bind_eq_ok.mp stepped
      cases stepped
      obtain ⟨finalIs, others⟩ := ih _ later
      refine ⟨?_, List.forall_mem_cons.mpr ⟨⟨spend, decoded, checked⟩, others⟩⟩
      rw [finalIs, List.filterMap_cons_some decoded, List.map_cons, List.map_cons, List.sum_cons,
        Int.add_assoc, List.append_assoc, List.singleton_append]

theorem connectZerocoinSpend_eq_ok
    (ok : node.connectZerocoinSpend entry tx before = .ok after) :
    after = { before with
      nValueIn := before.nValueIn + tx.redeemed node.zerocoin
      vSpends := after.vSpends
      vMints := after.vMints } := by
  obtain ⟨-, ok⟩ := require_bind_eq_ok.mp ok
  obtain ⟨middle, spends, mints⟩ := bind_eq_ok.mp ok
  rw [connectMints_eq_ok mints, (foldlM_connectSpendInput _ _ _ spends).1]
  rfl

variable {view : CoinsMap}

theorem feeOf_eq_ok {value : Int} (spends : tx.spendsCoins = true)
    (ok : feeOf view tx = .ok value) : value = fee view tx := by
  unfold feeOf at ok
  unfold fee
  by_cases coinStake : tx.isCoinStake = true
  · simp only [coinStake, ↓reduceIte, Except.ok.injEq] at ok
    simp [coinStake, ok]
  · simp only [coinStake, Bool.false_eq_true, ↓reduceIte] at ok
    obtain ⟨nValueOut, out, ok⟩ := bind_eq_ok.mp ok
    cases ok
    simp [coinStake, spends, CoinsMap.getValueIn_eq_consumed spends,
      (getValueOutOrThrow_eq_ok out).1]

theorem connectInputs_steps (ok : node.connectInputs entry tx before = .ok after) :
    before.view.haveInputs tx = true ∧ ∃ minted value,
      node.connectMints entry tx before = .ok minted ∧ feeOf minted.view tx = .ok value ∧
      CheckInputs.checkInputs node.params node.script entry.spendHeight minted.view
        (node.connectFlags entry) (node.fScriptChecks entry) tx = .ok () ∧
      after = { minted with
        nSigOps := minted.nSigOps + minted.view.getP2SHSigOpCount tx
        nFees := minted.nFees + value
        nValueIn := minted.nValueIn + minted.view.getValueIn tx } := by
  obtain ⟨have', ok⟩ := require_bind_eq_ok.mp ok
  obtain ⟨-, ok⟩ := require_bind_eq_ok.mp ok
  obtain ⟨minted, mints, ok⟩ := bind_eq_ok.mp ok
  obtain ⟨-, ok⟩ := require_bind_eq_ok.mp ok
  obtain ⟨value, feeIs, ok⟩ := bind_eq_ok.mp ok
  obtain ⟨_, checked, ok⟩ := bind_eq_ok.mp ok
  cases ok
  exact ⟨have', minted, value, mints, feeIs, checked, rfl⟩

theorem connectInputs_eq_ok (spends : tx.spendsCoins = true)
    (ok : node.connectInputs entry tx before = .ok after) :
    after = { before with
      nSigOps := after.nSigOps
      nFees := before.nFees + fee before.view tx
      nValueIn := before.nValueIn + before.view.consumed tx
      vMints := after.vMints } ∧
    before.view.haveInputs tx = true ∧
    CheckInputs.checkInputs node.params node.script entry.spendHeight before.view
      (node.connectFlags entry) (node.fScriptChecks entry) tx = .ok () := by
  obtain ⟨have', middle, value, mints, feeIs, checked, rfl⟩ := connectInputs_steps ok
  rw [connectMints_eq_ok mints] at feeIs checked ⊢
  refine ⟨?_, have', checked⟩
  rw [feeOf_eq_ok spends feeIs, CoinsMap.getValueIn_eq_consumed spends]

theorem connectTransaction_steps
    (ok : node.connectTransaction entry block before tx = .ok after) :
    ∃ middle nValueOut view txundo,
      node.connectKind entry tx { before with
        nSigOps := before.nSigOps + tx.getLegacySigOpCount } = .ok middle ∧
      tx.getValueOutOrThrow = .ok nValueOut ∧
      middle.view.updateCoins tx (Int32.ofInt entry.nHeight) = some (view, txundo) ∧
      after = { middle with
        view := view
        nValueOut := middle.nValueOut + nValueOut
        nValueOutUnspendable := middle.nValueOutUnspendable + tx.getValueOutUnspendable
        vtxundo := middle.vtxundo ++ [txundo] } := by
  obtain ⟨-, ok⟩ := require_bind_eq_ok.mp ok
  obtain ⟨-, ok⟩ := require_bind_eq_ok.mp ok
  obtain ⟨middle, kind, ok⟩ := bind_eq_ok.mp ok
  obtain ⟨nValueOut, out, ok⟩ := bind_eq_ok.mp ok
  unfold connectOutputs at ok
  split at ok
  · cases ok
  · rename_i view txundo updated
    cases ok
    exact ⟨middle, nValueOut, view, txundo, kind, out, updated, rfl⟩

/-- **One round.** What is known after a round of the loop that succeeded. -/
theorem connectTransaction_eq_ok
    (ok : node.connectTransaction entry block before tx = .ok after) :
    node.Round entry tx before after := by
  obtain ⟨middle, nValueOut, view, txundo, kind, out, updated, rfl⟩ := connectTransaction_steps ok
  obtain ⟨rfl, nonneg⟩ := getValueOutOrThrow_eq_ok out
  unfold connectKind at kind
  split at kind
  · rename_i spend
    have notSpends : tx.spendsCoins = false := by simp [spendsCoins, spend]
    rw [connectZerocoinSpend_eq_ok kind] at updated ⊢
    exact {
      updated := ⟨txundo, updated⟩
      nonneg := nonneg
      nValueOut := rfl
      nValueOutUnspendable := rfl
      nValueIn := by simp [valueIn, spend]
      nFees := by simp [fee, notSpends]
      inputs := fun spends => by simp [notSpends] at spends }
  · rename_i notSpend
    split at kind
    · rename_i coinBase
      have notSpends : tx.spendsCoins = false := by simp [spendsCoins, coinBase]
      cases kind
      exact {
        updated := ⟨txundo, updated⟩
        nonneg := nonneg
        nValueOut := rfl
        nValueOutUnspendable := rfl
        nValueIn := by simp [valueIn, notSpend, CoinsMap.consumed, notSpends]
        nFees := by simp [fee, notSpends]
        inputs := fun spends => by simp [notSpends] at spends }
    · rename_i notCoinBase
      have spends : tx.spendsCoins = true :=
        CTransaction.spendsCoins_iff.mpr ⟨by simpa using notCoinBase, by simpa using notSpend⟩
      obtain ⟨middleIs, have', checked⟩ := connectInputs_eq_ok spends kind
      rw [middleIs] at updated ⊢
      exact {
        updated := ⟨txundo, updated⟩
        nonneg := nonneg
        nValueOut := rfl
        nValueOutUnspendable := rfl
        nValueIn := by simp [valueIn, notSpend]
        nFees := rfl
        inputs := fun _ => ⟨have', checked⟩ }

section Loop

variable {txs : List CTransaction} {start final : Accounting}

theorem foldlM_forall_withViews (property : CTransaction → CoinsMap → Prop)
    (ok : txs.foldlM (node.connectTransaction entry block) start = .ok final)
    (rounds : ∀ tx ∈ txs, ∀ before after, node.Round entry tx before after →
      property tx before.view) :
    ∀ pair ∈ start.view.withViews (Int32.ofInt entry.nHeight) txs, property pair.1 pair.2 := by
  induction txs generalizing start with
  | nil => exact nofun
  | cons tx rest ih =>
    obtain ⟨next, stepped, later⟩ := foldlM_cons_eq_ok.mp ok
    have round := connectTransaction_eq_ok stepped
    obtain ⟨txundo, updated⟩ := round.updated
    simp only [CoinsMap.withViews, updated]
    intro pair mem
    rcases List.mem_cons.mp mem with rfl | mem
    · exact rounds tx List.mem_cons_self start next round
    · exact ih later (fun other inside => rounds other (List.mem_cons_of_mem _ inside)) pair
        mem

theorem map_fst_withViews
    (ok : txs.foldlM (node.connectTransaction entry block) start = .ok final) :
    (start.view.withViews (Int32.ofInt entry.nHeight) txs).map Prod.fst = txs := by
  induction txs generalizing start with
  | nil => rfl
  | cons tx rest ih =>
    obtain ⟨next, stepped, later⟩ := foldlM_cons_eq_ok.mp ok
    obtain ⟨txundo, updated⟩ := (connectTransaction_eq_ok stepped).updated
    simp [CoinsMap.withViews, updated, ih later]

theorem foldlM_total (total : Accounting → Int) (amount : CTransaction → CoinsMap → Int)
    (ok : txs.foldlM (node.connectTransaction entry block) start = .ok final)
    (rounds : ∀ tx before after, node.Round entry tx before after →
      total after = total before + amount tx before.view) :
    total final = total start +
      ((start.view.withViews (Int32.ofInt entry.nHeight) txs).map
        fun pair => amount pair.1 pair.2).sum := by
  induction txs generalizing start with
  | nil =>
    cases ok
    simp [CoinsMap.withViews]
  | cons tx rest ih =>
    obtain ⟨next, stepped, later⟩ := foldlM_cons_eq_ok.mp ok
    have round := connectTransaction_eq_ok stepped
    obtain ⟨txundo, updated⟩ := round.updated
    simp only [CoinsMap.withViews, updated, List.map_cons, List.sum_cons]
    rw [ih later, rounds tx start next round, Int.add_assoc]

end Loop

/-- The sum of an amount over the transactions of a block, each with the view it is
applied to. -/
def sumOver (entry : BlockEntry) (block : CBlock) (view : CoinsMap)
    (amount : CTransaction → CoinsMap → Int) : Int :=
  ((view.withViews (Int32.ofInt entry.nHeight) block.vtx).map
    fun pair => amount pair.1 pair.2).sum

theorem sumOver_add (view : CoinsMap) (first second : CTransaction → CoinsMap → Int) :
    sumOver entry block view (fun tx before => first tx before + second tx before) =
      sumOver entry block view first + sumOver entry block view second :=
  List.sum_map_add

/-- **The totals after the loop.** -/
theorem connectTransactions_totals {acct : Accounting}
    (ok : node.connectTransactions entry block view = .ok acct) :
    acct.nValueOut = sumOver entry block view (fun tx _ => tx.valueOut) ∧
    acct.nValueOutUnspendable = sumOver entry block view (fun tx _ => tx.getValueOutUnspendable) ∧
    acct.nValueIn = sumOver entry block view (fun tx before => node.valueIn before tx) ∧
    acct.nFees = sumOver entry block view (fun tx before => fee before tx) := by
  have total := fun total amount => foldlM_total total amount ok
  refine ⟨?_, ?_, ?_, ?_⟩
  · rw [total Accounting.nValueOut (fun tx _ => tx.valueOut) fun _ _ _ round => round.nValueOut]
    exact Int.zero_add _
  · rw [total Accounting.nValueOutUnspendable (fun tx _ => tx.getValueOutUnspendable)
      fun _ _ _ round => round.nValueOutUnspendable]
    exact Int.zero_add _
  · rw [total Accounting.nValueIn (fun tx before => node.valueIn before tx)
      fun _ _ _ round => round.nValueIn]
    exact Int.zero_add _
  · rw [total Accounting.nFees (fun tx before => fee before tx) fun _ _ _ round => round.nFees]
    exact Int.zero_add _

/-- The outputs are counted over the transactions of the block, and the unspendable ones are
among them. -/
theorem connectTransactions_out {acct : Accounting}
    (ok : node.connectTransactions entry block view = .ok acct) :
    acct.nValueOut = (block.vtx.map CTransaction.valueOut).sum ∧
      0 ≤ acct.nValueOutUnspendable ∧ acct.nValueOutUnspendable ≤ acct.nValueOut := by
  refine ⟨?_, ?_⟩
  · have each := congrArg (fun txs => (txs.map CTransaction.valueOut).sum)
      (map_fst_withViews ok)
    rw [List.map_map] at each
    exact (connectTransactions_totals ok).1.trans each
  · refine foldlM_invariant (fun acct => 0 ≤ acct.nValueOutUnspendable ∧
      acct.nValueOutUnspendable ≤ acct.nValueOut) ?_ ok ⟨le_rfl, le_rfl⟩
    rintro tx - before after ⟨nonneg, within⟩ stepped
    have round := connectTransaction_eq_ok stepped
    have bounds := CTransaction.getValueOutUnspendable_bounds round.nonneg
    rw [round.nValueOut, round.nValueOutUnspendable]
    omega

/-- What is known of a block that was connected after the genesis block, with the result of
the loop. -/
structure ConnectedBy (node : Node) (entry : BlockEntry) (block : CBlock) (view : CoinsMap)
    (hashBestBlock : UInt256) (connected : Connected) (acct : Accounting) : Prop where
  loop : node.connectTransactions entry block view = .ok acct
  view_eq : connected.view = acct.view
  nMoneySupply_eq : connected.nMoneySupply = acct.nMoneySupply entry
  vSpends_eq : connected.vSpends = acct.vSpends
  best : (entry.pprev.map ChainTip.hash).getD 0 = hashBestBlock
  bip30 : entry.fEnforceBIP30 = true → view.passesBIP30 block = true
  tip : node.tip.isSome = true
  value : node.isBlockValueValid block (node.expectedMint entry block acct) (acct.nMint entry) =
    true

theorem connectBlock_eq_ok {hashBestBlock : UInt256} {fJustCheck fAlreadyChecked : Bool}
    {connected : Connected}
    (ok : node.connectBlock entry view hashBestBlock block fJustCheck fAlreadyChecked =
      .ok connected) (notGenesis : block.hash ≠ node.params.hashGenesisBlock) :
    ∃ acct, node.ConnectedBy entry block view hashBestBlock connected acct ∧
      connected.vMints = acct.vMints := by
  obtain ⟨_, -, ok⟩ := bind_eq_ok.mp ok
  obtain ⟨best, ok⟩ := require_bind_eq_ok.mp ok
  rw [if_neg notGenesis] at ok
  obtain ⟨-, ok⟩ := require_bind_eq_ok.mp ok
  obtain ⟨-, ok⟩ := require_bind_eq_ok.mp ok
  obtain ⟨bip30, ok⟩ := require_bind_eq_ok.mp ok
  obtain ⟨acct, loop, ok⟩ := bind_eq_ok.mp ok
  obtain ⟨-, ok⟩ := require_bind_eq_ok.mp ok
  obtain ⟨-, ok⟩ := require_bind_eq_ok.mp ok
  obtain ⟨tip, ok⟩ := require_bind_eq_ok.mp ok
  obtain ⟨value, ok⟩ := require_bind_eq_ok.mp ok
  obtain ⟨-, ok⟩ := require_bind_eq_ok.mp ok
  obtain ⟨-, ok⟩ := require_bind_eq_ok.mp ok
  cases ok
  refine ⟨acct, ⟨loop, rfl, rfl, rfl, by simpa using best, ?_, tip, value⟩, rfl⟩
  intro enforced
  simpa [enforced] using bip30

end Node

end DogeCash
