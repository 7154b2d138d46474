import DogeCash.Validation.CoinValue
import DogeCash.Validation.Overmint

/-! # The money supply is the value of the coin set

`ConnectBlock` keeps the money supply from the totals of a block, while the coin set
changes entry by entry. The two agree as long as no transaction overwrites unspent outputs.
The check of BIP30 rules that out against the view before the block; within the block a
repeated transaction would have to spend the same outputs again, and these could only come
back through another repeated transaction (`Progress`).
-/

namespace DogeCash

open List (mem_cons mem_cons_of_mem mem_cons_self not_mem_nil)
open CTransaction (hash spendsCoins_iff containsZerocoins)

namespace CoinsMap

variable {view : CoinsMap}

variable {out : COutPoint} {undos : List CTxInUndo} {txid : UInt256} {spent : CoinsMap}

theorem isPruned_of_outputFor (unspent : (view.outputFor out).isNull = false) :
    (view out.hash).isPruned = false := by
  by_contra pruned
  rw [Bool.not_eq_false] at pruned
  rw [outputFor, List.getD_eq_getElem?_getD] at unspent
  cases slot : (view out.hash).vout[out.n.toNat]? with
  | none => simp [slot] at unspent
  | some txout =>
    have isNull := List.all_eq_true.mp pruned txout (List.mem_of_getElem? slot)
    simp [slot, isNull] at unspent

theorem spendInputs_of_isPruned {inputs : List CTxIn} {final : CoinsMap}
    (ok : view.spendInputs inputs = some (final, undos)) (pruned : (view txid).isPruned = true) :
    final txid = view txid := by
  induction inputs generalizing view undos with
  | nil =>
    cases ok
    rfl
  | cons txin rest ih =>
    obtain ⟨spent, undo, later, first, remaining, rfl⟩ := spendInputs_cons_eq_some ok
    obtain ⟨output, unspent⟩ := outputFor_of_spendOutput first
    have other : txid ≠ txin.prevout.hash := by
      rintro rfl
      rw [← output] at unspent
      rw [isPruned_of_outputFor unspent] at pruned
      cases pruned
    have untouched : spent txid = view txid := by
      obtain ⟨-, -, rfl⟩ := spendOutput_eq_some first
      exact modifyCoins_of_ne view other _
    rw [ih remaining (by rwa [untouched]), untouched]

variable {tx : CTransaction} {nHeight : Int32} {final : CoinsMap} {txundo : CTxUndo}

theorem markSpent_eq_some (marked : view.markSpent tx = some (spent, undos)) :
    (tx.spendsCoins = true ∧ view.spendInputs tx.vin = some (spent, undos)) ∨
      (tx.spendsCoins = false ∧ spent = view) := by
  unfold markSpent at marked
  split at marked
  · rename_i spends
    exact .inl ⟨spends, marked⟩
  · rename_i spends
    obtain ⟨rfl, -⟩ := Prod.mk.inj (Option.some.inj marked)
    exact .inr ⟨by simpa using spends, rfl⟩

theorem markSpent_of_isPruned (marked : view.markSpent tx = some (spent, undos))
    (pruned : (view txid).isPruned = true) : spent txid = view txid := by
  rcases markSpent_eq_some marked with ⟨-, spends⟩ | ⟨-, rfl⟩
  · exact spendInputs_of_isPruned spends pruned
  · rfl

theorem updateCoins_inputs (wellFormed : view.WellFormed)
    (ok : view.updateCoins tx nHeight = some (final, txundo))
    (spends : tx.spendsCoins = true) :
    ∀ txin ∈ tx.vin, (view.outputFor txin.prevout).isNull = false := by
  obtain ⟨spent, marked, -⟩ := updateCoins_eq_some ok
  rw [markSpent, if_pos spends] at marked
  exact (spendInputs_spec wellFormed marked).1

/-- The outputs of other transactions after `UpdateCoins`. -/
theorem updateCoins_outputFor (wellFormed : view.WellFormed)
    (ok : view.updateCoins tx nHeight = some (final, txundo)) (other : out.hash ≠ tx.hash) :
    final.outputFor out =
      if tx.spendsCoins = true ∧ out ∈ tx.vin.map CTxIn.prevout then CTxOut.null
      else view.outputFor out := by
  obtain ⟨spent, marked, rfl⟩ := updateCoins_eq_some ok
  have added : (spent.addOutputs tx nHeight).outputFor out = spent.outputFor out := by
    rw [outputFor, outputFor, addOutputs, modifyCoins_of_ne spent other]
  rw [added]
  rcases markSpent_eq_some marked with ⟨spends, marked⟩ | ⟨spends, rfl⟩
  · rw [(spendInputs_spec wellFormed marked).2.1]
    simp [spends]
  · simp [spends]

/-- Spending inputs leaves the flags and the height of every entry. -/
theorem spendInputs_marks {inputs : List CTxIn} {undos : List CTxInUndo}
    (ok : view.spendInputs inputs = some (spent, undos)) (txid : UInt256) :
    ∃ vout, spent txid = { view txid with vout := vout } := by
  induction inputs generalizing view undos with
  | nil =>
    cases ok
    exact ⟨_, rfl⟩
  | cons txin rest ih =>
    obtain ⟨next, undo, later, first, remaining, rfl⟩ := spendInputs_cons_eq_some ok
    obtain ⟨coins, spends, rfl⟩ := spendOutput_eq_some first
    obtain ⟨vout, marks⟩ := ih remaining
    by_cases own : txid = txin.prevout.hash
    · subst own
      obtain ⟨-, -, rfl, -⟩ := CCoins.spend_eq_some spends
      rw [modifyCoins_self] at marks
      exact ⟨vout, marks⟩
    · rw [modifyCoins_of_ne view own] at marks
      exact ⟨vout, marks⟩

theorem updateCoins_marks {txundo : CTxUndo}
    (ok : view.updateCoins tx nHeight = some (final, txundo)) (other : txid ≠ tx.hash) :
    ∃ vout, final txid = { view txid with vout := vout } := by
  obtain ⟨spent, marked, rfl⟩ := updateCoins_eq_some ok
  rw [addOutputs, modifyCoins_of_ne spent other]
  rcases markSpent_eq_some marked with ⟨-, spends⟩ | ⟨-, rfl⟩
  · exact spendInputs_marks spends txid
  · exact ⟨_, rfl⟩

theorem updateCoins_isPruned (ok : view.updateCoins tx nHeight = some (final, txundo))
    (other : txid ≠ tx.hash) (pruned : (view txid).isPruned = true) :
    (final txid).isPruned = true := by
  obtain ⟨spent, marked, rfl⟩ := updateCoins_eq_some ok
  rw [addOutputs, modifyCoins_of_ne spent other, markSpent_of_isPruned marked pruned]
  exact pruned

theorem updateCoins_total (wellFormed : view.WellFormed)
    (nonneg : ∀ out ∈ tx.vout, 0 ≤ out.nValue)
    (ok : view.updateCoins tx nHeight = some (final, txundo))
    (fresh : (view tx.hash).isPruned = true) :
    final.total = view.total + tx.valueOut - view.consumed tx - tx.getValueOutUnspendable := by
  obtain ⟨spent, marked, rfl⟩ := updateCoins_eq_some ok
  have spentTotal : spent.total = view.total - view.consumed tx := by
    rcases markSpent_eq_some marked with ⟨spends, marked⟩ | ⟨spends, rfl⟩
    · rw [consumed, if_pos spends, (spendInputs_spec wellFormed marked).2.2]
    · simp [consumed, spends]
  have untouched : spent tx.hash = view tx.hash := markSpent_of_isPruned marked fresh
  have nothing : (spent tx.hash).value = 0 := by
    rw [untouched]
    exact CCoins.value_of_isPruned fresh
  rw [addOutputs, total_modifyCoins, CCoins.value_fromTx nonneg, spentTotal, nothing]
  omega

end CoinsMap

/-- Where the loop of `ConnectBlock` is, seen from the view before the block: what the
transactions done so far have spent is gone for good, since it came from an entry that the
check of BIP30 protects or from another transaction done before. -/
structure Progress (origin : CoinsMap) (done : List CTransaction) (acct : Accounting) : Prop where
  wellFormed : acct.view.WellFormed
  valued : acct.view.Valued
  source : ∀ txid, (acct.view txid).isPruned = false →
    (origin txid).isPruned = false ∨ txid ∈ done.map hash
  spent : ∀ tx ∈ done, tx.spendsCoins = true → ∀ txin ∈ tx.vin,
    (acct.view.outputFor txin.prevout).isNull = true ∧
      ((origin txin.prevout.hash).isPruned = false ∨ txin.prevout.hash ∈ done.map hash)
  total : acct.view.total =
    origin.total + acct.nValueOut - acct.nValueIn - acct.nValueOutUnspendable

namespace Progress

variable {node : Node} {entry : BlockEntry} {origin : CoinsMap} {done : List CTransaction}
  {tx : CTransaction} {before after : Accounting}

theorem fresh (progress : Progress origin done before) (round : node.Round entry tx before after)
    (identified : ∀ earlier ∈ done, earlier.hash = tx.hash → earlier = tx)
    (hasInputs : tx.vin ≠ []) (kind : tx.spendsCoins = true ∨ done = []) :
    tx.hash ∉ done.map hash := by
  intro repeated
  obtain ⟨earlier, mem, sameHash⟩ := List.mem_map.mp repeated
  obtain rfl := identified earlier mem sameHash
  rcases kind with spends | nothing
  · obtain ⟨txundo, updated⟩ := round.updated
    obtain ⟨txin, rest, vin⟩ := List.exists_cons_of_ne_nil hasInputs
    have inside : txin ∈ earlier.vin := by simp [vin]
    have unspent := CoinsMap.updateCoins_inputs progress.wellFormed updated spends txin inside
    rw [(progress.spent earlier mem spends txin inside).1] at unspent
    cases unspent
  · rw [nothing] at mem
    exact not_mem_nil mem

/-- **One transaction.** -/
theorem step (progress : Progress origin done before) (round : node.Round entry tx before after)
    (identified : ∀ earlier ∈ done, earlier.hash = tx.hash → earlier = tx)
    (hasInputs : tx.vin ≠ []) (kind : tx.spendsCoins = true ∨ done = [])
    (notSpend : tx.isZerocoinSpend = false) (bip30 : (origin tx.hash).isPruned = true) :
    Progress origin (tx :: done) after := by
  have fresh := progress.fresh round identified hasInputs kind
  obtain ⟨txundo, updated⟩ := round.updated
  have pruned : (before.view tx.hash).isPruned = true := by
    by_contra unspent
    rcases progress.source tx.hash (by simpa using unspent) with inOrigin | repeated
    · rw [bip30] at inOrigin
      cases inOrigin
    · exact fresh repeated
  -- Nothing that has been spent has the id of this transaction.
  have notOwn : ∀ txid, (origin txid).isPruned = false ∨ txid ∈ done.map hash →
      txid ≠ tx.hash := by
    rintro txid (inOrigin | inDone) rfl
    · rw [bip30] at inOrigin
      cases inOrigin
    · exact fresh inDone
  refine ⟨?_, ?_, ?_, ?_, ?_⟩
  · exact progress.wellFormed.updateCoins round.nonneg updated
  · exact progress.valued.updateCoins round.nonneg updated
  · intro txid unspent
    by_cases own : txid = tx.hash
    · exact .inr (by simp [own])
    · have before' : (before.view txid).isPruned = false := by
        by_contra isPruned
        rw [CoinsMap.updateCoins_isPruned updated own (by simpa using isPruned)] at unspent
        cases unspent
      rcases progress.source txid before' with inOrigin | inDone
      · exact .inl inOrigin
      · exact .inr (mem_cons_of_mem _ inDone)
  · intro other mem spends txin inside
    have origins : (origin txin.prevout.hash).isPruned = false ∨
        txin.prevout.hash ∈ done.map hash := by
      rcases mem_cons.mp mem with rfl | mem
      · have unspent := CoinsMap.updateCoins_inputs progress.wellFormed updated spends txin inside
        exact progress.source _ (CoinsMap.isPruned_of_outputFor unspent)
      · exact (progress.spent other mem spends txin inside).2
    refine ⟨?_, origins.imp_right (mem_cons_of_mem _)⟩
    rw [CoinsMap.updateCoins_outputFor progress.wellFormed updated (notOwn _ origins)]
    rcases mem_cons.mp mem with rfl | mem
    · rw [if_pos ⟨spends, List.mem_map_of_mem inside⟩, CTxOut.isNull_null]
    · split
      · exact CTxOut.isNull_null
      · exact (progress.spent other mem spends txin inside).1
  · rw [CoinsMap.updateCoins_total progress.wellFormed round.nonneg updated pruned, progress.total,
      round.nValueOut, round.nValueIn, round.nValueOutUnspendable, Node.valueIn, notSpend]
    simp only [Bool.false_eq_true, ↓reduceIte]
    omega

end Progress

section Block

variable {node : Node} {entry : BlockEntry} {block : CBlock} {origin : CoinsMap}

/-- The transactions of a block have different ids unless they are the same: the id is a
hash of the transaction. -/
def CBlock.Identified (block : CBlock) : Prop :=
  ∀ tx ∈ block.vtx, ∀ other ∈ block.vtx, tx.hash = other.hash → tx = other

instance : Decidable block.Identified := inferInstanceAs (Decidable (∀ tx ∈ _, ∀ other ∈ _, _))

variable {before after : Accounting} {view : CoinsMap} {acct : Accounting}

private theorem progress_foldlM {rest done : List CTransaction}
    (progress : Progress origin done before)
    (ok : rest.foldlM (node.connectTransaction entry block) before = .ok after)
    (identified : ∀ tx ∈ done ++ rest, ∀ other ∈ done ++ rest, tx.hash = other.hash → tx = other)
    (hasInputs : ∀ tx ∈ rest, tx.vin ≠ []) (spends : ∀ tx ∈ rest, tx.spendsCoins = true)
    (bip30 : ∀ tx ∈ rest, (origin tx.hash).isPruned = true) :
    ∃ done', Progress origin done' after := by
  induction rest generalizing done before with
  | nil =>
    cases ok
    exact ⟨done, progress⟩
  | cons tx rest ih =>
    obtain ⟨next, stepped, later⟩ := foldlM_cons_eq_ok.mp ok
    have spendsTx := spends tx mem_cons_self
    have same : ∀ other, other ∈ tx :: done ++ rest → other ∈ done ++ tx :: rest := by
      intro other
      simp only [List.cons_append, mem_cons, List.mem_append]
      tauto
    refine ih (progress.step (Node.connectTransaction_eq_ok stepped) ?_
      (hasInputs tx mem_cons_self) (.inl spendsTx)
      (spendsCoins_iff.mp spendsTx).2 (bip30 tx mem_cons_self)) later ?_
      (fun other mem => hasInputs other (mem_cons_of_mem _ mem))
      (fun other mem => spends other (mem_cons_of_mem _ mem))
      (fun other mem => bip30 other (mem_cons_of_mem _ mem))
    · intro earlier mem sameHash
      exact identified earlier (List.mem_append_left _ mem) tx (by simp) sameHash
    · intro first firstMember second secondMember
      exact identified first (same first firstMember) second (same second secondMember)

/-- **The loop and the coin set.** The value of the coin set changes by the totals. -/
theorem Node.connectTransactions_total (wellFormed : view.WellFormed) (valued : view.Valued)
    (ok : node.connectTransactions entry block view = .ok acct)
    (shape : (∃ first rest, block.vtx = first :: rest ∧ first.isCoinBase = true ∧
      ∀ tx ∈ rest, tx.isCoinBase = false) ∧ ∀ tx ∈ block.vtx, tx.vin ≠ [])
    (noZerocoin : ∀ tx ∈ block.vtx, tx.containsZerocoins = false) (identified : block.Identified)
    (bip30 : view.passesBIP30 block = true) :
    acct.view.WellFormed ∧ acct.view.Valued ∧
      acct.view.total =
        view.total + acct.nValueOut - acct.nValueIn - acct.nValueOutUnspendable := by
  obtain ⟨⟨first, rest, vtx, -, others⟩, hasInputs⟩ := shape
  have notSpend : ∀ tx ∈ block.vtx, tx.isZerocoinSpend = false := by
    intro tx mem
    have none := noZerocoin tx mem
    rw [containsZerocoins, Bool.or_eq_false_iff] at none
    exact none.1
  have pruned : ∀ tx ∈ block.vtx, (view tx.hash).isPruned = true := List.all_eq_true.mp bip30
  rw [CBlock.Identified, vtx] at identified
  rw [vtx] at notSpend hasInputs pruned
  rw [Node.connectTransactions, vtx] at ok
  obtain ⟨next, stepped, later⟩ := foldlM_cons_eq_ok.mp ok
  have start : Progress view [] { view := view } := by
    refine ⟨wellFormed, valued, fun txid unspent => .inl unspent, ?_, ?_⟩
    · exact fun _ mem => absurd mem not_mem_nil
    · simp
  have firstDone := start.step (Node.connectTransaction_eq_ok stepped)
    (fun _ mem => absurd mem not_mem_nil) (hasInputs first mem_cons_self)
    (.inr rfl) (notSpend first mem_cons_self) (pruned first mem_cons_self)
  obtain ⟨done, progress⟩ := progress_foldlM firstDone later identified
    (fun tx mem => hasInputs tx (mem_cons_of_mem _ mem))
    (fun tx mem => spendsCoins_iff.mpr
      ⟨others tx mem, notSpend tx (mem_cons_of_mem _ mem)⟩)
    (fun tx mem => pruned tx (mem_cons_of_mem _ mem))
  exact ⟨progress.wellFormed, progress.valued, progress.total⟩

theorem Node.Round.fee_nonneg {tx : CTransaction} (round : node.Round entry tx before after) :
    0 ≤ Node.fee before.view tx := by
  unfold Node.fee
  split
  · rename_i ordinary
    rw [Bool.and_eq_true, Bool.not_eq_eq_eq_not, Bool.not_true] at ordinary
    have covered := CheckInputs.valueOut_le_of_checkInputs (round.inputs ordinary.1).2 ordinary.1
      ordinary.2
    rw [CoinsMap.consumed, if_pos ordinary.1]
    omega
  · exact Int.le_refl 0

/-- The fee of a transaction is part of what its inputs are worth. -/
theorem Node.Round.fee_le {tx : CTransaction} (round : node.Round entry tx before after)
    (notSpend : tx.isZerocoinSpend = false) :
    Node.fee before.view tx ≤ node.valueIn before.view tx := by
  have nonneg : 0 ≤ before.view.consumed tx := by
    rw [CoinsMap.consumed]
    split_ifs with spends
    · exact CheckInputs.inputs_nonneg_of_checkInputs (round.inputs spends).2 spends
    · exact Int.le_refl 0
  have out : 0 ≤ tx.valueOut := List.sum_nonneg fun value mem => by
    obtain ⟨txout, inside, rfl⟩ := List.mem_map.mp mem
    exact round.nonneg txout inside
  rw [Node.fee, Node.valueIn, notSpend, if_neg Bool.false_ne_true]
  split_ifs
  · omega
  · exact nonneg

theorem Node.connectTransactions_nFees_bounds
    (noZerocoin : ∀ tx ∈ block.vtx, tx.containsZerocoins = false)
    (ok : node.connectTransactions entry block view = .ok acct) :
    0 ≤ acct.nFees ∧ acct.nFees ≤ acct.nValueIn := by
  refine foldlM_invariant (fun acct => 0 ≤ acct.nFees ∧ acct.nFees ≤ acct.nValueIn) ?_ ok
    ⟨Int.le_refl 0, Int.le_refl 0⟩
  rintro tx mem before after ⟨nonneg, within⟩ stepped
  have round := Node.connectTransaction_eq_ok stepped
  have none := noZerocoin tx mem
  rw [containsZerocoins, Bool.or_eq_false_iff] at none
  have fee := round.fee_nonneg
  have most := round.fee_le none.1
  rw [round.nFees, round.nValueIn]
  omega

end Block

end DogeCash
