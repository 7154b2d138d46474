import DogeCash.Mining.TemplateLimits
import Mathlib.Algebra.Order.BigOperators.Group.List

/-! # What `ConnectBlock` counts in a template

`ConnectBlock` counts the signature operations of the inputs with a view to which the coinbase and
the coinstake were applied, `CreateNewBlock` with one to which they were not. Apart from the
outputs of these two the former has nothing that the latter lacks, so for a transaction whose
inputs both have the counts are the same.
-/

namespace DogeCash

open List (map_cons mem_map mem_pair sum_append sum_cons sum_singleton)

namespace CoinsMap

/-- `other` is a view to which further transactions were applied, whose ids are `skipped`. -/
structure Follows (skipped : List UInt256) (view other : CoinsMap) : Prop where
  wellFormed : view.WellFormed
  otherWellFormed : other.WellFormed
  pruned : ∀ txid ∈ skipped, (view txid).isPruned = true
  same : ∀ out, out.hash ∉ skipped → (other.outputFor out).isNull = false →
    view.outputFor out = other.outputFor out

variable {skipped : List UInt256} {view other viewAfter otherAfter : CoinsMap}
  {tx : CTransaction} {nHeight otherHeight : Int32} {txundo otherUndo : CTxUndo}

theorem outputFor_of_available {out : COutPoint} (available : view.Available out) :
    (view.outputFor out).isNull = false := by
  obtain ⟨txout, slot, notNull, -⟩ := CCoins.isAvailable_iff.mp available
  rw [outputFor, List.getD_eq_getElem?_getD, slot]
  exact notNull

theorem updateCoins_outputFor_self
    (updates : view.updateCoins tx nHeight = some (viewAfter, txundo)) {out : COutPoint}
    (own : out.hash = tx.hash) :
    viewAfter.outputFor out = (CCoins.fromTx tx nHeight).vout.getD out.n.toNat CTxOut.null := by
  obtain ⟨-, -, rfl⟩ := updateCoins_eq_some updates
  rw [outputFor, own, addOutputs, modifyCoins_self, CCoins.cleanup_fromTx]

section

variable (follows : Follows skipped view other)
include follows

theorem Follows.skip (mem : tx.hash ∈ skipped) (nonneg : ∀ out ∈ tx.vout, 0 ≤ out.nValue)
    (updates : other.updateCoins tx otherHeight = some (otherAfter, otherUndo)) :
    Follows skipped view otherAfter := by
  refine ⟨follows.wellFormed, follows.otherWellFormed.updateCoins nonneg updates,
    follows.pruned, fun out kept unspent => ?_⟩
  have ne : out.hash ≠ tx.hash := fun own => kept (own ▸ mem)
  rw [updateCoins_outputFor follows.otherWellFormed updates ne] at unspent ⊢
  split_ifs at unspent ⊢ with spent
  · cases unspent
  · exact follows.same out kept unspent

theorem Follows.next (new : tx.hash ∉ skipped) (nonneg : ∀ out ∈ tx.vout, 0 ≤ out.nValue)
    (updates : view.updateCoins tx nHeight = some (viewAfter, txundo))
    (otherUpdates : other.updateCoins tx otherHeight = some (otherAfter, otherUndo)) :
    Follows skipped viewAfter otherAfter := by
  refine ⟨follows.wellFormed.updateCoins nonneg updates,
    follows.otherWellFormed.updateCoins nonneg otherUpdates, fun txid mem => ?_,
    fun out kept unspent => ?_⟩
  · exact updateCoins_isPruned updates (fun own => new (own ▸ mem)) (follows.pruned txid mem)
  · by_cases own : out.hash = tx.hash
    · rw [updateCoins_outputFor_self updates own, updateCoins_outputFor_self otherUpdates own]
      rfl
    · rw [updateCoins_outputFor follows.otherWellFormed otherUpdates own] at unspent ⊢
      rw [updateCoins_outputFor follows.wellFormed updates own]
      split_ifs at unspent ⊢ with spent
      · cases unspent
      · exact follows.same out kept unspent

theorem Follows.getP2SHSigOpCount_eq (spends : tx.spendsCoins = true)
    (has : view.haveInputs tx = true) (otherHas : other.haveInputs tx = true) :
    other.getP2SHSigOpCount tx = view.getP2SHSigOpCount tx := by
  have same : ∀ txin ∈ tx.vin, other.outputFor txin.prevout = view.outputFor txin.prevout := by
    intro txin mem
    have unspent := outputFor_of_available (haveInputs_iff.mp has spends txin mem)
    have kept : txin.prevout.hash ∉ skipped := by
      intro skips
      have pruned := follows.pruned _ skips
      rw [isPruned_of_outputFor unspent] at pruned
      cases pruned
    exact (follows.same _ kept
      (outputFor_of_available (haveInputs_iff.mp otherHas spends txin mem))).symm
  unfold getP2SHSigOpCount
  rw [List.map_congr_left fun txin mem => by rw [same txin mem]]

end

end CoinsMap

namespace Node

variable {node : Node} {entry : BlockEntry} {block : CBlock} {tx : CTransaction}
  {before after : Accounting}

theorem nSigOps_of_connectTransaction
    (ok : node.connectTransaction entry block before tx = .ok after) :
    after.nSigOps = before.nSigOps + tx.getLegacySigOpCount +
      if tx.spendsCoins then before.view.getP2SHSigOpCount tx else 0 := by
  obtain ⟨middle, -, -, -, kind, -, -, rfl⟩ := connectTransaction_steps ok
  unfold connectKind at kind
  rcases tx.kind_cases with ⟨spend, -, spends⟩ | ⟨plain, coinBase, spends⟩ |
    ⟨plain, notCoinBase, spends⟩
  · rw [if_pos spend] at kind
    rw [connectZerocoinSpend_eq_ok kind, spends]
    rfl
  · rw [if_neg (by rw [plain]; exact Bool.false_ne_true), if_pos coinBase] at kind
    cases kind
    rw [spends]
    rfl
  · rw [if_neg (by rw [plain]; exact Bool.false_ne_true),
      if_neg (by rw [notCoinBase]; exact Bool.false_ne_true)] at kind
    obtain ⟨-, minted, -, mints, -, -, rfl⟩ := connectInputs_steps kind
    rw [spends, if_pos rfl, connectMints_eq_ok mints]

end Node

/-! ## The transactions of a template -/

section Template

variable {env : MinerEnv} {entry : BlockEntry} {block : CBlock} {skipped : List UInt256}
  {vtx : List CTransaction} {vTxSigOps : List ℕ} {view : CoinsMap} {nHeight : Int32}
  {first : Accounting}

section

variable (counted : Counted nHeight env.pcoinsTip vtx vTxSigOps view)
include counted

variable {acct : Accounting}

/-- While `ConnectBlock` goes through the transactions, its view follows the one of
`CreateNewBlock`, and it counts no more. -/
theorem Counted.follows (start : env.pcoinsTip.Follows skipped first.view)
    (new : ∀ tx ∈ vtx, tx.hash ∉ skipped)
    (connects : vtx.foldlM (env.node.connectTransaction entry block) first = .ok acct) :
    view.Follows skipped acct.view ∧ acct.nSigOps ≤ first.nSigOps + vTxSigOps.sum := by
  induction counted generalizing acct with
  | nothing =>
    cases connects
    exact ⟨start, Nat.le_add_right _ _⟩
  | next before has updates ih =>
    obtain ⟨middle, connects, step⟩ := foldlM_concat_eq_ok.mp connects
    obtain ⟨follows, few⟩ := ih (fun tx mem => new tx (List.mem_append_left _ mem)) connects
    have round := Node.connectTransaction_eq_ok step
    obtain ⟨txundo, otherUpdates⟩ := round.updated
    refine ⟨follows.next (new _ (List.mem_append_right _ List.mem_cons_self)) round.nonneg
      updates otherUpdates, ?_⟩
    rw [Node.nSigOps_of_connectTransaction step, sum_append, sum_singleton]
    split_ifs with spends
    · rw [follows.getP2SHSigOpCount_eq spends has (round.inputs spends).1]
      omega
    · omega

/-- `ConnectBlock` finds no more signature operations than `CreateNewBlock` has counted. -/
theorem Counted.accepts (start : env.pcoinsTip.Follows skipped first.view)
    (new : ∀ tx ∈ vtx, tx.hash ∉ skipped) (few : first.nSigOps + vTxSigOps.sum ≤ maxBlockSigOps)
    {before after : List CTransaction} {tx : CTransaction} (split : vtx = before ++ tx :: after)
    (connects : before.foldlM (env.node.connectTransaction entry block) first = .ok acct) :
    acct.nSigOps + tx.getLegacySigOpCount ≤ maxBlockSigOps ∧
      (tx.spendsCoins = true → acct.view.haveInputs tx = true →
        acct.nSigOps + tx.getLegacySigOpCount + acct.view.getP2SHSigOpCount tx ≤
          maxBlockSigOps) := by
  induction counted generalizing after with
  | nothing => simp at split
  | next earlier has updates ih =>
    have newEarlier := fun tx mem => new tx (List.mem_append_left _ mem)
    rw [sum_append, sum_singleton] at few
    rcases List.eq_nil_or_concat after with rfl | ⟨rest, last, rfl⟩
    · obtain ⟨rfl, same⟩ := List.append_inj' split rfl
      cases same
      obtain ⟨follows, counts⟩ := earlier.follows start newEarlier connects
      refine ⟨by omega, fun spends otherHas => ?_⟩
      rw [follows.getP2SHSigOpCount_eq spends has otherHas]
      omega
    · rw [List.concat_eq_append, ← List.cons_append, ← List.append_assoc] at split
      obtain ⟨rfl, -⟩ := List.append_inj' split rfl
      exact ih newEarlier (by omega) rfl

theorem Counted.legacy_le : (vtx.map CTransaction.getLegacySigOpCount).sum ≤ vTxSigOps.sum := by
  induction counted with
  | nothing => exact le_rfl
  | next before has updates ih =>
    rw [List.map_append, sum_append, sum_append, List.map_singleton, sum_singleton, sum_singleton]
    omega

end

end Template

/-! ## The limits -/

section Limits

variable {env : MinerEnv} {frame : BlockFrame}

variable {tx : CTransaction}

theorem fifty_le_serializeSize (inputs : tx.vin ≠ []) : 50 ≤ tx.serializeSize := by
  obtain ⟨first, rest, vin⟩ := List.exists_cons_of_ne_nil inputs
  unfold CTransaction.serializeSize
  rw [vin, map_cons, sum_cons]
  unfold CTxIn.serializeSize
  have onePlus : ∀ nSize, 1 ≤ getSizeOfCompactSize nSize := by
    intro nSize
    unfold getSizeOfCompactSize
    split_ifs
    all_goals decide
  have inPrefix := onePlus (first :: rest).length
  have outPrefix := onePlus tx.vout.length
  omega

/-- **The size of a template.** It is within the limit if what is not selected takes no more than
what was counted for it and the 1000 bytes that the maximum size leaves open. -/
theorem withinSize_of_le (suits : env.Suits frame)
    (fits : frame.overhead + env.nBlockMaxSize ≤ 2000998) : env.WithinSize frame := by
  intro vtx selected
  obtain ⟨selection, rfl, measured⟩ := measured_of_selectedTransactions selected
  rw [frame.serializeSize_eq]
  have overhead := frame.overhead_le
  rcases measured.small with empty | below
  · rw [empty]
    change frame.overhead + 1 + 0 ≤ 2000000
    omega
  · have each : ∀ size ∈ selection.vtx.map CTransaction.serializeSize, 50 ≤ size := by
      intro size mem
      obtain ⟨tx, inside, rfl⟩ := mem_map.mp mem
      obtain ⟨_, _, _, passed⟩ := suits.checked tx (measured.fromPool tx inside)
      exact fifty_le_serializeSize (Node.vin_ne_nil_of_checkTransaction passed)
    have total := List.card_nsmul_le_sum _ _ each
    rw [nsmul_eq_mul, Nat.cast_id, List.length_map] at total
    have size := measured.size
    have few : getSizeOfCompactSize (selection.vtx.length + 1 + 1) ≤ 3 :=
      BlockFrame.getSizeOfCompactSize_le (by omega) le_rfl
    change _ ≤ 2000000
    omega

theorem getP2SHSigOpCount_eq_zero {view : CoinsMap} (plain : ∀ txin ∈ tx.vin,
      CScript.isPayToScriptHash (view.outputFor txin.prevout).scriptPubKey = false) :
    view.getP2SHSigOpCount tx = 0 := by
  unfold CoinsMap.getP2SHSigOpCount
  split_ifs
  · rfl
  · refine List.sum_eq_zero fun count mem => ?_
    obtain ⟨txin, inside, rfl⟩ := mem_map.mp mem
    dsimp only
    rw [plain txin inside]
    rfl

namespace BlockFrame

variable (frame)

theorem spendsCoins_coinbase : frame.coinbase.spendsCoins = false := by
  rw [CTransaction.spendsCoins, frame.isCoinBase_coinbase]
  rfl

theorem isPayToScriptHash_coinbase (nHeight : Int32) (position : ℕ) :
    CScript.isPayToScriptHash
      ((CCoins.fromTx frame.coinbase nHeight).vout.getD position CTxOut.null).scriptPubKey =
        false := by
  cases position with
  | zero => rfl
  | succ position => rfl

variable {frame} {view : CoinsMap} {nHeight : Int32} {txundo : CTxUndo}

theorem getP2SHSigOpCount_coinstake (suits : env.Suits frame)
    (updates : env.pcoinsTip.updateCoins frame.coinbase nHeight = some (view, txundo)) :
    view.getP2SHSigOpCount frame.coinstake = 0 := by
  refine getP2SHSigOpCount_eq_zero fun txin mem => ?_
  by_cases own : txin.prevout.hash = frame.coinbase.hash
  · rw [CoinsMap.updateCoins_outputFor_self updates own]
    exact frame.isPayToScriptHash_coinbase _ _
  · rw [CoinsMap.updateCoins_outputFor suits.wellFormed updates own, if_neg]
    · exact suits.staked txin mem
    · rw [frame.spendsCoins_coinbase]
      exact fun spends => Bool.false_ne_true spends.1

end BlockFrame

/-- **The signature operations of a template.** They are within the limit if those of the coinbase
and the coinstake are no more than what was counted for them, or one more. -/
theorem withinSigOps_of_le (suits : env.Suits frame) (few : frame.nSigOps ≤ 101) :
    env.WithinSigOps frame := by
  intro vtx selected
  obtain ⟨selection, rfl, measured⟩ := measured_of_selectedTransactions selected
  have counts : frame.nSigOps + selection.vTxSigOps.sum ≤ maxBlockSigOps := by
    have sigOps := measured.sigOps
    have below := measured.few
    omega
  have both : frame.coinbase.getLegacySigOpCount + frame.coinstake.getLegacySigOpCount =
      frame.nSigOps := rfl
  refine ⟨?_, fun entry block transactions => ?_⟩
  · have legacy := measured.counted.legacy_le
    rw [BlockFrame.vtx, map_cons, map_cons, sum_cons, sum_cons]
    omega
  · intro before tx after acct split connects
    rw [transactions] at split
    rcases before with _ | ⟨coinbase, _ | ⟨coinstake, before⟩⟩
    · obtain ⟨rfl, -⟩ := List.cons.inj split
      cases connects
      refine ⟨by dsimp only; omega, fun spends => ?_⟩
      rw [frame.spendsCoins_coinbase] at spends
      cases spends
    · obtain ⟨isCoinBase, split⟩ := List.cons.inj split
      obtain ⟨rfl, -⟩ := List.cons.inj split
      subst isCoinBase
      obtain ⟨middle, step, rest⟩ := foldlM_cons_eq_ok.mp connects
      cases rest
      obtain ⟨txundo, updates⟩ := (Node.connectTransaction_eq_ok step).updated
      have nSigOps := Node.nSigOps_of_connectTransaction step
      rw [frame.spendsCoins_coinbase] at nSigOps
      dsimp only [Bool.false_eq_true, if_false] at nSigOps updates
      rw [BlockFrame.getP2SHSigOpCount_coinstake suits updates]
      rw [if_neg Bool.false_ne_true] at nSigOps
      exact ⟨by omega, fun _ _ => by omega⟩
    · obtain ⟨isCoinBase, split⟩ := List.cons.inj split
      obtain ⟨isCoinStake, tail⟩ := List.cons.inj split
      subst isCoinBase isCoinStake
      obtain ⟨middle, step, rest⟩ := foldlM_cons_eq_ok.mp connects
      obtain ⟨first, stakeStep, rest⟩ := foldlM_cons_eq_ok.mp rest
      have round := Node.connectTransaction_eq_ok step
      have stakeRound := Node.connectTransaction_eq_ok stakeStep
      obtain ⟨txundo, updates⟩ := round.updated
      obtain ⟨stakeUndo, stakeUpdates⟩ := stakeRound.updated
      have start : env.pcoinsTip.Follows [frame.coinbase.hash, frame.coinstake.hash]
          env.pcoinsTip := by
        refine ⟨suits.wellFormed, suits.wellFormed, fun txid mem => ?_, fun _ _ _ => rfl⟩
        rcases mem_pair.mp mem with rfl | rfl
        · exact suits.newCoins _ (mem_pair.mpr (.inl rfl))
        · exact suits.newCoins _ (mem_pair.mpr (.inr rfl))
      have follows := (start.skip (mem_pair.mpr (.inl rfl)) round.nonneg updates).skip
        (mem_pair.mpr (.inr rfl)) stakeRound.nonneg stakeUpdates
      have new : ∀ tx ∈ selection.vtx, tx.hash ∉ [frame.coinbase.hash, frame.coinstake.hash] := by
        intro other mem own
        have held := measured.fromPool other mem
        rcases mem_pair.mp own with same | same
        · exact suits.newTx _ (mem_pair.mpr (.inl rfl)) other held same
        · exact suits.newTx _ (mem_pair.mpr (.inr rfl)) other held same
      have nSigOps := Node.nSigOps_of_connectTransaction step
      have stakeSigOps := Node.nSigOps_of_connectTransaction stakeStep
      rw [frame.spendsCoins_coinbase, if_neg Bool.false_ne_true] at nSigOps
      rw [BlockFrame.getP2SHSigOpCount_coinstake suits updates, ite_self] at stakeSigOps
      have counts : first.nSigOps + selection.vTxSigOps.sum ≤ maxBlockSigOps := by
        dsimp only at nSigOps
        omega
      exact measured.counted.accepts follows new counts tail rest

end Limits

end DogeCash
