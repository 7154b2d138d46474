import DogeCash.Foundation.Totals
import DogeCash.Validation.CheckInputs
import Mathlib.Algebra.Order.BigOperators.Group.Finset
import Mathlib.Data.FinEnum

/-! # The value of the coin set

What a coins view is worth is the sum of its unspent outputs over all transactions.
`UpdateCoins` takes the value of the inputs out of it and puts the value of the spendable
outputs in, provided the transaction does not overwrite unspent outputs.
-/

namespace DogeCash

namespace CTxOut

def unspentValue (out : CTxOut) : Int := if out.isNull then 0 else out.nValue

theorem unspentValue_of_isNull {out : CTxOut} (isNull : out.isNull = true) :
    out.unspentValue = 0 := by
  rw [unspentValue, if_pos isNull]

theorem unspentValue_of_not_isNull {out : CTxOut} (unspent : out.isNull = false) :
    out.unspentValue = out.nValue := by
  simp [unspentValue, unspent]

end CTxOut

namespace CCoins

def value (coins : CCoins) : Int := Totals.total CTxOut.unspentValue coins.vout

theorem value_cleanup (coins : CCoins) : coins.cleanup.value = coins.value :=
  Totals.total_rdropWhile (fun _ => CTxOut.unspentValue_of_isNull) coins.vout

theorem value_of_isPruned {coins : CCoins} (pruned : coins.isPruned = true) : coins.value = 0 :=
  Totals.total_eq_zero fun out mem =>
    CTxOut.unspentValue_of_isNull (List.all_eq_true.mp pruned out mem)

/-- No output has a negative value but the null ones. -/
def Valued (coins : CCoins) : Prop := ∀ out ∈ coins.vout, -1 ≤ out.nValue

theorem Valued.value_nonneg {coins : CCoins} (valued : coins.Valued) : 0 ≤ coins.value := by
  refine List.sum_nonneg fun amount mem => ?_
  obtain ⟨out, inside, rfl⟩ := List.mem_map.mp mem
  have least := valued out inside
  cases isNull : out.isNull with
  | true => rw [CTxOut.unspentValue_of_isNull isNull]
  | false =>
    rw [CTxOut.unspentValue_of_not_isNull isNull]
    have other : out.nValue ≠ -1 := by simpa [CTxOut.isNull] using isNull
    omega

theorem Valued.cleanup {coins : CCoins} (valued : coins.Valued) : coins.cleanup.Valued :=
  fun out mem => valued out ((List.rdropWhile_prefix _ _).subset mem)

theorem Valued.spend {coins spent : CCoins} {out : COutPoint} {undo : CTxInUndo}
    (valued : coins.Valued) (ok : coins.spend out = some (spent, undo)) : spent.Valued := by
  obtain ⟨-, -, rfl, -⟩ := spend_eq_some ok
  refine Valued.cleanup fun slot mem => ?_
  rcases List.mem_or_eq_of_mem_set mem with old | rfl
  · exact valued slot old
  · exact Int.le_refl (-1)

theorem valued_fromTx {tx : CTransaction} (nonneg : ∀ out ∈ tx.vout, 0 ≤ out.nValue)
    (nHeight : Int32) : (fromTx tx nHeight).Valued := by
  refine Valued.cleanup fun slot mem => ?_
  obtain ⟨out, inside, rfl⟩ := List.mem_map.mp mem
  split_ifs
  · exact Int.le_refl (-1)
  · exact (by decide : (-1 : Int) ≤ 0).trans (nonneg out inside)

theorem value_spend {coins spent : CCoins} {out : COutPoint} {undo : CTxInUndo}
    (ok : coins.spend out = some (spent, undo)) :
    spent.value = coins.value - undo.txout.nValue := by
  obtain ⟨inside, unspent, rfl, -⟩ := spend_eq_some ok
  rw [value_cleanup, value, value, Totals.total_set inside,
    CTxOut.unspentValue_of_not_isNull unspent, CTxOut.unspentValue_of_isNull CTxOut.isNull_null]
  omega

theorem value_fromTx {tx : CTransaction} (nonneg : ∀ out ∈ tx.vout, 0 ≤ out.nValue)
    (nHeight : Int32) : (fromTx tx nHeight).value = tx.valueOut - tx.getValueOutUnspendable := by
  have each : ∀ outs : List CTxOut, (∀ out ∈ outs, 0 ≤ out.nValue) →
      Totals.total CTxOut.unspentValue (outs.map fun out =>
        if CScript.isUnspendable out.scriptPubKey then CTxOut.null else out) +
      (outs.map fun out =>
        if !out.isNull && !out.isEmpty && CScript.isUnspendable out.scriptPubKey then out.nValue
        else 0).sum = (outs.map CTxOut.nValue).sum := by
    intro outs nonneg
    induction outs with
    | nil => rfl
    | cons out rest ih =>
      have unspent : out.isNull = false := CTxOut.not_isNull_of_nonneg (nonneg out (by simp))
      have later := ih fun other mem => nonneg other (List.mem_cons_of_mem _ mem)
      simp only [Totals.total, List.map_cons, List.sum_cons] at later ⊢
      by_cases unspendable : CScript.isUnspendable out.scriptPubKey = true
      · have notEmpty : out.isEmpty = false := by
          cases script : out.scriptPubKey with
          | nil => simp [script] at unspendable
          | cons first script' => simp [CTxOut.isEmpty, script]
        simp only [unspendable, unspent, notEmpty, CTxOut.unspentValue, CTxOut.isNull_null,
          ↓reduceIte, Bool.not_false, Bool.and_self]
        omega
      · simp only [unspendable, Bool.and_false, Bool.false_eq_true, ↓reduceIte,
          CTxOut.unspentValue, unspent]
        omega
  have sum := each tx.vout nonneg
  rw [fromTx, clearUnspendable, value_cleanup, value, CTransaction.valueOut,
    CTransaction.getValueOutUnspendable]
  dsimp only
  omega

end CCoins

namespace CoinsMap

noncomputable def total (view : CoinsMap) : Int := ∑ txid, (view txid).value

/-- No entry of the view has an output with a negative value but null ones. -/
def Valued (view : CoinsMap) : Prop := ∀ txid, (view txid).Valued

theorem Valued.total_nonneg {view : CoinsMap} (valued : view.Valued) : 0 ≤ view.total :=
  Finset.sum_nonneg fun txid _ => (valued txid).value_nonneg

theorem Valued.modifyCoins {view : CoinsMap} (valued : view.Valued) (txid : UInt256)
    {coins : CCoins} (changed : coins.Valued) : (view.modifyCoins txid fun _ => coins).Valued := by
  intro other
  by_cases target : other = txid
  · rw [target, modifyCoins_self]
    exact changed.cleanup
  · rw [modifyCoins_of_ne view target]
    exact valued other

theorem Valued.spendInputs {view final : CoinsMap} (valued : view.Valued) {inputs : List CTxIn}
    {undos : List CTxInUndo} (ok : view.spendInputs inputs = some (final, undos)) :
    final.Valued := by
  induction inputs generalizing view undos with
  | nil =>
    cases ok
    exact valued
  | cons txin rest ih =>
    obtain ⟨spent, undo, later, first, remaining, -⟩ := spendInputs_cons_eq_some ok
    obtain ⟨coins, spends, rfl⟩ := spendOutput_eq_some first
    exact ih (valued.modifyCoins _ ((valued _).spend spends)) remaining

theorem Valued.updateCoins {view final : CoinsMap} (valued : view.Valued) {tx : CTransaction}
    {nHeight : Int32} {txundo : CTxUndo} (nonneg : ∀ out ∈ tx.vout, 0 ≤ out.nValue)
    (ok : view.updateCoins tx nHeight = some (final, txundo)) : final.Valued := by
  obtain ⟨spent, marked, rfl⟩ := updateCoins_eq_some ok
  have spentValued : spent.Valued := by
    unfold markSpent at marked
    split at marked
    · exact valued.spendInputs marked
    · exact (Prod.mk.inj (Option.some.inj marked)).1 ▸ valued
  exact spentValued.modifyCoins _ (CCoins.valued_fromTx nonneg nHeight)

theorem total_modifyCoins (view : CoinsMap) (txid : UInt256) (coins : CCoins) :
    (view.modifyCoins txid fun _ => coins).total =
      view.total - (view txid).value + coins.value := by
  rw [total, modifyCoins, Totals.sum_update CCoins.value, CCoins.value_cleanup]
  rfl

variable {view : CoinsMap}

variable {out : COutPoint} {final : CoinsMap} {undo : CTxInUndo}

theorem outputFor_spendOutput (wellFormed : view.WellFormed)
    (ok : view.spendOutput out = some (final, undo)) (other : COutPoint) :
    final.outputFor other = if other = out then CTxOut.null else view.outputFor other := by
  obtain ⟨spent, spends, rfl⟩ := spendOutput_eq_some ok
  obtain ⟨inside, -, rfl, -⟩ := CCoins.spend_eq_some spends
  by_cases sameEntry : other.hash = out.hash
  · have canonical := (wellFormed out.hash).canonical.set out.n.toNat CTxOut.null fun _ => rfl
    have bound := (List.getElem?_eq_some_iff.mp inside).1
    rw [outputFor, sameEntry, modifyCoins_self, CCoins.cleanup_cleanup, CCoins.cleanup_vout,
      Slots.getD_rdropWhile canonical, Slots.getD_set _ _ _ _ bound, outputFor, sameEntry]
    by_cases samePosition : other.n = out.n
    · have same : other = out := by
        cases other
        cases out
        simp_all
      rw [if_pos same, if_pos (by rw [samePosition])]
    · rw [if_neg fun equal => samePosition (UInt32.toNat_inj.mp equal),
        if_neg fun equal => samePosition (by rw [equal])]
  · rw [if_neg fun equal => sameEntry (by rw [equal]), outputFor, outputFor,
      modifyCoins_of_ne view sameEntry]

theorem outputFor_of_spendOutput (ok : view.spendOutput out = some (final, undo)) :
    view.outputFor out = undo.txout ∧ undo.txout.isNull = false := by
  obtain ⟨spent, spends, -⟩ := spendOutput_eq_some ok
  obtain ⟨inside, unspent, -⟩ := CCoins.spend_eq_some spends
  refine ⟨?_, unspent⟩
  rw [outputFor, List.getD_eq_getElem?_getD, inside, Option.getD_some]

/-- **What spending inputs does.** They were all unspent, each of them is spent
afterwards, other outputs stay, and their value is gone. -/
theorem spendInputs_spec {inputs : List CTxIn} {undos : List CTxInUndo}
    (wellFormed : view.WellFormed) (ok : view.spendInputs inputs = some (final, undos)) :
    (∀ txin ∈ inputs, (view.outputFor txin.prevout).isNull = false) ∧
    (∀ out, final.outputFor out =
      if out ∈ inputs.map CTxIn.prevout then CTxOut.null else view.outputFor out) ∧
    final.total =
      view.total - (inputs.map fun txin => (view.outputFor txin.prevout).nValue).sum := by
  induction inputs generalizing view undos with
  | nil =>
    cases ok
    simp
  | cons txin rest ih =>
    obtain ⟨spent, undo, later, first, remaining, rfl⟩ := spendInputs_cons_eq_some ok
    obtain ⟨firstOutput, firstUnspent⟩ := outputFor_of_spendOutput first
    have after := outputFor_spendOutput wellFormed first
    obtain ⟨unspent, outputs, total⟩ := ih (wellFormed.spendOutput first) remaining
    -- A later input is not the first one again, which is spent by then.
    have distinct : ∀ other ∈ rest, other.prevout ≠ txin.prevout := by
      intro other mem same
      have isUnspent := unspent other mem
      rw [after, if_pos same, CTxOut.isNull_null] at isUnspent
      cases isUnspent
    have unchanged : ∀ other ∈ rest,
        spent.outputFor other.prevout = view.outputFor other.prevout := by
      intro other mem
      rw [after, if_neg (distinct other mem)]
    refine ⟨?_, ?_, ?_⟩
    · intro other mem
      rcases List.mem_cons.mp mem with rfl | mem
      · rw [firstOutput, firstUnspent]
      · rw [← unchanged other mem, unspent other mem]
    · intro out
      rw [outputs, after, List.map_cons]
      by_cases isFirst : out = txin.prevout
      · simp [isFirst]
      · simp [isFirst]
    · have firstTotal : spent.total = view.total - (view.outputFor txin.prevout).nValue := by
        obtain ⟨coins, spends, rfl⟩ := spendOutput_eq_some first
        rw [total_modifyCoins, CCoins.value_spend spends, firstOutput]
        omega
      rw [total, firstTotal, List.map_cons, List.sum_cons,
        List.map_congr_left fun other mem => by rw [unchanged other mem]]
      omega

end CoinsMap

end DogeCash
