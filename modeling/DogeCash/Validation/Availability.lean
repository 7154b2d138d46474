import DogeCash.Validation.UpdateCoins

/-! # Available outputs

`UpdateCoins` makes exactly the outputs that it spends unavailable, and makes available at most
those of the transaction. So a transaction whose inputs are available and distinct can be
applied.
-/

namespace DogeCash

namespace CCoins

variable {coins : CCoins} {nPos : UInt32}

/-- An output is available if it is there, is not spent and is no mint. -/
theorem isAvailable_iff : coins.isAvailable nPos = true ↔
    ∃ out, coins.vout[nPos.toNat]? = some out ∧ out.isNull = false ∧
      CScript.isZerocoinMint out.scriptPubKey = false := by
  unfold isAvailable
  cases slot : coins.vout[nPos.toNat]? with
  | none => simp
  | some out => simp

theorem isAvailable_cleanup : coins.cleanup.isAvailable nPos = coins.isAvailable nPos := by
  have split : coins.vout.rdropWhile CTxOut.isNull ++ coins.vout.rtakeWhile CTxOut.isNull =
      coins.vout := List.rdropWhile_append_rtakeWhile
  rw [Bool.eq_iff_iff, isAvailable_iff, isAvailable_iff, cleanup_vout]
  constructor
  · rintro ⟨out, slot, available⟩
    refine ⟨out, ?_, available⟩
    have inside := (List.getElem?_eq_some_iff.mp slot).1
    rw [← split, List.getElem?_append_left inside]
    exact slot
  · rintro ⟨out, slot, notNull, notMint⟩
    refine ⟨out, ?_, notNull, notMint⟩
    by_cases inside : nPos.toNat < (coins.vout.rdropWhile CTxOut.isNull).length
    · rw [← split, List.getElem?_append_left inside] at slot
      exact slot
    · rw [← split, List.getElem?_append_right (Nat.le_of_not_lt inside)] at slot
      have null := List.mem_rtakeWhile_imp (List.mem_of_getElem? slot)
      rw [notNull] at null
      cases null

theorem lt_of_isAvailable_fromTx {tx : CTransaction} {nHeight : Int32}
    (available : (fromTx tx nHeight).isAvailable nPos = true) : nPos.toNat < tx.vout.length := by
  rw [fromTx, clearUnspendable, isAvailable_cleanup, isAvailable_iff] at available
  obtain ⟨out, slot, -⟩ := available
  have inside := (List.getElem?_eq_some_iff.mp slot).1
  rwa [List.length_map] at inside

end CCoins

namespace CoinsMap

/-- An output that the view has and that can be spent. -/
def Available (view : CoinsMap) (out : COutPoint) : Prop := (view out.hash).isAvailable out.n = true

variable {view : CoinsMap} {out other : COutPoint}

variable {spent : CoinsMap} {inputs : List CTxIn} {tx : CTransaction}

/-- Spending an output makes that output unavailable, and no other. -/
theorem available_spendOutput {undo : CTxInUndo}
    (ok : view.spendOutput out = some (spent, undo)) :
    spent.Available other ↔ view.Available other ∧ other ≠ out := by
  obtain ⟨coins, spends, rfl⟩ := spendOutput_eq_some ok
  obtain ⟨slot, -, rfl, -⟩ := CCoins.spend_eq_some spends
  have inside := (List.getElem?_eq_some_iff.mp slot).1
  unfold Available
  by_cases entry : other.hash = out.hash
  · rw [entry, modifyCoins_self, CCoins.cleanup_cleanup, CCoins.isAvailable_cleanup,
      CCoins.isAvailable_iff, CCoins.isAvailable_iff]
    by_cases position : other.n.toNat = out.n.toNat
    · have same : other = out := by
        cases other
        cases out
        simp only [COutPoint.mk.injEq]
        exact ⟨entry, UInt32.toNat_inj.mp position⟩
      rw [position, List.getElem?_set_self inside]
      constructor
      · rintro ⟨null, isNull, occupied, -⟩
        cases isNull
        cases occupied
      · exact fun available => absurd same available.2
    · rw [List.getElem?_set_ne (Ne.symm position)]
      refine ⟨fun available => ⟨available, ?_⟩, And.left⟩
      rintro rfl
      exact position rfl
  · rw [modifyCoins_of_ne view entry]
    refine ⟨fun available => ⟨available, ?_⟩, And.left⟩
    rintro rfl
    exact entry rfl

theorem spendInputs_of_available (available : ∀ txin ∈ inputs, view.Available txin.prevout)
    (distinct : (inputs.map CTxIn.prevout).Nodup) :
    ∃ spent undos, view.spendInputs inputs = some (spent, undos) := by
  induction inputs generalizing view with
  | nil => exact ⟨view, [], rfl⟩
  | cons txin rest ih =>
    obtain ⟨first, others⟩ := List.forall_mem_cons.mp available
    obtain ⟨new, distinct⟩ := List.nodup_cons.mp distinct
    obtain ⟨next, undo, spends⟩ := spendOutput_isSome_of_isAvailable first
    have left : ∀ other ∈ rest, next.Available other.prevout := by
      intro other mem
      refine (available_spendOutput spends).mpr ⟨others other mem, ?_⟩
      intro same
      exact new (same ▸ List.mem_map_of_mem mem)
    obtain ⟨spent, undos, later⟩ := ih left distinct
    exact ⟨spent, undo :: undos, by rw [spendInputs, spends]; dsimp only; rw [later]⟩

theorem available_spendInputs {undos : List CTxInUndo}
    (ok : view.spendInputs inputs = some (spent, undos)) (available : spent.Available out) :
    view.Available out := by
  induction inputs generalizing view undos with
  | nil =>
    cases ok
    exact available
  | cons txin rest ih =>
    obtain ⟨next, undo, later, first, remaining, -⟩ := spendInputs_cons_eq_some ok
    exact ((available_spendOutput first).mp (ih remaining)).1

theorem available_updateCoins {nHeight : Int32} {after : CoinsMap} {txundo : CTxUndo}
    (ok : view.updateCoins tx nHeight = some (after, txundo)) (available : after.Available out)
    :
    view.Available out ∨ tx.hash = out.hash ∧ out.n.toNat < tx.vout.length := by
  obtain ⟨spent, marks, rfl⟩ := updateCoins_eq_some ok
  unfold Available addOutputs at available
  by_cases own : out.hash = tx.hash
  · rw [own, modifyCoins_self, CCoins.cleanup_fromTx] at available
    exact .inr ⟨own.symm, CCoins.lt_of_isAvailable_fromTx available⟩
  · rw [modifyCoins_of_ne spent own] at available
    left
    unfold markSpent at marks
    split at marks
    · exact available_spendInputs marks available
    · obtain ⟨rfl, -⟩ := Prod.mk.inj (Option.some.inj marks)
      exact available

theorem updateCoins_of_available (nHeight : Int32)
    (available : tx.spendsCoins = true → ∀ txin ∈ tx.vin, view.Available txin.prevout)
    (distinct : tx.spendsCoins = true → (tx.vin.map CTxIn.prevout).Nodup) :
    ∃ after txundo, view.updateCoins tx nHeight = some (after, txundo) := by
  have marks : ∃ spent undos, view.markSpent tx = some (spent, undos) := by
    unfold markSpent
    split
    · rename_i spends
      exact spendInputs_of_available (available spends) (distinct spends)
    · exact ⟨view, [], rfl⟩
  obtain ⟨spent, undos, marks⟩ := marks
  exact ⟨_, ⟨undos⟩, by rw [updateCoins, marks]⟩

theorem haveInputs_iff : view.haveInputs tx = true ↔
    (tx.spendsCoins = true → ∀ txin ∈ tx.vin, view.Available txin.prevout) := by
  unfold haveInputs CTransaction.spendsCoins Available
  cases tx.isCoinBase with
  | true => simp
  | false =>
    cases tx.isZerocoinSpend with
    | true => simp
    | false => simp

end CoinsMap

end DogeCash
