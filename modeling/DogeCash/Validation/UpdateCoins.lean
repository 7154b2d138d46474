import DogeCash.Coins.View

/-! # Applying a block to the coin set

`UpdateCoins` spends the inputs of a transaction and adds its outputs, recording
an undo record for each input. `updateCoinsBlock` is the part of the loop of
`ConnectBlock` that calls it: the record of the first transaction is dropped,
the others are kept in order.
-/

namespace DogeCash

namespace CoinsMap

/-- `ModifyCoins(out.hash)->Spend(out, undo)`: `none` where `Spend` returns
false. -/
def spendOutput (view : CoinsMap) (out : COutPoint) : Option (CoinsMap × CTxInUndo) :=
  match (view out.hash).spend out with
  | none => none
  | some (spent, undo) => some (view.modifyCoins out.hash fun _ => spent, undo)

/-- The loop of `UpdateCoins` over the inputs: `none` where its assertion
fails. -/
def spendInputs (view : CoinsMap) : List CTxIn → Option (CoinsMap × List CTxInUndo)
  | [] => some (view, [])
  | txin :: rest =>
    match view.spendOutput txin.prevout with
    | none => none
    | some (spent, undo) =>
      match spendInputs spent rest with
      | none => none
      | some (final, undos) => some (final, undo :: undos)

end CoinsMap

namespace CTransaction

def spendsCoins (tx : CTransaction) : Bool := !tx.isCoinBase && !tx.isZerocoinSpend

end CTransaction

namespace CoinsMap

/-- The inputs `UpdateCoins` marks spent. -/
def markSpent (view : CoinsMap) (tx : CTransaction) : Option (CoinsMap × List CTxInUndo) :=
  if tx.spendsCoins then view.spendInputs tx.vin else some (view, [])

/-- `ModifyCoins(tx.GetHash())->FromTx(tx, nHeight)` -/
def addOutputs (view : CoinsMap) (tx : CTransaction) (nHeight : Int32) : CoinsMap :=
  view.modifyCoins tx.hash fun _ => CCoins.fromTx tx nHeight

def updateCoins (view : CoinsMap) (tx : CTransaction) (nHeight : Int32) :
    Option (CoinsMap × CTxUndo) :=
  match view.markSpent tx with
  | none => none
  | some (spent, vprevout) => some (spent.addOutputs tx nHeight, ⟨vprevout⟩)

/-- `UpdateCoins` on transactions one after another, with their records. -/
def updateCoinsAll (view : CoinsMap) (nHeight : Int32) :
    List CTransaction → Option (CoinsMap × List CTxUndo)
  | [] => some (view, [])
  | tx :: rest =>
    match view.updateCoins tx nHeight with
    | none => none
    | some (updated, txundo) =>
      match updateCoinsAll updated nHeight rest with
      | none => none
      | some (final, vtxundo) => some (final, txundo :: vtxundo)

/-- The loop of `ConnectBlock` over the transactions of a block, as far as the
coin set goes: `vtxundo` has one record for each transaction after the first. -/
def updateCoinsBlock (view : CoinsMap) (block : CBlock) (nHeight : Int32) :
    Option (CoinsMap × List CTxUndo) :=
  match block.vtx with
  | [] => some (view, [])
  | first :: rest =>
    match view.updateCoins first nHeight with
    | none => none
    | some (updated, _) => updated.updateCoinsAll nHeight rest

/-- The inputs are available one after another, each after the ones before it
were spent. -/
def inputsAvailable (view : CoinsMap) : List CTxIn → Bool
  | [] => true
  | txin :: rest =>
    (view txin.prevout.hash).isAvailable txin.prevout.n &&
      match view.spendOutput txin.prevout with
      | none => true
      | some (spent, _) => inputsAvailable spent rest

def blockInputsAvailable (view : CoinsMap) (nHeight : Int32) : List CTransaction → Bool
  | [] => true
  | tx :: rest =>
    (!tx.spendsCoins || view.inputsAvailable tx.vin) &&
      match view.updateCoins tx nHeight with
      | none => true
      | some (updated, _) => blockInputsAvailable updated nHeight rest

/-- The BIP30 check of `ConnectBlock`: no transaction overwrites one that still
has unspent outputs. -/
def passesBIP30 (view : CoinsMap) (block : CBlock) : Bool :=
  block.vtx.all fun tx => (view tx.hash).isPruned

section Specifications

variable {view : CoinsMap}

variable {out : COutPoint} {final : CoinsMap} {undos : List CTxInUndo} {inputs : List CTxIn}
    {tx : CTransaction} {nHeight : Int32}

theorem spendOutput_eq_some {undo : CTxInUndo} (ok : view.spendOutput out = some (final, undo))
    :
    ∃ spent, (view out.hash).spend out = some (spent, undo) ∧
      final = view.modifyCoins out.hash fun _ => spent := by
  unfold spendOutput at ok
  split at ok
  · cases ok
  · rename_i spent record spends
    cases ok
    exact ⟨spent, spends, rfl⟩

theorem spendInputs_cons_eq_some {txin : CTxIn} {rest : List CTxIn}
    (ok : view.spendInputs (txin :: rest) = some (final, undos)) :
    ∃ spent undo later, view.spendOutput txin.prevout = some (spent, undo) ∧
      spent.spendInputs rest = some (final, later) ∧ undos = undo :: later := by
  rw [spendInputs] at ok
  split at ok
  · cases ok
  · rename_i spent undo spends
    split at ok
    · cases ok
    · rename_i last later remaining
      cases ok
      exact ⟨spent, undo, later, spends, remaining, rfl⟩

theorem spendInputs_length (ok : view.spendInputs inputs = some (final, undos)) :
    undos.length = inputs.length := by
  induction inputs generalizing view undos with
  | nil =>
    cases ok
    rfl
  | cons txin rest ih =>
    obtain ⟨spent, -, later, -, remaining, rfl⟩ := spendInputs_cons_eq_some ok
    rw [List.length_cons, List.length_cons, ih remaining]

theorem updateCoins_eq_some {txundo : CTxUndo}
    (ok : view.updateCoins tx nHeight = some (final, txundo)) :
    ∃ spent, view.markSpent tx = some (spent, txundo.vprevout) ∧
      final = spent.addOutputs tx nHeight := by
  unfold updateCoins at ok
  split at ok
  · cases ok
  · rename_i spent vprevout spends
    cases ok
    exact ⟨spent, spends, rfl⟩

variable {vtxundo : List CTxUndo} {txs : List CTransaction}

theorem updateCoinsAll_cons_eq_some {rest : List CTransaction}
    (ok : view.updateCoinsAll nHeight (tx :: rest) = some (final, vtxundo)) :
    ∃ updated txundo later, view.updateCoins tx nHeight = some (updated, txundo) ∧
      updated.updateCoinsAll nHeight rest = some (final, later) ∧ vtxundo = txundo :: later := by
  rw [updateCoinsAll] at ok
  split at ok
  · cases ok
  · rename_i updated txundo first
    split at ok
    · cases ok
    · rename_i last later remaining
      cases ok
      exact ⟨updated, txundo, later, first, remaining, rfl⟩

theorem updateCoinsAll_length (ok : view.updateCoinsAll nHeight txs = some (final, vtxundo)) :
    vtxundo.length = txs.length := by
  induction txs generalizing view vtxundo with
  | nil =>
    cases ok
    rfl
  | cons tx rest ih =>
    obtain ⟨updated, -, later, -, remaining, rfl⟩ := updateCoinsAll_cons_eq_some ok
    rw [List.length_cons, List.length_cons, ih remaining]

theorem spendOutput_isSome_of_isAvailable (available : (view out.hash).isAvailable out.n = true) :
    ∃ spent undo, view.spendOutput out = some (spent, undo) := by
  obtain ⟨⟨spent, undo⟩, spends⟩ :=
    Option.isSome_iff_exists.mp (CCoins.spend_isSome_of_isAvailable available)
  exact ⟨_, undo, by rw [spendOutput, spends]⟩

theorem spendInputs_isSome_of_available (available : view.inputsAvailable inputs = true) :
    ∃ final undos, view.spendInputs inputs = some (final, undos) := by
  induction inputs generalizing view with
  | nil => exact ⟨view, [], rfl⟩
  | cons txin rest ih =>
    rw [inputsAvailable, Bool.and_eq_true] at available
    obtain ⟨first, later⟩ := available
    obtain ⟨spent, undo, spends⟩ := spendOutput_isSome_of_isAvailable first
    simp only [spends] at later
    obtain ⟨final, undos, remaining⟩ := ih later
    exact ⟨final, undo :: undos, by simp only [spendInputs, spends, remaining]⟩

theorem updateCoinsAll_isSome_of_available
    (available : view.blockInputsAvailable nHeight txs = true) :
    ∃ final vtxundo, view.updateCoinsAll nHeight txs = some (final, vtxundo) := by
  induction txs generalizing view with
  | nil => exact ⟨view, [], rfl⟩
  | cons tx rest ih =>
    rw [blockInputsAvailable, Bool.and_eq_true] at available
    obtain ⟨inputs, later⟩ := available
    obtain ⟨spent, vprevout, spends⟩ :
        ∃ spent vprevout, view.markSpent tx = some (spent, vprevout) := by
      unfold markSpent
      by_cases regular : tx.spendsCoins = true
      · simp only [regular, ↓reduceIte]
        exact spendInputs_isSome_of_available (by simpa [regular] using inputs)
      · simp only [regular, Bool.false_eq_true, ↓reduceIte]
        exact ⟨view, [], rfl⟩
    have first : view.updateCoins tx nHeight = some (spent.addOutputs tx nHeight, ⟨vprevout⟩) := by
      rw [updateCoins, spends]
    simp only [first] at later
    obtain ⟨final, vtxundo, remaining⟩ := ih later
    exact ⟨final, ⟨vprevout⟩ :: vtxundo, by simp only [updateCoinsAll, first, remaining]⟩

section

variable (wellFormed : view.WellFormed)
include wellFormed

theorem WellFormed.spendOutput {undo : CTxInUndo}
    (ok : view.spendOutput out = some (final, undo)) :
    final.WellFormed := by
  obtain ⟨spent, spends, rfl⟩ := spendOutput_eq_some ok
  have left := CCoins.spend_wellFormed (wellFormed out.hash) spends
  exact wellFormed.modifyCoins out.hash (by rwa [left.cleanup_eq])

theorem WellFormed.spendInputs (ok : view.spendInputs inputs = some (final, undos)) :
    final.WellFormed := by
  induction inputs generalizing view undos with
  | nil =>
    cases ok
    exact wellFormed
  | cons txin rest ih =>
    obtain ⟨spent, undo, later, first, remaining, -⟩ := spendInputs_cons_eq_some ok
    exact ih (wellFormed.spendOutput first) remaining

theorem WellFormed.markSpent (ok : view.markSpent tx = some (final, undos)) : final.WellFormed := by
  unfold CoinsMap.markSpent at ok
  split at ok
  · exact wellFormed.spendInputs ok
  · cases ok
    exact wellFormed

theorem WellFormed.addOutputs (nonneg : ∀ out ∈ tx.vout, 0 ≤ out.nValue) :
    (view.addOutputs tx nHeight).WellFormed :=
  wellFormed.modifyCoins tx.hash (by
    rw [CCoins.cleanup_fromTx]
    exact CCoins.fromTx_wellFormed nonneg nHeight)

theorem WellFormed.updateCoins {txundo : CTxUndo} (nonneg : ∀ out ∈ tx.vout, 0 ≤ out.nValue)
    (ok : view.updateCoins tx nHeight = some (final, txundo)) : final.WellFormed := by
  obtain ⟨spent, spends, rfl⟩ := updateCoins_eq_some ok
  exact (wellFormed.markSpent spends).addOutputs nonneg

theorem WellFormed.updateCoinsAll {txs : List CTransaction} {vtxundo : List CTxUndo}
    (values : ∀ tx ∈ txs, ∀ out ∈ tx.vout, 0 ≤ out.nValue)
    (updates : view.updateCoinsAll nHeight txs = some (final, vtxundo)) : final.WellFormed := by
  induction txs generalizing view vtxundo with
  | nil =>
    cases updates
    exact wellFormed
  | cons tx rest ih =>
    obtain ⟨_, _, _, first, remaining, -⟩ := updateCoinsAll_cons_eq_some updates
    obtain ⟨here, later⟩ := List.forall_mem_cons.mp values
    exact ih (wellFormed.updateCoins here first) later remaining

end

end Specifications

end CoinsMap

end DogeCash
