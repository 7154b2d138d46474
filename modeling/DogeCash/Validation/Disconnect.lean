import DogeCash.Foundation.Undo
import DogeCash.Validation.UpdateCoins

/-! # Taking a block back out of the coin set

The loop of `DisconnectBlock` over the transactions of a block, last one first.
It removes what a transaction added, comparing it with what it should have
added, and writes back what the inputs had spent. `fClean` is cleared when
something does not fit; `none` stands for the early returns with an error.

`disconnectBlock_updateCoinsBlock_iff` says when this undoes `updateCoinsBlock`.
The metadata restored with the last output of a transaction does not include
`fCoinStake`, so the last output of a coinstake comes back without the mark.
-/

namespace DogeCash

open CCoins (cleanup cleanup_vout eq_of_same fromTx isPruned isPruned_eq_of_same same_iff
  same_refl spend_eq_some)
open CoinsMap (modifyCoins_of_ne modifyCoins_self spendOutput_eq_some)
open List (mem_cons_of_mem mem_cons_self)
open CTxOut (null isNull)

/-- What the loop of `DisconnectBlock` works on. -/
structure DisconnectState where
  view : CoinsMap
  fClean : Bool

namespace DisconnectState

/-- The first half of a round: compare the outputs in the view with those of the
transaction and remove them. -/
def removeOutputs (tx : CTransaction) (nHeight : Int32) (state : DisconnectState) :
    DisconnectState :=
  let outs := (state.view tx.hash).clearUnspendable
  let outsBlock := fromTx tx nHeight
  let outs := if outsBlock.nVersion < 0 then { outs with nVersion := outsBlock.nVersion } else outs
  { view := state.view.modifyCoins tx.hash fun _ => outs.clear
    fClean := state.fClean && outs.same outsBlock }

/-- The entry `DisconnectBlock` writes an output back into: a new one when the
record has a height, which marks the last output of its transaction. -/
def entryToRestore (coins : CCoins) (undo : CTxInUndo) : CCoins :=
  if undo.nHeight != 0 then
    { coins.clear with
      fCoinBase := undo.fCoinBase
      nHeight := undo.nHeight.toInt32
      nVersion := undo.nVersion }
  else coins

/-- Write back the output one input had spent. `out.n + 1` does not wrap: an
output with the largest index has no place in a vector. -/
def restoreInput (out : COutPoint) (undo : CTxInUndo) (state : DisconnectState) : DisconnectState :=
  let coins := state.view out.hash
  let expected := if undo.nHeight != 0 then coins.isPruned else !coins.isPruned
  let entry := entryToRestore coins undo
  { view := state.view.modifyCoins out.hash fun _ =>
      { entry with vout := Slots.fill null entry.vout out.n.toNat undo.txout }
    fClean := state.fClean && expected && !entry.isAvailable out.n }

def restoreInputs : List CTxIn → List CTxInUndo → DisconnectState → DisconnectState
  | txin :: rest, undo :: later, state =>
    restoreInput txin.prevout undo (restoreInputs rest later state)
  | _, _, state => state

section Loop

-- `eraseZerocoins` is whether removing the serials and mints of a transaction from
-- the zerocoin database succeeds, which has no effect on the view.
variable (eraseZerocoins : CTransaction → Bool) (nHeight : Int32)

/-- One round of the loop. There is no record for the first transaction. -/
def undoTransaction (tx : CTransaction) (txundo : Option CTxUndo) (state : DisconnectState) :
    Option DisconnectState :=
  if tx.containsZerocoins && !eraseZerocoins tx then none
  else if tx.spendsCoins then
    match txundo with
    | none => none
    | some txundo =>
      if txundo.vprevout.length != tx.vin.length then none
      else some (restoreInputs tx.vin txundo.vprevout (state.removeOutputs tx nHeight))
  else some (state.removeOutputs tx nHeight)

/-- The rounds for the transactions after the first, last one first. -/
def undoTransactions : List CTransaction → List CTxUndo → DisconnectState → Option DisconnectState
  | tx :: rest, txundo :: later, state =>
    (undoTransactions rest later state).bind
      (undoTransaction eraseZerocoins nHeight tx (some txundo))
  | _, _, state => some state

/-- The part of `DisconnectBlock` that works on the coin set. -/
def disconnectBlock (block : CBlock) (vtxundo : List CTxUndo) (view : CoinsMap) :
    Option DisconnectState :=
  if vtxundo.length + 1 != block.vtx.length then none
  else
    match block.vtx with
    | [] => some ⟨view, true⟩
    | first :: rest =>
      (undoTransactions eraseZerocoins nHeight rest vtxundo ⟨view, true⟩).bind
        (undoTransaction eraseZerocoins nHeight first none)

end Loop

end DisconnectState

namespace CoinsMap

def takesLast (coins : CCoins) (nPos : UInt32) : Bool :=
  (coins.vout.set nPos.toNat null).all isNull

/-- The spend can be undone: when it takes the last output, the entry is not
marked as a coinstake and has a height. -/
def spendUndoable (view : CoinsMap) (out : COutPoint) : Bool :=
  !takesLast (view out.hash) out.n || (!(view out.hash).fCoinStake && (view out.hash).nHeight != 0)

/-- The spends can be undone, each in the view before it. -/
def inputsUndoable (view : CoinsMap) : List CTxIn → Bool
  | [] => true
  | txin :: rest =>
    view.spendUndoable txin.prevout &&
      match view.spendOutput txin.prevout with
      | none => true
      | some (spent, _) => inputsUndoable spent rest

/-- The transactions can be undone, each in the view before it: its spends can,
and its outputs do not overwrite unspent ones. -/
def blockUndoable (view : CoinsMap) (nHeight : Int32) : List CTransaction → Bool
  | [] => true
  | tx :: rest =>
    (!tx.spendsCoins || view.inputsUndoable tx.vin) &&
      match view.markSpent tx with
      | none => true
      | some (spent, _) =>
        (spent tx.hash).isPruned && blockUndoable (spent.addOutputs tx nHeight) nHeight rest

end CoinsMap

namespace DisconnectState

/-- Nothing was unclean, and the view is the given one. -/
def Intact (view : CoinsMap) (state : DisconnectState) : Prop :=
  state.fClean = true ∧ CoinsMap.Same state.view view

/-- The undo has gone wrong: it was noticed, or an entry with unspent outputs is
gone or has lost its coinstake mark. -/
def Damaged (view : CoinsMap) (state : DisconnectState) : Prop :=
  state.fClean = false ∨ ∃ txid, (view txid).isPruned = false ∧
    ((state.view txid).isPruned = true ∨
      ((view txid).fCoinStake = true ∧ (state.view txid).fCoinStake = false))

theorem Damaged.not_intact {view : CoinsMap} {state : DisconnectState}
    (damaged : Damaged view state) : ¬Intact view state := by
  rintro ⟨clean, same⟩
  rcases damaged with noticed | ⟨txid, unspent, pruned | ⟨marked, unmarked⟩⟩
  · rw [clean] at noticed
    cases noticed
  · rw [isPruned_eq_of_same (same txid), unspent] at pruned
    cases pruned
  · rw [eq_of_same (same txid) unspent, marked] at unmarked
    cases unmarked

section RestoreInput

variable {before after : CoinsMap} {out : COutPoint} {undo : CTxInUndo} {state : DisconnectState}

theorem restoreInput_view_of_ne {txid : UInt256} (ne : txid ≠ out.hash) :
    (restoreInput out undo state).view txid = state.view txid := by
  simp only [restoreInput]
  exact modifyCoins_of_ne _ ne _

theorem spendOutput_entry (wellFormed : (before out.hash).WellFormed)
    (spends : before.spendOutput out = some (after, undo)) :
    (before out.hash).isPruned = false ∧
      after out.hash = cleanup { before out.hash with
        vout := (before out.hash).vout.set out.n.toNat null } ∧
      ∀ txid, txid ≠ out.hash → after txid = before txid := by
  obtain ⟨spent, ok, rfl⟩ := spendOutput_eq_some spends
  obtain ⟨inside, occupied, left, -⟩ := spend_eq_some ok
  refine ⟨?_, ?_, fun txid ne => modifyCoins_of_ne _ ne _⟩
  · rw [isPruned, List.all_eq_false]
    exact ⟨undo.txout, List.mem_of_getElem? inside, by simp [occupied]⟩
  · rw [modifyCoins_self, (CCoins.spend_wellFormed wellFormed ok).cleanup_eq, left]

theorem spendOutput_present (spends : before.spendOutput out = some (after, undo)) :
    (before out.hash).vout[out.n.toNat]? = some undo.txout ∧ undo.txout.isNull = false := by
  obtain ⟨spent, ok, -⟩ := spendOutput_eq_some spends
  obtain ⟨inside, occupied, -⟩ := spend_eq_some ok
  exact ⟨inside, occupied⟩

theorem takesLast_eq_isPruned (wellFormed : (before out.hash).WellFormed)
    (spends : before.spendOutput out = some (after, undo)) :
    CoinsMap.takesLast (before out.hash) out.n = (after out.hash).isPruned := by
  rw [(spendOutput_entry wellFormed spends).2.1, CCoins.isPruned_cleanup]
  rfl

theorem spendOutput_undo (wellFormed : (before out.hash).WellFormed)
    (spends : before.spendOutput out = some (after, undo)) :
    ((after out.hash).isPruned = true → undo.nHeight = (before out.hash).nHeight.toUInt32 ∧
        undo.fCoinBase = (before out.hash).fCoinBase ∧
        undo.nVersion = (before out.hash).nVersion) ∧
      ((after out.hash).isPruned = false → undo.nHeight = 0) := by
  obtain ⟨spent, ok, rfl⟩ := spendOutput_eq_some spends
  obtain ⟨-, -, -, last, others⟩ := spend_eq_some ok
  rw [modifyCoins_self, (CCoins.spend_wellFormed wellFormed ok).cleanup_eq]
  refine ⟨fun pruned => ?_, others⟩
  obtain ⟨height, base, -, version⟩ := last pruned
  exact ⟨height, base, version⟩

theorem isAvailable_spent {coins : CCoins} {nPos : UInt32}
    (canonical : Slots.Canonical isNull null coins.vout)
    (inside : nPos.toNat < coins.vout.length) :
    (cleanup { coins with vout := coins.vout.set nPos.toNat null }).isAvailable
      nPos = false := by
  unfold CCoins.isAvailable
  split
  · rename_i slot present
    have value := Slots.getD_rdropWhile (canonical.set nPos.toNat null fun _ => rfl)
      nPos.toNat
    rw [Slots.getD_set _ _ _ _ inside, if_pos rfl, List.getD_eq_getElem?_getD] at value
    rw [cleanup_vout] at present
    rw [present, Option.getD_some] at value
    rw [value]
    rfl
  · rfl

theorem cleanup_fill_spent {coins : CCoins} (wellFormed : coins.WellFormed) {nPos : UInt32}
    {txout : CTxOut} (inside : coins.vout[nPos.toNat]? = some txout)
    (occupied : txout.isNull = false) :
    cleanup { coins with
      vout := Slots.fill null
        ((coins.vout.set nPos.toNat null).rdropWhile isNull) nPos.toNat txout } =
      coins := by
  simp only [cleanup, Slots.rdropWhile_fill_rdropWhile_set CTxOut.isNull_null
    wellFormed.canonical wellFormed.trimmed inside occupied]

theorem restoreInput_intact (wellFormed : (before out.hash).WellFormed)
    (spends : before.spendOutput out = some (after, undo))
    (undoable : before.spendUndoable out = true) (intact : Intact after state) :
    Intact before (restoreInput out undo state) := by
  obtain ⟨clean, same⟩ := intact
  obtain ⟨-, left, others⟩ := spendOutput_entry wellFormed spends
  obtain ⟨last, notLast⟩ := spendOutput_undo wellFormed spends
  obtain ⟨inside, occupied⟩ := spendOutput_present spends
  have bound : out.n.toNat < (before out.hash).vout.length :=
    (List.getElem?_eq_some_iff.mp inside).1
  -- in both cases the output goes into the entry as the spend left it
  obtain ⟨expected, entry⟩ :
      (if undo.nHeight != 0 then (state.view out.hash).isPruned
        else !(state.view out.hash).isPruned) = true ∧
      entryToRestore (state.view out.hash) undo = after out.hash := by
    have agree := same out.hash
    by_cases pruned : (after out.hash).isPruned = true
    · have metadata := undoable
      rw [CoinsMap.spendUndoable, takesLast_eq_isPruned wellFormed spends, pruned] at metadata
      simp only [Bool.not_true, Bool.false_or, Bool.and_eq_true, Bool.not_eq_eq_eq_not,
        bne_iff_ne] at metadata
      obtain ⟨unmarked, height⟩ := metadata
      obtain ⟨sameHeight, sameBase, sameVersion⟩ := last pruned
      have recorded : (undo.nHeight != 0) = true := by
        rw [bne_iff_ne, sameHeight]
        intro zero
        apply height
        rw [← Int32.toInt32_toUInt32 (before out.hash).nHeight, zero]
        rfl
      have empty : (after out.hash).vout = [] := by
        have trimmed : (after out.hash).vout.rdropWhile isNull = [] := by
          rw [List.rdropWhile_eq_nil_iff]
          simpa only [isPruned, List.all_eq_true] using pruned
        rw [left, cleanup_vout] at trimmed ⊢
        rwa [List.rdropWhile_idempotent] at trimmed
      refine ⟨?_, ?_⟩
      · rw [if_pos recorded, isPruned_eq_of_same agree, pruned]
      · rw [entryToRestore, if_pos recorded, sameHeight, sameBase, sameVersion,
          Int32.toInt32_toUInt32]
        rw [left] at empty ⊢
        simp only [cleanup_vout] at empty
        simp only [CCoins.clear, cleanup, empty, unmarked]
    · rw [Bool.not_eq_true] at pruned
      have unrecorded : (undo.nHeight != 0) = false := by
        rw [notLast pruned]
        rfl
      refine ⟨?_, ?_⟩
      · rw [unrecorded, isPruned_eq_of_same agree, pruned]
        rfl
      · rw [entryToRestore, unrecorded]
        exact eq_of_same agree pruned
  refine ⟨?_, ?_⟩
  · simp only [restoreInput, clean, expected, entry, Bool.true_and, Bool.not_eq_eq_eq_not,
      Bool.not_true]
    rw [left]
    exact isAvailable_spent wellFormed.canonical bound
  · intro txid
    by_cases target : txid = out.hash
    · subst target
      have restored : (restoreInput out undo state).view out.hash = before out.hash := by
        unfold restoreInput
        simp only [modifyCoins_self, entry]
        rw [left]
        exact cleanup_fill_spent wellFormed inside occupied
      rw [restored, same_refl]
    · rw [restoreInput_view_of_ne target, ← others txid target]
      exact same txid

theorem restoreInput_fCoinStake :
    ((restoreInput out undo state).view out.hash).fCoinStake =
      (!(undo.nHeight != 0) && (state.view out.hash).fCoinStake) := by
  simp only [restoreInput, modifyCoins_self, CCoins.cleanup_fCoinStake, entryToRestore]
  by_cases recorded : (undo.nHeight != 0) = true
  · simp [recorded, CCoins.clear]
  · simp [recorded]

theorem restoreInput_fClean_of_missing (noHeight : undo.nHeight = 0)
    (missing : (state.view out.hash).isPruned = true) :
    (restoreInput out undo state).fClean = false := by
  simp [restoreInput, noHeight, missing]

section

variable (wellFormed : (before out.hash).WellFormed)
include wellFormed

section

variable (spends : before.spendOutput out = some (after, undo))
include spends

theorem restoreInput_damages (fails : ¬before.spendUndoable out = true)
    (intact : Intact after state) :
    Damaged before (restoreInput out undo state) := by
  obtain ⟨unspent, -⟩ := spendOutput_entry wellFormed spends
  rw [CoinsMap.spendUndoable, takesLast_eq_isPruned wellFormed spends] at fails
  simp only [Bool.or_eq_true, Bool.not_eq_eq_eq_not, Bool.not_true, Bool.and_eq_true, bne_iff_ne,
    not_or, Bool.not_eq_false, not_and, not_not] at fails
  obtain ⟨pruned, metadata⟩ := fails
  obtain ⟨sameHeight, -⟩ := (spendOutput_undo wellFormed spends).1 pruned
  by_cases recorded : (undo.nHeight != 0) = true
  · have marked : (before out.hash).fCoinStake = true := by
      by_contra unmarked
      rw [Bool.not_eq_true] at unmarked
      rw [sameHeight, metadata unmarked] at recorded
      cases recorded
    exact .inr ⟨out.hash, unspent, .inr ⟨marked, by rw [restoreInput_fCoinStake, recorded]; rfl⟩⟩
  · left
    apply restoreInput_fClean_of_missing (by simpa using recorded)
    rw [isPruned_eq_of_same (intact.2 out.hash), pruned]

theorem restoreInput_keeps (damaged : Damaged after state) :
    Damaged before (restoreInput out undo state) := by
  obtain ⟨unspent, left, others⟩ := spendOutput_entry wellFormed spends
  rcases damaged with noticed | ⟨txid, present, wrong⟩
  · exact .inl (by simp [restoreInput, noticed])
  · by_cases target : txid = out.hash
    · subst target
      have noHeight := (spendOutput_undo wellFormed spends).2 present
      rcases wrong with missing | ⟨marked, unmarked⟩
      · exact .inl (restoreInput_fClean_of_missing noHeight missing)
      · refine .inr ⟨out.hash, unspent, .inr ⟨?_, ?_⟩⟩
        · rw [left] at marked
          exact marked
        · rw [restoreInput_fCoinStake, unmarked, Bool.and_false]
    · rw [others txid target] at present wrong
      exact .inr ⟨txid, present, by rwa [restoreInput_view_of_ne target]⟩

theorem undoes_spendOutput :
    Undoes Intact Damaged before after (before.spendUndoable out = true)
      (fun state => some (restoreInput out undo state)) where
  restores undoable _ intact := ⟨_, rfl, restoreInput_intact wellFormed spends undoable intact⟩
  damages fails _ intact := ⟨_, rfl, restoreInput_damages wellFormed spends fails intact⟩
  keeps _ damaged := ⟨_, rfl, restoreInput_keeps wellFormed spends damaged⟩

end

end

end RestoreInput

section RemoveOutputs

variable {before : CoinsMap} {tx : CTransaction} {nHeight : Int32} {state : DisconnectState}

theorem removeOutputs_view_of_ne {txid : UInt256} (ne : txid ≠ tx.hash) :
    (removeOutputs tx nHeight state).view txid = state.view txid := by
  simp only [removeOutputs]
  exact modifyCoins_of_ne _ ne _

theorem removeOutputs_view_self :
    ((removeOutputs tx nHeight state).view tx.hash).isPruned = true := by
  simp only [removeOutputs, modifyCoins_self]
  rfl

theorem removeOutputs_fClean (version : 0 ≤ tx.nVersion) :
    (removeOutputs tx nHeight state).fClean = (state.fClean &&
      (state.view tx.hash).clearUnspendable.same (fromTx tx nHeight)) := by
  have same : (fromTx tx nHeight).nVersion = tx.nVersion := rfl
  simp [removeOutputs, same, Int32.not_lt.mpr version]

theorem undoes_addOutputs (version : 0 ≤ tx.nVersion) :
    Undoes Intact Damaged before (before.addOutputs tx nHeight)
      ((before tx.hash).isPruned = true) (fun state => some (removeOutputs tx nHeight state)) := by
  have added : before.addOutputs tx nHeight tx.hash = fromTx tx nHeight := by
    rw [CoinsMap.addOutputs, modifyCoins_self, CCoins.cleanup_fromTx]
  have others : ∀ txid, txid ≠ tx.hash → before.addOutputs tx nHeight txid = before txid :=
    fun txid ne => modifyCoins_of_ne _ ne _
  refine ⟨?_, ?_, ?_⟩
  · rintro pruned state ⟨clean, same⟩
    refine ⟨_, rfl, ?_, fun txid => ?_⟩
    · have agree := same tx.hash
      rw [added] at agree
      rw [removeOutputs_fClean version, clean, Bool.true_and, same_iff]
      rcases same_iff.mp agree with ⟨actual, expected⟩ | equal
      · exact .inl ⟨CCoins.isPruned_clearUnspendable actual, expected⟩
      · exact .inr (by rw [equal, CCoins.clearUnspendable_fromTx])
    · by_cases target : txid = tx.hash
      · subst target
        exact same_iff.mpr (.inl ⟨removeOutputs_view_self, pruned⟩)
      · rw [removeOutputs_view_of_ne target, ← others txid target]
        exact same txid
  · intro overwrites state _
    exact ⟨_, rfl, .inr ⟨tx.hash, by simpa using overwrites, .inl removeOutputs_view_self⟩⟩
  · rintro state (noticed | ⟨txid, present, wrong⟩)
    · exact ⟨_, rfl, .inl (by rw [removeOutputs_fClean version, noticed, Bool.false_and])⟩
    · by_cases target : txid = tx.hash
      · subst target
        refine ⟨_, rfl, .inl ?_⟩
        rw [added] at present wrong
        rw [removeOutputs_fClean version, Bool.and_eq_false_iff]
        right
        by_contra agrees
        have equal := eq_of_same (Bool.eq_true_of_not_eq_false agrees) present
        rcases wrong with missing | ⟨marked, unmarked⟩
        · rw [← equal, CCoins.isPruned_clearUnspendable missing] at present
          cases present
        · rw [← equal] at marked
          exact absurd marked (by simp [CCoins.clearUnspendable, unmarked])
      · rw [others txid target] at present wrong
        exact ⟨_, rfl, .inr ⟨txid, present, by rwa [removeOutputs_view_of_ne target]⟩⟩

end RemoveOutputs

section Runs

variable {eraseZerocoins : CTransaction → Bool} {nHeight : Int32} {before after : CoinsMap}

theorem undoes_spendInputs {inputs : List CTxIn} {undos : List CTxInUndo}
    (wellFormed : before.WellFormed)
    (spends : before.spendInputs inputs = some (after, undos)) :
    Undoes Intact Damaged before after (before.inputsUndoable inputs = true)
      (fun state => some (restoreInputs inputs undos state)) := by
  induction inputs generalizing before undos with
  | nil =>
    cases spends
    exact (Undoes.nothing after).congr (by simp [CoinsMap.inputsUndoable]) fun _ => rfl
  | cons txin rest ih =>
    obtain ⟨spent, undo, later, first, remaining, rfl⟩ := CoinsMap.spendInputs_cons_eq_some spends
    refine ((undoes_spendOutput (wellFormed _) first).comp
      (ih (wellFormed.spendOutput first) remaining)).congr ?_ fun _ => rfl
    simp [CoinsMap.inputsUndoable, first]

variable {tx : CTransaction} {txundo : CTxUndo}

/-- One round of the loop undoes one call of `UpdateCoins`, exactly when its
spends can be undone and its outputs overwrite nothing. -/
theorem undoes_updateCoins (record : Option CTxUndo) (wellFormed : before.WellFormed)
    (version : 0 ≤ tx.nVersion) (erases : eraseZerocoins tx = true)
    (recorded : tx.spendsCoins = true → record = some txundo)
    (updates : before.updateCoins tx nHeight = some (after, txundo)) :
    Undoes Intact Damaged before after (before.blockUndoable nHeight [tx] = true)
      (undoTransaction eraseZerocoins nHeight tx record) := by
  obtain ⟨spent, spends, rfl⟩ := CoinsMap.updateCoins_eq_some updates
  have outputs : Undoes Intact Damaged spent (spent.addOutputs tx nHeight)
      ((spent tx.hash).isPruned = true) (fun state => some (removeOutputs tx nHeight state)) :=
    undoes_addOutputs version
  have condition : before.blockUndoable nHeight [tx] = true ↔
      ((!tx.spendsCoins || before.inputsUndoable tx.vin) = true ∧
        (spent tx.hash).isPruned = true) := by
    simp [CoinsMap.blockUndoable, spends]
  by_cases regular : tx.spendsCoins = true
  · have inputs : before.spendInputs tx.vin = some (spent, txundo.vprevout) := by
      simpa only [CoinsMap.markSpent, regular, ↓reduceIte] using spends
    refine ((undoes_spendInputs wellFormed inputs).comp outputs).congr ?_ fun state => ?_
    · rw [condition, regular, Bool.not_true, Bool.false_or]
    · simp [undoTransaction, erases, regular, recorded regular, CoinsMap.spendInputs_length inputs]
  · have unchanged : before = spent := by
      simp only [CoinsMap.markSpent, regular, Bool.false_eq_true, ↓reduceIte, Option.some.injEq,
        Prod.mk.injEq] at spends
      exact spends.1
    subst unchanged
    refine outputs.congr ?_ fun state => ?_
    · simp [condition, regular]
    · simp [undoTransaction, erases, regular]

theorem blockUndoable_cons {rest : List CTransaction}
    (updates : before.updateCoins tx nHeight = some (after, txundo)) :
    before.blockUndoable nHeight (tx :: rest) = true ↔
      before.blockUndoable nHeight [tx] = true ∧ after.blockUndoable nHeight rest = true := by
  obtain ⟨spent, spends, rfl⟩ := CoinsMap.updateCoins_eq_some updates
  simp [CoinsMap.blockUndoable, spends, and_assoc]

theorem undoes_updateCoinsAll {txs : List CTransaction} {vtxundo : List CTxUndo}
    (wellFormed : before.WellFormed) (versions : ∀ tx ∈ txs, 0 ≤ tx.nVersion)
    (values : ∀ tx ∈ txs, ∀ out ∈ tx.vout, 0 ≤ out.nValue)
    (erases : ∀ tx ∈ txs, eraseZerocoins tx = true)
    (updates : before.updateCoinsAll nHeight txs = some (after, vtxundo)) :
    Undoes Intact Damaged before after (before.blockUndoable nHeight txs = true)
      (undoTransactions eraseZerocoins nHeight txs vtxundo) := by
  induction txs generalizing before vtxundo with
  | nil =>
    cases updates
    exact (Undoes.nothing after).congr (by simp [CoinsMap.blockUndoable]) fun _ => rfl
  | cons tx rest ih =>
    obtain ⟨updated, txundo, later, first, remaining, rfl⟩ :=
      CoinsMap.updateCoinsAll_cons_eq_some updates
    have one := undoes_updateCoins (some txundo) wellFormed (versions tx mem_cons_self)
      (erases tx mem_cons_self) (fun _ => rfl) first
    have others := ih (wellFormed.updateCoins (values tx mem_cons_self) first)
      (fun tx mem => versions tx (mem_cons_of_mem _ mem))
      (fun tx mem => values tx (mem_cons_of_mem _ mem))
      (fun tx mem => erases tx (mem_cons_of_mem _ mem)) remaining
    exact (one.comp others).congr (blockUndoable_cons first) fun _ => rfl

end Runs

/-- The block can be applied to the view at this height: what `CheckBlock` and
`ConnectBlock` have checked when `UpdateCoins` runs. -/
structure Connectable (view : CoinsMap) (block : CBlock) (nHeight : Int32) : Prop where
  height : 0 < nHeight
  coinbase : block.vtx.head?.any CTransaction.isCoinBase = true
  versions : ∀ tx ∈ block.vtx, 0 ≤ tx.nVersion
  values : ∀ tx ∈ block.vtx, ∀ out ∈ tx.vout, 0 ≤ out.nValue
  bip30 : view.passesBIP30 block = true
  inputs : view.blockInputsAvailable nHeight block.vtx = true

/-- The block is applied to the view and taken back out with its undo records,
nothing is found wrong and the view is the one before. -/
def RoundTrip (eraseZerocoins : CTransaction → Bool) (view : CoinsMap) (block : CBlock)
    (nHeight : Int32) : Prop :=
  ∃ connected vtxundo state, view.updateCoinsBlock block nHeight = some (connected, vtxundo) ∧
    disconnectBlock eraseZerocoins nHeight block vtxundo connected = some state ∧
    state.fClean = true ∧ state.view.Same view

theorem exists_disconnectBlock {eraseZerocoins : CTransaction → Bool} {view : CoinsMap}
    {block : CBlock} {nHeight : Int32} (wellFormed : view.WellFormed)
    (connectable : Connectable view block nHeight)
    (erases : ∀ tx ∈ block.vtx, eraseZerocoins tx = true) :
    ∃ connected vtxundo, view.updateCoinsBlock block nHeight = some (connected, vtxundo) ∧
      connected.WellFormed ∧ ∀ after : CoinsMap, after.Same connected →
        ∃ state, disconnectBlock eraseZerocoins nHeight block vtxundo after = some state ∧
          (Intact view state ↔ view.blockUndoable nHeight block.vtx = true) := by
  obtain ⟨-, coinbase, versions, values, -, available⟩ := connectable
  obtain ⟨connected, vtxundo, updates⟩ := CoinsMap.updateCoinsAll_isSome_of_available available
  have formed := wellFormed.updateCoinsAll values updates
  cases transactions : block.vtx with
  | nil =>
    rw [transactions] at coinbase
    cases coinbase
  | cons first rest =>
    simp only [transactions] at coinbase versions values erases updates
    obtain ⟨updated, txundo, later, one, remaining, -⟩ :=
      CoinsMap.updateCoinsAll_cons_eq_some updates
    have noInputs : first.spendsCoins = false := by
      rw [CTransaction.spendsCoins, show first.isCoinBase = true from coinbase]
      rfl
    have firstUndo := undoes_updateCoins none wellFormed (versions first mem_cons_self)
      (erases first mem_cons_self)
      (fun regular => by rw [noInputs] at regular; cases regular) one
    have restUndo := undoes_updateCoinsAll
      (wellFormed.updateCoins (values first mem_cons_self) one)
      (fun tx mem => versions tx (mem_cons_of_mem _ mem))
      (fun tx mem => values tx (mem_cons_of_mem _ mem))
      (fun tx mem => erases tx (mem_cons_of_mem _ mem)) remaining
    refine ⟨connected, later, ?_, formed, fun after same => ?_⟩
    · simp only [CoinsMap.updateCoinsBlock, transactions, one, remaining]
    · obtain ⟨result, returned, exactly⟩ := (firstUndo.comp restUndo).exact
        (fun _ damaged => damaged.not_intact) ⟨after, true⟩ ⟨rfl, same⟩
      refine ⟨result, ?_, by rw [blockUndoable_cons one, ← exactly]⟩
      simp only [disconnectBlock, transactions, List.length_cons,
        CoinsMap.updateCoinsAll_length remaining, bne_self_eq_false, Bool.false_eq_true, ↓reduceIte]
      exact returned

private theorem roundTrip_iff {eraseZerocoins : CTransaction → Bool} {view : CoinsMap}
    {block : CBlock} {nHeight : Int32} (wellFormed : view.WellFormed)
    (connectable : Connectable view block nHeight)
    (erases : ∀ tx ∈ block.vtx, eraseZerocoins tx = true) :
    RoundTrip eraseZerocoins view block nHeight ↔ view.blockUndoable nHeight block.vtx = true := by
  obtain ⟨connected, vtxundo, connects, -, disconnects⟩ :=
    exists_disconnectBlock wellFormed connectable erases
  obtain ⟨result, returned, exactly⟩ := disconnects connected fun _ => same_refl _
  rw [← exactly]
  constructor
  · rintro ⟨other, records, state, sameConnect, sameDisconnect, clean, same⟩
    rw [connects] at sameConnect
    cases sameConnect
    rw [returned] at sameDisconnect
    cases sameDisconnect
    exact ⟨clean, same⟩
  · rintro ⟨clean, same⟩
    exact ⟨connected, vtxundo, result, connects, returned, clean, same⟩

/-- **Disconnecting a block undoes connecting it** exactly when, in the view
before each of its transactions, no input takes the last output of an entry that
is marked as a coinstake or has height zero, and the transaction overwrites no
unspent outputs. -/
theorem disconnectBlock_updateCoinsBlock_iff (eraseZerocoins : CTransaction → Bool)
    (view : CoinsView) (block : CBlock) (nHeight : Int32)
    (connectable : Connectable view.coins block nHeight)
    (erases : ∀ tx ∈ block.vtx, eraseZerocoins tx = true) :
    RoundTrip eraseZerocoins view.coins block nHeight ↔
      view.coins.blockUndoable nHeight block.vtx = true :=
  roundTrip_iff view.wellFormed connectable erases

/-- A coinstake with its empty marker output and one output that pays. -/
def sampleCoinStake : CTransaction where
  hash := 7
  nVersion := 1
  vin := [⟨⟨3, 0⟩, [], 0xffffffff⟩]
  vout := [.of 0 [], .of (10 * COIN) [0x51]]
  nLockTime := 0

def sampleView : CoinsView :=
  .set .empty sampleCoinStake.hash (.fromTx sampleCoinStake 210)
    (CCoins.fromTx_wellFormed (by decide) 210)

/-- A block whose second transaction spends some outputs of the coinstake. -/
def sampleBlock (positions : List UInt32) : CBlock where
  hash := 20
  hashPrevBlock := 19
  hashMerkleRoot := 0
  nTime := 0
  nBits := 0
  vtx :=
    [{ hash := 8, nVersion := 1, vin := [⟨.null, [], 0⟩], vout := [.of 0 []], nLockTime := 0 },
      { hash := 9
        nVersion := 1
        vin := positions.map fun n => ⟨⟨sampleCoinStake.hash, n⟩, [0x51], 0⟩
        vout := [.of (9 * COIN) [0x51]]
        nLockTime := 0 }]

theorem sampleBlock_connectable (positions : List UInt32)
    (spends : positions = [1] ∨ positions = [0, 1]) :
    Connectable sampleView.coins (sampleBlock positions) 300 := by
  rcases spends with rfl | rfl
  · exact ⟨by decide, by decide, by decide, by decide, by decide, by decide⟩
  · exact ⟨by decide, by decide, by decide, by decide, by decide, by decide⟩

theorem roundTrip_sampleBlock_partial :
    RoundTrip (fun _ => true) sampleView.coins (sampleBlock [1]) 300 :=
  (disconnectBlock_updateCoinsBlock_iff (fun _ => true) sampleView (sampleBlock [1]) 300
    (sampleBlock_connectable [1] (.inl rfl)) fun _ _ => rfl).mpr (by decide)

/-- Spending both outputs of a coinstake in one transaction and disconnecting the
block does not restore the view. -/
theorem not_roundTrip_sampleBlock :
    Connectable sampleView.coins (sampleBlock [0, 1]) 300 ∧
      ¬RoundTrip (fun _ => true) sampleView.coins (sampleBlock [0, 1]) 300 := by
  have connectable := sampleBlock_connectable [0, 1] (.inr rfl)
  refine ⟨connectable, fun roundTrip => ?_⟩
  have undoable := (roundTrip_iff sampleView.wellFormed connectable fun _ _ => rfl).mp roundTrip
  exact absurd undoable (by decide)

/-! ## Branches -/

/-- The blocks are connected one after another. -/
def connectBlocks (view : CoinsMap) : List (CBlock × Int32) →
    Option (CoinsMap × List (List CTxUndo))
  | [] => some (view, [])
  | (block, nHeight) :: rest => do
    let (connected, vtxundo) ← view.updateCoinsBlock block nHeight
    let (final, later) ← connectBlocks connected rest
    some (final, vtxundo :: later)

/-- The blocks are disconnected, the last one first, by calls of `DisconnectTip`. It fails where
something is found wrong. -/
def disconnectBlocks (eraseZerocoins : CTransaction → Bool) :
    List (CBlock × Int32) → List (List CTxUndo) → CoinsMap → Option CoinsMap
  | (block, nHeight) :: rest, vtxundo :: later, view => do
    let state ← disconnectBlock eraseZerocoins nHeight block vtxundo
      (← disconnectBlocks eraseZerocoins rest later view)
    if state.fClean then some state.view else none
  | _, _, view => some view

/-- Every block can be connected and undone, in the view that the ones before it leave. -/
def ChainUndoable (eraseZerocoins : CTransaction → Bool) (view : CoinsMap) :
    List (CBlock × Int32) → Prop
  | [] => True
  | (block, nHeight) :: rest =>
    Connectable view block nHeight ∧ (∀ tx ∈ block.vtx, eraseZerocoins tx = true) ∧
      view.blockUndoable nHeight block.vtx = true ∧
      ∀ connected vtxundo, view.updateCoinsBlock block nHeight = some (connected, vtxundo) →
        ChainUndoable eraseZerocoins connected rest

/-- **A branch of any length is undone**: its blocks can be connected, and whatever view is the
same as theirs is taken back to the view before the branch. -/
theorem disconnectBlocks_connectBlocks (eraseZerocoins : CTransaction → Bool)
    (blocks : List (CBlock × Int32)) (view : CoinsView)
    (undoable : ChainUndoable eraseZerocoins view.coins blocks) :
    ∃ final undos, connectBlocks view.coins blocks = some (final, undos) ∧
      ∀ after : CoinsMap, after.Same final →
        ∃ restored, disconnectBlocks eraseZerocoins blocks undos after = some restored ∧
          restored.Same view.coins := by
  have wellFormed := view.wellFormed
  generalize view.coins = view at undoable wellFormed
  induction blocks generalizing view with
  | nil => exact ⟨view, [], rfl, fun after same => ⟨after, rfl, same⟩⟩
  | cons first rest ih =>
    obtain ⟨connectable, erases, good, remaining⟩ := undoable
    obtain ⟨connected, vtxundo, connects, formed, disconnects⟩ :=
      exists_disconnectBlock wellFormed connectable erases
    obtain ⟨final, undos, others, back⟩ := ih _ (remaining _ _ connects) formed
    refine ⟨final, vtxundo :: undos, ?_, fun after same => ?_⟩
    · simp [connectBlocks, connects, others]
    · obtain ⟨upper, undone, middle⟩ := back after same
      obtain ⟨state, returned, exactly⟩ := disconnects upper middle
      obtain ⟨clean, restored⟩ := exactly.mpr good
      refine ⟨state.view, ?_, restored⟩
      simp [disconnectBlocks, undone, returned, clean]

/-- The second block spends what the first one pays. -/
def sampleBranch : List (CBlock × Int32) :=
  [(sampleBlock [1], 300),
    ({ sampleBlock [] with
      hash := 21
      hashPrevBlock := 20
      vtx := [⟨10, 1, [⟨.null, [], 0⟩], [.of 0 []], 0⟩,
        ⟨11, 1, [⟨⟨9, 0⟩, [0x51], 0⟩], [.of (8 * COIN) [0x51]], 0⟩] }, 301)]

theorem disconnectBlocks_sampleBlock :
    ∃ final undos, connectBlocks sampleView.coins sampleBranch = some (final, undos) ∧
      ∃ restored, disconnectBlocks (fun _ => true) sampleBranch undos final = some restored ∧
        restored.Same sampleView.coins := by
  obtain ⟨final, undos, connects, back⟩ :=
    disconnectBlocks_connectBlocks (fun _ => true) sampleBranch sampleView
      ⟨sampleBlock_connectable [1] (.inl rfl), fun _ _ => rfl, by decide,
        fun connected vtxundo connects => by
          cases connects
          exact ⟨⟨by decide, by decide, by decide, by decide, by decide, by decide⟩, fun _ _ => rfl,
            by decide, fun _ _ _ => trivial⟩⟩
  exact ⟨final, undos, connects, back final fun _ => same_refl _⟩

end DisconnectState

end DogeCash
