import DogeCash.Mempool.NextTx

/-! # What removals take from the memory pool

Whatever state the pool is in, the functions that remove transactions add none, and those
they are asked to remove are gone.
-/

namespace DogeCash.CTxMemPool

/-- A removal leaves a part of the pool, whatever is queued. -/
theorem shrinks_removeQueued (fRecursive : Bool) (txToRemove : List UInt256)
    (removed : List CTransaction) (pool : CTxMemPool) :
    pool.Shrinks (removeQueued fRecursive txToRemove removed pool).2 := by
  fun_induction removeQueued fRecursive txToRemove removed pool with
  | case1 removed pool => exact .refl pool
  | case2 removed pool hash rest absent ih => exact ih
  | case3 removed pool hash rest entry present found ih =>
    exact (shrinks_removeEntry pool hash entry).trans ih

theorem shrinks_remove (origTx : CTransaction) (removed : List CTransaction) (fRecursive : Bool)
    (pool : CTxMemPool) : pool.Shrinks (pool.remove origTx removed fRecursive).2 :=
  shrinks_removeQueued ..

variable {pool after : CTxMemPool}

theorem Shrinks.lookup_eq_none (shrinks : pool.Shrinks after) {hash : UInt256}
    (absent : pool.mapTx.lookup hash = none) :
    after.mapTx.lookup hash = none := by
  cases held : after.mapTx.lookup hash with
  | none => rfl
  | some entry =>
    rw [shrinks.mapTx hash entry held] at absent
    cases absent

/-- After `remove` the transaction is not in the pool. -/
theorem lookup_remove (origTx : CTransaction) (removed : List CTransaction) (fRecursive : Bool)
    (pool : CTxMemPool) :
    (pool.remove origTx removed fRecursive).2.mapTx.lookup origTx.hash = none := by
  cases present : pool.mapTx.lookup origTx.hash with
  | none => exact (shrinks_remove origTx removed fRecursive pool).lookup_eq_none present
  | some entry =>
    unfold remove
    rw [removeQueued_of_some present]
    apply (shrinks_removeQueued ..).lookup_eq_none
    exact AList.lookup_erase _ _

theorem shrinks_removeConflicts (tx : CTransaction) (removed : List CTransaction)
    (pool : CTxMemPool) : pool.Shrinks (pool.removeConflicts tx removed).2 := by
  have loop : ∀ (inputs : List CTxIn) (state : List CTransaction × CTxMemPool),
      state.2.Shrinks (inputs.foldl (removeConflict tx) state).2 := by
    intro inputs
    induction inputs with
    | nil => exact fun state => .refl state.2
    | cons txin rest ih =>
      intro state
      refine Shrinks.trans ?_ (ih (removeConflict tx state txin))
      unfold removeConflict
      split
      · exact .refl state.2
      · split_ifs
        · exact shrinks_remove ..
        · exact .refl state.2
  exact loop tx.vin (removed, pool)

/-- `removeForBlock` removes all transactions of the block and adds none. -/
theorem removeForBlock_removes (vtx conflicts : List CTransaction) (pool : CTxMemPool) :
    pool.Shrinks (pool.removeForBlock vtx conflicts).2 ∧
      ∀ tx ∈ vtx, (pool.removeForBlock vtx conflicts).2.mapTx.lookup tx.hash = none := by
  have loop : ∀ (vtx : List CTransaction) (state : List CTransaction × CTxMemPool),
      state.2.Shrinks (vtx.foldl removeBlockTx state).2 ∧
        ∀ tx ∈ vtx, (vtx.foldl removeBlockTx state).2.mapTx.lookup tx.hash = none := by
    intro vtx
    induction vtx with
    | nil => exact fun state => ⟨.refl state.2, nofun⟩
    | cons first rest ih =>
      intro state
      obtain ⟨later, gone⟩ := ih (removeBlockTx state first)
      have conflicts := shrinks_removeConflicts first state.1 (state.2.remove first [] false).2
      refine ⟨((shrinks_remove first [] false state.2).trans conflicts).trans later, ?_⟩
      intro tx mem
      rcases List.mem_cons.mp mem with rfl | mem
      · exact (conflicts.trans later).lookup_eq_none (lookup_remove tx [] false state.2)
      · exact gone tx mem
  exact loop vtx (conflicts, pool)

theorem shrinks_removeCoinbaseSpends (params : ChainParams)
    (accessCoins : UInt256 → Option CCoins) (nMemPoolHeight : UInt32) (pool : CTxMemPool) :
    pool.Shrinks (pool.removeCoinbaseSpends params accessCoins nMemPoolHeight) := by
  have loop : ∀ (txs : List CTransaction) (pool : CTxMemPool),
      pool.Shrinks (txs.foldl (fun pool tx => (pool.remove tx [] true).2) pool) := by
    intro txs
    induction txs with
    | nil => exact fun pool => .refl pool
    | cons tx rest ih => exact fun pool => (shrinks_remove tx [] true pool).trans (ih _)
  exact loop _ pool

theorem shrinks_clear (pool : CTxMemPool) : pool.Shrinks pool.clear where
  mapTx _ _ held := by cases held
  mapNextTx _ _ := rfl

theorem removeForBlock_empty (vtx conflicts : List CTransaction) :
    (empty.removeForBlock vtx conflicts).2 = empty := by
  have removes : ∀ tx, (empty.remove tx [] false).2 = empty := by
    intro tx
    have queued : removeQueued false [tx.hash] [] empty = ([], empty) := by
      rw [removeQueued]
      split
      · rw [removeQueued]
      · next present =>
          cases present
    exact congrArg Prod.snd queued
  have conflictsNothing : ∀ (tx : CTransaction) (inputs : List CTxIn)
      (removed : List CTransaction), inputs.foldl (removeConflict tx) (removed, empty) =
        (removed, empty) := by
    intro tx inputs removed
    induction inputs with
    | nil => rfl
    | cons txin rest ih => exact ih
  unfold removeForBlock
  induction vtx generalizing conflicts with
  | nil => rfl
  | cons tx rest ih =>
    rw [List.foldl_cons, removeBlockTx, removes, removeConflicts, conflictsNothing]
    exact ih conflicts

/-- Every operation except `addUnchecked` leaves a part of the pool. -/
theorem shrinks_step {params : ChainParams} {action : Action}
    (removes : ∀ entry, action ≠ .addUnchecked entry)
    (stepped : step params action pool = some after) : pool.Shrinks after := by
  cases action with
  | addUnchecked entry => exact absurd rfl (removes entry)
  | remove tx fRecursive =>
    cases stepped
    exact shrinks_remove ..
  | removeConflicts tx =>
    cases stepped
    exact shrinks_removeConflicts ..
  | removeForBlock vtx =>
    cases stepped
    exact (removeForBlock_removes ..).1
  | removeCoinbaseSpends accessCoins nMemPoolHeight =>
    cases stepped
    exact shrinks_removeCoinbaseSpends ..
  | clear =>
    cases stepped
    exact shrinks_clear _

end DogeCash.CTxMemPool
