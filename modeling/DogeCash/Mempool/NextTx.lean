import DogeCash.Mempool.TxMemPool

/-! # The index of the memory pool

`mapNextTx` should hold the inputs of the transactions of the pool that are no zerocoin
spends, and nothing else. To remove a zerocoin spend erases the prevouts of its inputs, and
these may be those of another transaction of the pool. The index is right as long as that
does not happen (`consistent_of_poolRun`).
-/

namespace DogeCash.CTxMemPool

open List (map_cons mem_cons mem_cons_of_mem mem_cons_self mem_map)
open CTxMemPoolEntry (nTxSize)
open Function (update_of_ne update_self)

/-- The pool has the transaction. -/
def Holds (pool : CTxMemPool) (tx : CTransaction) : Prop :=
  (pool.mapTx.lookup tx.hash).map CTxMemPoolEntry.tx = some tx

/-- `mapNextTx` maps exactly the prevouts of the transactions of the pool that are no
zerocoin spends to their inputs, and `totalTxSize` is the sum of the sizes. -/
structure Consistent (pool : CTxMemPool) : Prop where
  next : ∀ out ptx n, pool.mapNextTx out = some ⟨ptx, n⟩ ↔
    pool.Holds ptx ∧ ptx.isZerocoinSpend = false ∧ ptx.vin[n]?.map CTxIn.prevout = some out
  size : pool.totalTxSize = KeyedMap.total nTxSize pool.mapTx

/-- To remove an id erases nothing that another transaction entered: what is kept under it
is no zerocoin spend, or claims nothing that is in `mapNextTx`. -/
def Harmless (pool : CTxMemPool) (hash : UInt256) : Prop :=
  ∀ entry, pool.mapTx.lookup hash = some entry → entry.tx.isZerocoinSpend = true →
    ∀ txin ∈ entry.tx.vin, pool.mapNextTx txin.prevout = none

/-- The condition on an operation: a transaction that is added claims no output twice,
unless it is a zerocoin spend, and what is removed first is harmless. -/
def Sound (params : ChainParams) (pool : CTxMemPool) : Action → Prop
  | .addUnchecked entry => entry.tx.isZerocoinSpend = false → (entry.tx.vin.map CTxIn.prevout).Nodup
  | .remove tx _ => pool.Harmless tx.hash
  | .removeConflicts _ => True
  | .removeForBlock vtx => ∀ tx ∈ vtx, pool.Harmless tx.hash
  | .removeCoinbaseSpends accessCoins nMemPoolHeight =>
    ∀ tx, pool.Holds tx → pool.spendsImmature params accessCoins nMemPoolHeight tx = true →
      pool.Harmless tx.hash
  | .clear => True

/-! ## Entering and erasing inputs -/

theorem eraseInputs_apply (vin : List CTxIn) (next : COutPoint → Option CInPoint)
    (out : COutPoint) :
    eraseInputs vin next out = if out ∈ vin.map CTxIn.prevout then none else next out := by
  unfold eraseInputs
  induction vin generalizing next with
  | nil => rfl
  | cons txin rest ih =>
    rw [List.foldl_cons, ih, map_cons]
    by_cases later : out ∈ rest.map CTxIn.prevout
    · rw [if_pos later, if_pos (mem_cons_of_mem _ later)]
    · rw [if_neg later]
      by_cases same : out = txin.prevout
      · subst same
        rw [update_self, if_pos mem_cons_self]
      · rw [update_of_ne same, if_neg]
        intro mem
        rcases mem_cons.mp mem with here | there
        · exact same here
        · exact later there

private theorem foldl_enter_apply (tx : CTransaction) (vin : List CTxIn) (start : Nat)
    (nodup : (vin.map CTxIn.prevout).Nodup) (next : COutPoint → Option CInPoint)
    (out : COutPoint) (inPoint : CInPoint) :
    (vin.zipIdx start).foldl (enterInput tx) next out = some inPoint ↔
    (∃ i : Nat, vin[i]?.map CTxIn.prevout = some out ∧ inPoint = ⟨tx, start + i⟩) ∨
      (out ∉ vin.map CTxIn.prevout ∧ next out = some inPoint) := by
  induction vin generalizing start next with
  | nil => simp
  | cons txin rest ih =>
    rw [map_cons, List.nodup_cons] at nodup
    rw [List.zipIdx_cons, List.foldl_cons, ih (start + 1) nodup.2]
    constructor
    · rintro (⟨i, found, rfl⟩ | ⟨absent, held⟩)
      · refine .inl ⟨i + 1, found, ?_⟩
        rw [Nat.add_right_comm, Nat.add_assoc]
      · by_cases same : out = txin.prevout
        · subst same
          rw [enterInput, update_self] at held
          cases held
          exact .inl ⟨0, rfl, rfl⟩
        · rw [enterInput, update_of_ne same] at held
          refine .inr ⟨?_, held⟩
          rw [map_cons, mem_cons]
          exact not_or.mpr ⟨same, absent⟩
    · rintro (⟨i, found, rfl⟩ | ⟨absent, held⟩)
      · cases i with
        | zero =>
          have here : txin.prevout = out := Option.some.inj found
          subst here
          exact .inr ⟨nodup.1, by rw [enterInput, update_self, Nat.add_zero]⟩
        | succ i =>
          refine .inl ⟨i, found, ?_⟩
          rw [Nat.add_right_comm, Nat.add_assoc]
      · rw [map_cons, mem_cons, not_or] at absent
        refine .inr ⟨absent.2, ?_⟩
        rw [enterInput, update_of_ne absent.1, held]

variable {tx : CTransaction} {hash : UInt256} {entry : CTxMemPoolEntry}

theorem enterInputs_eq_some (nodup : (tx.vin.map CTxIn.prevout).Nodup)
    (next : COutPoint → Option CInPoint) (out : COutPoint) (ptx : CTransaction) (n : Nat) :
    enterInputs tx next out = some ⟨ptx, n⟩ ↔
      (ptx = tx ∧ tx.vin[n]?.map CTxIn.prevout = some out) ∨
        (out ∉ tx.vin.map CTxIn.prevout ∧ next out = some ⟨ptx, n⟩) := by
  unfold enterInputs
  rw [foldl_enter_apply tx tx.vin 0 nodup]
  apply or_congr_left
  constructor
  · rintro ⟨i, found, same⟩
    cases same
    rw [Nat.zero_add]
    exact ⟨rfl, found⟩
  · rintro ⟨rfl, found⟩
    exact ⟨n, found, by rw [Nat.zero_add]⟩

variable {out : COutPoint} {last : CTxMemPool}

theorem mem_prevouts {vin : List CTxIn} :
    out ∈ vin.map CTxIn.prevout ↔ ∃ n : Nat, vin[n]?.map CTxIn.prevout = some out := by
  simp only [List.mem_iff_getElem?, List.getElem?_map]

/-! ## What one transaction changes -/

variable {params : ChainParams} {pool after : CTxMemPool}

theorem Holds.exists_entry (holds : pool.Holds tx) :
    ∃ entry, pool.mapTx.lookup tx.hash = some entry ∧ entry.tx = tx :=
  Option.map_eq_some_iff.mp holds

theorem holds_of_lookup (present : pool.mapTx.lookup hash = some entry) : pool.Holds entry.tx := by
  unfold Holds
  rw [pool.keyed hash entry present, present]
  rfl

theorem empty_consistent : empty.Consistent where
  next out ptx n := by
    constructor
    · intro held
      cases held
    · rintro ⟨holds, -⟩
      cases holds
  size := rfl

theorem holds_addUnchecked (new : pool.mapTx.lookup entry.tx.hash = none) :
    (pool.addUnchecked entry).Holds tx ↔ tx = entry.tx ∨ pool.Holds tx := by
  unfold Holds addUnchecked
  by_cases same : tx.hash = entry.tx.hash
  · rw [same, AList.lookup_insert, new]
    simp only [Option.map_some, Option.some.injEq, Option.map_none, reduceCtorEq, or_false]
    exact eq_comm
  · rw [AList.lookup_insert_ne same]
    constructor
    · exact .inr
    · rintro (rfl | holds)
      · exact absurd rfl same
      · exact holds

theorem Consistent.addUnchecked (consistent : pool.Consistent)
    (acceptable : pool.acceptable entry.tx = true)
    (distinct : entry.tx.isZerocoinSpend = false → (entry.tx.vin.map CTxIn.prevout).Nodup) :
    (pool.addUnchecked entry).Consistent := by
  simp only [CTxMemPool.acceptable, Bool.and_eq_true, Option.isNone_iff_eq_none, Bool.or_eq_true,
    List.all_eq_true] at acceptable
  obtain ⟨new, unspent⟩ := acceptable
  constructor
  · intro out ptx n
    rw [holds_addUnchecked new]
    cases spend : entry.tx.isZerocoinSpend with
    | true =>
      simp only [CTxMemPool.addUnchecked, spend, ↓reduceIte]
      rw [consistent.next]
      constructor
      · rintro ⟨holds, normal, found⟩
        exact ⟨.inr holds, normal, found⟩
      · rintro ⟨rfl | holds, normal, found⟩
        · rw [spend] at normal
          cases normal
        · exact ⟨holds, normal, found⟩
    | false =>
      have free : ∀ txin ∈ entry.tx.vin, pool.mapNextTx txin.prevout = none := by
        rcases unspent with isSpend | unspent
        · rw [spend] at isSpend
          cases isSpend
        · exact unspent
      simp only [CTxMemPool.addUnchecked, spend, Bool.false_eq_true, ↓reduceIte]
      rw [enterInputs_eq_some (distinct spend), consistent.next]
      constructor
      · rintro (⟨rfl, found⟩ | ⟨-, holds, normal, found⟩)
        · exact ⟨.inl rfl, spend, found⟩
        · exact ⟨.inr holds, normal, found⟩
      · rintro ⟨rfl | holds, normal, found⟩
        · exact .inl ⟨rfl, found⟩
        · refine .inr ⟨?_, holds, normal, found⟩
          intro claimed
          obtain ⟨txin, mem, rfl⟩ := mem_map.mp claimed
          have held := (consistent.next _ ptx n).mpr ⟨holds, normal, found⟩
          rw [free txin mem] at held
          cases held
  · have total := KeyedMap.total_insert nTxSize entry new
    simp only [CTxMemPool.addUnchecked, total, consistent.size]
    exact BitVec.add_comm _ _

theorem holds_removeEntry :
    (pool.removeEntry hash entry).Holds tx ↔ tx.hash ≠ hash ∧ pool.Holds tx := by
  unfold Holds removeEntry
  by_cases same : tx.hash = hash
  · rw [same, AList.lookup_erase]
    simp
  · simp [same]

theorem Consistent.removeEntry (consistent : pool.Consistent)
    (present : pool.mapTx.lookup hash = some entry) (harmless : pool.Harmless hash) :
    (pool.removeEntry hash entry).Consistent := by
  have key : entry.tx.hash = hash := pool.keyed hash entry present
  constructor
  · intro out ptx n
    rw [holds_removeEntry]
    simp only [CTxMemPool.removeEntry, eraseInputs_apply]
    constructor
    · intro held
      split_ifs at held with claimed
      obtain ⟨holds, normal, found⟩ := (consistent.next out ptx n).mp held
      refine ⟨⟨?_, holds⟩, normal, found⟩
      intro same
      apply claimed
      obtain ⟨other, there, rfl⟩ := holds.exists_entry
      rw [same, present] at there
      cases there
      exact mem_prevouts.mpr ⟨n, found⟩
    · rintro ⟨⟨ne, holds⟩, normal, found⟩
      have held := (consistent.next out ptx n).mpr ⟨holds, normal, found⟩
      rw [if_neg]
      · exact held
      intro claimed
      cases spend : entry.tx.isZerocoinSpend with
      | true =>
        obtain ⟨txin, mem, rfl⟩ := mem_map.mp claimed
        rw [harmless entry present spend txin mem] at held
        cases held
      | false =>
        -- The output is entered for the removed transaction, so that is the spender.
        obtain ⟨m, here⟩ := mem_prevouts.mp claimed
        rw [(consistent.next out entry.tx m).mpr ⟨holds_of_lookup present, spend, here⟩] at held
        cases held
        exact ne key
  · have total := KeyedMap.total_erase nTxSize present
    simp only [CTxMemPool.removeEntry, consistent.size, total]
    rw [BitVec.add_comm, BitVec.add_sub_cancel]

/-! ## What removals leave -/

/-- A pool that has lost entries of both maps. -/
structure Shrinks (pool after : CTxMemPool) : Prop where
  mapTx : ∀ hash entry, after.mapTx.lookup hash = some entry → pool.mapTx.lookup hash = some entry
  mapNextTx : ∀ out, pool.mapNextTx out = none → after.mapNextTx out = none

theorem Shrinks.refl (pool : CTxMemPool) : pool.Shrinks pool := ⟨fun _ _ => id, fun _ => id⟩

theorem Shrinks.trans (first : pool.Shrinks after) (second : after.Shrinks last) :
    pool.Shrinks last where
  mapTx hash entry held := first.mapTx hash entry (second.mapTx hash entry held)
  mapNextTx out absent := second.mapNextTx out (first.mapNextTx out absent)

theorem Shrinks.holds (shrinks : pool.Shrinks after) (holds : after.Holds tx) : pool.Holds tx := by
  obtain ⟨entry, present, same⟩ := holds.exists_entry
  unfold Holds
  rw [shrinks.mapTx tx.hash entry present, Option.map_some, same]

theorem Harmless.shrinks (harmless : pool.Harmless hash) (shrinks : pool.Shrinks after) :
    after.Harmless hash := by
  intro entry held spend txin mem
  apply shrinks.mapNextTx
  exact harmless entry (shrinks.mapTx hash entry held) spend txin mem

theorem shrinks_removeEntry (pool : CTxMemPool) (hash : UInt256) (entry : CTxMemPoolEntry) :
    pool.Shrinks (pool.removeEntry hash entry) where
  mapTx := KeyedMap.forall_erase fun _ _ => id
  mapNextTx out absent := by
    simp only [removeEntry, eraseInputs_apply, absent, ite_self]

theorem Consistent.harmless_of_next {inPoint : CInPoint} (consistent : pool.Consistent)
    (held : pool.mapNextTx out = some inPoint) :
    pool.Harmless inPoint.ptx.hash := by
  obtain ⟨holds, normal, -⟩ := (consistent.next out inPoint.ptx inPoint.n).mp held
  obtain ⟨entry, present, same⟩ := holds.exists_entry
  intro other there spend
  rw [present] at there
  cases there
  rw [same, normal] at spend
  cases spend

theorem Consistent.harmless_children {child hash : UInt256} {outputs : Nat}
    (consistent : pool.Consistent) (mem : child ∈ pool.children hash outputs) :
    pool.Harmless child := by
  obtain ⟨i, -, found⟩ := List.mem_filterMap.mp mem
  obtain ⟨inPoint, held, rfl⟩ := Option.map_eq_some_iff.mp found
  exact consistent.harmless_of_next held

/-- Removals that keep the index right and only lose entries. -/
structure Removes (pool after : CTxMemPool) : Prop where
  consistent : after.Consistent
  shrinks : pool.Shrinks after

theorem Removes.trans (first : pool.Removes after) (second : after.Removes last) :
    pool.Removes last :=
  ⟨second.consistent, first.shrinks.trans second.shrinks⟩

theorem removeQueued_of_some {fRecursive : Bool} {rest : List UInt256} {removed : List CTransaction}
    (present : pool.mapTx.lookup hash = some entry) :
    removeQueued fRecursive (hash :: rest) removed pool =
      removeQueued fRecursive
        (rest ++ if fRecursive then pool.children hash entry.tx.vout.length else [])
        (removed ++ [entry.tx]) (pool.removeEntry hash entry) := by
  rw [removeQueued]
  split
  · next absent =>
      rw [present] at absent
      cases absent
  · next other there =>
      rw [present] at there
      cases there
      rfl

theorem remove_of_present (present : pool.mapTx.lookup tx.hash = some entry) :
    pool.remove tx [] false = ([entry.tx], pool.removeEntry tx.hash entry) := by
  unfold remove
  rw [Bool.false_and, if_neg Bool.false_ne_true, removeQueued_of_some present,
    if_neg Bool.false_ne_true, List.append_nil, removeQueued]
  rfl

theorem removes_removeQueued (fRecursive : Bool) (txToRemove : List UInt256)
    (removed : List CTransaction) (pool : CTxMemPool) (consistent : pool.Consistent)
    (harmless : ∀ hash ∈ txToRemove, pool.Harmless hash) :
    pool.Removes (removeQueued fRecursive txToRemove removed pool).2 := by
  induction txToRemove, removed, pool using removeQueued.induct fRecursive with
  | case1 removed pool =>
    rw [removeQueued]
    exact ⟨consistent, Shrinks.refl pool⟩
  | case2 removed pool hash rest absent ih =>
    rw [removeQueued, absent]
    exact ih consistent fun other mem => harmless other (mem_cons_of_mem _ mem)
  | case3 removed pool hash rest entry present found ih =>
    have removal : pool.Removes (pool.removeEntry hash entry) :=
      ⟨consistent.removeEntry present (harmless hash mem_cons_self),
        shrinks_removeEntry pool hash entry⟩
    rw [removeQueued_of_some present]
    apply removal.trans
    apply ih removal.consistent
    intro other mem
    apply Harmless.shrinks _ removal.shrinks
    rcases List.mem_append.mp mem with queued | child
    · exact harmless other (mem_cons_of_mem _ queued)
    · simp only [found] at child
      split_ifs at child
      · exact consistent.harmless_children child
      · cases child

theorem removes_remove {origTx : CTransaction} (removed : List CTransaction) (fRecursive : Bool)
    (consistent : pool.Consistent) (harmless : pool.Harmless origTx.hash) :
    pool.Removes (pool.remove origTx removed fRecursive).2 := by
  apply removes_removeQueued _ _ _ _ consistent
  intro hash mem
  rcases mem_cons.mp mem with rfl | orphaned
  · exact harmless
  · split_ifs at orphaned
    · exact consistent.harmless_children orphaned
    · cases orphaned

theorem removes_removeConflicts (tx : CTransaction) (removed : List CTransaction)
    (consistent : pool.Consistent) : pool.Removes (pool.removeConflicts tx removed).2 := by
  have rounds : ∀ (vin : List CTxIn) (state : List CTransaction × CTxMemPool),
      state.2.Consistent → state.2.Removes (vin.foldl (removeConflict tx) state).2 := by
    intro vin
    induction vin with
    | nil => exact fun state consistent => ⟨consistent, Shrinks.refl state.2⟩
    | cons txin rest ih =>
      intro state consistent
      have round : state.2.Removes (removeConflict tx state txin).2 := by
        unfold removeConflict
        split
        · exact ⟨consistent, Shrinks.refl state.2⟩
        · next inPoint held =>
            split_ifs
            · exact removes_remove state.1 true consistent (consistent.harmless_of_next held)
            · exact ⟨consistent, Shrinks.refl state.2⟩
      exact round.trans (ih _ round.consistent)
  exact rounds tx.vin (removed, pool) consistent

theorem removes_removeForBlock (vtx : List CTransaction) (conflicts : List CTransaction)
    (consistent : pool.Consistent) (harmless : ∀ tx ∈ vtx, pool.Harmless tx.hash) :
    pool.Removes (pool.removeForBlock vtx conflicts).2 := by
  induction vtx generalizing pool conflicts with
  | nil => exact ⟨consistent, Shrinks.refl pool⟩
  | cons tx rest ih =>
    have confirmed := removes_remove [] false consistent (harmless tx mem_cons_self)
    have round : pool.Removes (removeBlockTx (conflicts, pool) tx).2 :=
      confirmed.trans (removes_removeConflicts tx conflicts confirmed.consistent)
    apply round.trans
    apply ih _ round.consistent
    intro other mem
    exact (harmless other (mem_cons_of_mem _ mem)).shrinks round.shrinks

theorem removes_foldl_remove (txs : List CTransaction) (consistent : pool.Consistent)
    (harmless : ∀ tx ∈ txs, pool.Harmless tx.hash) :
    pool.Removes (txs.foldl (fun pool tx => (pool.remove tx [] true).2) pool) := by
  induction txs generalizing pool with
  | nil => exact ⟨consistent, Shrinks.refl pool⟩
  | cons tx rest ih =>
    have round := removes_remove [] true consistent (harmless tx mem_cons_self)
    apply round.trans
    apply ih round.consistent
    intro other mem
    exact (harmless other (mem_cons_of_mem _ mem)).shrinks round.shrinks

theorem removes_removeCoinbaseSpends (accessCoins : UInt256 → Option CCoins)
    (nMemPoolHeight : UInt32) (consistent : pool.Consistent)
    (harmless : ∀ tx, pool.Holds tx →
      pool.spendsImmature params accessCoins nMemPoolHeight tx = true → pool.Harmless tx.hash) :
    pool.Removes (pool.removeCoinbaseSpends params accessCoins nMemPoolHeight) := by
  apply removes_foldl_remove _ consistent
  intro tx mem
  obtain ⟨listed, immature⟩ := List.mem_filter.mp mem
  obtain ⟨entry, sorted, rfl⟩ := mem_map.mp listed
  have inside := (List.mergeSort_perm _ _).mem_iff.mp sorted
  have present : pool.mapTx.lookup entry.1 = some entry.2 :=
    (List.mem_dlookup_iff pool.mapTx.nodupKeys).mpr inside
  exact harmless entry.2.tx (holds_of_lookup present) immature

/-! ## Runs -/

theorem Consistent.step {action : Action} (sound : Sound params pool action)
    (consistent : pool.Consistent) (stepped : step params action pool = some after) :
    after.Consistent := by
  cases action with
  | addUnchecked entry =>
    simp only [CTxMemPool.step] at stepped
    split_ifs at stepped with acceptable
    cases stepped
    exact consistent.addUnchecked acceptable sound
  | remove tx fRecursive =>
    cases stepped
    exact (removes_remove [] fRecursive consistent sound).consistent
  | removeConflicts tx =>
    cases stepped
    exact (removes_removeConflicts tx [] consistent).consistent
  | removeForBlock vtx =>
    cases stepped
    exact (removes_removeForBlock vtx [] consistent sound).consistent
  | removeCoinbaseSpends accessCoins nMemPoolHeight =>
    cases stepped
    exact (removes_removeCoinbaseSpends accessCoins nMemPoolHeight consistent sound).consistent
  | clear =>
    cases stepped
    exact ⟨empty_consistent.next, empty_consistent.size⟩

/-- **The index of the pool is right** after every run of sound operations from the empty
pool. -/
theorem consistent_of_poolRun {actions : List Action}
    (meets : RunMeets (step params) (Sound params) actions empty)
    (runs : run (step params) actions empty = some pool) : pool.Consistent := by
  apply meets.invariant Consistent _ runs empty_consistent
  intro action before after sound consistent stepped
  exact consistent.step sound stepped

def sampleSpender : CTxMemPoolEntry := ⟨⟨1, 1, [⟨⟨5, 0⟩, [], 0⟩], [], 0⟩, 100⟩

def sampleZerocoinSpend (prevout : COutPoint) : CTxMemPoolEntry :=
  ⟨⟨2, 1, [⟨⟨0, 0⟩, [0xc2], 1⟩, ⟨prevout, [0xc2], 1⟩], [], 0⟩, 200⟩

def samplePool (prevout : COutPoint) : CTxMemPool :=
  (empty.addUnchecked sampleSpender).addUnchecked (sampleZerocoinSpend prevout)

def sampleActions (prevout : COutPoint) : List Action :=
  [.addUnchecked sampleSpender, .addUnchecked (sampleZerocoinSpend prevout),
    .remove (sampleZerocoinSpend prevout).tx false]

theorem acceptable_sampleSpender : empty.acceptable sampleSpender.tx = true := rfl

theorem acceptable_sampleZerocoinSpend (prevout : COutPoint) :
    (empty.addUnchecked sampleSpender).acceptable (sampleZerocoinSpend prevout).tx = true := rfl

theorem run_sampleActions (prevout : COutPoint) :
    run (step .main) (sampleActions prevout) empty =
      some ((samplePool prevout).removeEntry 2 (sampleZerocoinSpend prevout)) := by
  have removal : (samplePool prevout).remove (sampleZerocoinSpend prevout).tx [] false =
      ([(sampleZerocoinSpend prevout).tx],
        (samplePool prevout).removeEntry 2 (sampleZerocoinSpend prevout)) :=
    remove_of_present rfl
  exact congrArg (fun result => some result.2) removal

/-- The spend carries a prevout that no transaction of the pool claims. -/
theorem consistent_sampleActions :
    ((samplePool ⟨6, 0⟩).removeEntry 2 (sampleZerocoinSpend ⟨6, 0⟩)).Consistent := by
  apply consistent_of_poolRun _ (run_sampleActions ⟨6, 0⟩)
  simp only [sampleActions, RunMeets, step, acceptable_sampleSpender,
    acceptable_sampleZerocoinSpend, ↓reduceIte, and_true]
  refine ⟨?_, ?_, ?_⟩
  · intro _
    decide
  · intro spend
    cases spend
  · intro entry present _ txin mem
    cases present
    revert txin
    decide

/-- The spend carries the prevout of the other transaction, which loses its entry. -/
theorem not_consistent_sampleActions :
    run (step .main) (sampleActions ⟨5, 0⟩) empty =
        some ((samplePool ⟨5, 0⟩).removeEntry 2 (sampleZerocoinSpend ⟨5, 0⟩)) ∧
      ¬((samplePool ⟨5, 0⟩).removeEntry 2 (sampleZerocoinSpend ⟨5, 0⟩)).Consistent := by
  refine ⟨run_sampleActions ⟨5, 0⟩, fun consistent => ?_⟩
  have entered := (consistent.next ⟨5, 0⟩ sampleSpender.tx 0).mpr ⟨rfl, rfl, rfl⟩
  revert entered
  decide

end DogeCash.CTxMemPool
