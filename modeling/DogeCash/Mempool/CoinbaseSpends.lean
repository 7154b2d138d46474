import DogeCash.Mempool.Removal

/-! # What a reorganization takes from the memory pool

When a block is disconnected, `removeCoinbaseSpends` takes the transactions from the pool whose
coinbase or coinstake inputs are immature again, and what descends from them. An input from outside
the pool whose coins are missing is taken for such an input, and the coins of the prevout of a
zerocoin spend are always missing.
-/

namespace DogeCash.CTxMemPool

open List (mem_cons mem_cons_of_mem mem_cons_self)

def IsChild (pool : CTxMemPool) (parent child : CTransaction) : Prop :=
  pool.Holds child ∧ child.isZerocoinSpend = false ∧
    ∃ txin ∈ child.vin, txin.prevout.hash = parent.hash ∧ txin.prevout.n.toNat < parent.vout.length

/-- The transactions of the pool with a property, and what descends from them in the pool. -/
inductive Descends (pool : CTxMemPool) (start : CTransaction → Prop) : CTransaction → Prop where
  | start {tx : CTransaction} : pool.Holds tx → start tx → Descends pool start tx
  | child {parent child : CTransaction} :
      Descends pool start parent → pool.IsChild parent child → Descends pool start child

section Descendants

variable {pool after : CTxMemPool} {start other : CTransaction → Prop} {tx : CTransaction}

theorem Descends.holds (descends : pool.Descends start tx) : pool.Holds tx := by
  cases descends with
  | start holds _ => exact holds
  | child _ isChild => exact isChild.1

theorem Descends.mono (weaker : ∀ tx, start tx → other tx) (descends : pool.Descends start tx) :
    pool.Descends other tx := by
  induction descends with
  | start holds begins => exact .start holds (weaker _ begins)
  | child _ isChild ih => exact .child ih isChild

theorem Descends.trans (within : ∀ tx, pool.Holds tx → start tx → pool.Descends other tx)
    (descends : pool.Descends start tx) : pool.Descends other tx := by
  induction descends with
  | start holds begins => exact within _ holds begins
  | child _ isChild ih => exact .child ih isChild

theorem eq_of_hash_eq {first second : CTransaction} (here : pool.Holds first)
    (there : pool.Holds second) (same : first.hash = second.hash) : first = second := by
  unfold Holds at here there
  rw [same, there] at here
  exact (Option.some_inj.mp here).symm

variable {hash : UInt256} {entry : CTxMemPoolEntry}

theorem mem_children_iff (consistent : pool.Consistent) {parent : CTransaction} :
    hash ∈ pool.children parent.hash parent.vout.length ↔
      ∃ child, pool.IsChild parent child ∧ child.hash = hash := by
  unfold children
  rw [List.mem_filterMap]
  constructor
  · rintro ⟨i, inRange, found⟩
    obtain ⟨⟨ptx, n⟩, claimed, rfl⟩ := Option.map_eq_some_iff.mp found
    obtain ⟨holds, normal, input⟩ := (consistent.next _ ptx n).mp claimed
    obtain ⟨txin, listed, prevout⟩ := Option.map_eq_some_iff.mp input
    refine ⟨ptx, ⟨holds, normal, txin, List.mem_of_getElem? listed, ?_, ?_⟩, rfl⟩
    · rw [prevout]
    · rw [prevout]
      exact lt_of_le_of_lt (Nat.mod_le _ _) (List.mem_range.mp inRange)
  · rintro ⟨child, ⟨holds, normal, txin, mem, parentHash, inRange⟩, rfl⟩
    obtain ⟨n, listed⟩ := List.mem_iff_getElem?.mp mem
    refine ⟨txin.prevout.n.toNat, List.mem_range.mpr inRange, ?_⟩
    have prevout : (⟨parent.hash, UInt32.ofNat txin.prevout.n.toNat⟩ : COutPoint) =
        txin.prevout := by
      rw [← parentHash, UInt32.ofNat_toNat]
    have claimed := (consistent.next txin.prevout child n).mpr
      ⟨holds, normal, congrArg (Option.map CTxIn.prevout) listed⟩
    rw [prevout, claimed]
    rfl

theorem isChild_removeEntry {parent child : CTransaction} :
    (pool.removeEntry hash entry).IsChild parent child ↔
      child.hash ≠ hash ∧ pool.IsChild parent child := by
  rw [IsChild, IsChild, holds_removeEntry, and_assoc]

theorem descends_cons_iff (consistent : pool.Consistent) {rest : List UInt256}
    (present : pool.mapTx.lookup hash = some entry) :
    pool.Descends (fun tx => tx.hash ∈ hash :: rest) tx ↔ tx = entry.tx ∨
      (pool.removeEntry hash entry).Descends
        (fun tx => tx.hash ∈ rest ++ pool.children hash entry.tx.vout.length) tx := by
  have key : entry.tx.hash = hash := pool.keyed hash entry present
  have unique {tx : CTransaction} (holds : pool.Holds tx) (same : tx.hash = hash) :
      tx = entry.tx := eq_of_hash_eq holds (holds_of_lookup present) (same.trans key.symm)
  constructor
  · intro descends
    induction descends with
    | @start tx holds queued =>
      by_cases same : tx.hash = hash
      · exact .inl (unique holds same)
      · refine .inr (.start (holds_removeEntry.mpr ⟨same, holds⟩) (List.mem_append_left _ ?_))
        exact (mem_cons.mp queued).resolve_left same
    | @child parent child _ isChild ih =>
      by_cases same : child.hash = hash
      · exact .inl (unique isChild.1 same)
      · refine .inr ?_
        rcases ih with rfl | later
        · refine .start (holds_removeEntry.mpr ⟨same, isChild.1⟩) (List.mem_append_right _ ?_)
          rw [← key]
          exact (mem_children_iff consistent).mpr ⟨child, isChild, rfl⟩
        · exact .child later (isChild_removeEntry.mpr ⟨same, isChild⟩)
  · have first : pool.Descends (fun tx => tx.hash ∈ hash :: rest) entry.tx :=
      .start (holds_of_lookup present) (key ▸ mem_cons_self)
    rintro (rfl | later)
    · exact first
    · induction later with
      | @start tx holds queued =>
        obtain ⟨-, inside⟩ := holds_removeEntry.mp holds
        rcases List.mem_append.mp queued with before | found
        · exact .start inside (mem_cons_of_mem _ before)
        · rw [← key] at found
          obtain ⟨child, isChild, same⟩ := (mem_children_iff consistent).mp found
          rw [← eq_of_hash_eq isChild.1 inside same]
          exact .child first isChild
      | child _ isChild ih => exact .child ih (isChild_removeEntry.mp isChild).2

theorem holds_removeQueued (queue : List UInt256) (removed : List CTransaction)
    (pool : CTxMemPool) (consistent : pool.Consistent)
    (harmless : ∀ hash ∈ queue, pool.Harmless hash) (tx : CTransaction) :
    (removeQueued true queue removed pool).2.Holds tx ↔
      pool.Holds tx ∧ ¬pool.Descends (fun tx => tx.hash ∈ queue) tx := by
  induction queue, removed, pool using removeQueued.induct true with
  | case1 removed pool =>
    rw [removeQueued]
    refine ⟨fun holds => ⟨holds, fun descends => ?_⟩, And.left⟩
    induction descends with
    | start _ queued => cases queued
    | child descends isChild ih => exact ih descends.holds
  | case2 removed pool hash rest absent ih =>
    rw [removeQueued, absent]
    have later := ih consistent fun other mem => harmless other (mem_cons_of_mem _ mem)
    refine later.trans (and_congr_right fun _ => not_congr ?_)
    refine ⟨.mono fun tx => mem_cons_of_mem _, .trans fun tx holds queued => ?_⟩
    refine .start holds ((mem_cons.mp queued).resolve_left fun same => ?_)
    obtain ⟨entry, present, -⟩ := holds.exists_entry
    rw [same, absent] at present
    cases present
  | case3 removed pool hash rest entry present found ih =>
    have key : entry.tx.hash = hash := pool.keyed hash entry present
    have removal := consistent.removeEntry present (harmless hash mem_cons_self)
    have all : found = pool.children hash entry.tx.vout.length := rfl
    rw [all] at ih
    rw [removeQueued_of_some present, descends_cons_iff consistent present, if_pos rfl, ih removal]
    · rw [holds_removeEntry, not_or]
      constructor
      · rintro ⟨⟨other, holds⟩, spared⟩
        exact ⟨holds, fun same => other (same ▸ key), spared⟩
      · rintro ⟨holds, other, spared⟩
        refine ⟨⟨fun same => other ?_, holds⟩, spared⟩
        exact eq_of_hash_eq holds (holds_of_lookup present) (same.trans key.symm)
    · intro other mem
      refine Harmless.shrinks ?_ (shrinks_removeEntry pool hash entry)
      rcases List.mem_append.mp mem with queued | child
      · exact harmless other (mem_cons_of_mem _ queued)
      · exact consistent.harmless_children child

theorem harmless_of_normal (holds : pool.Holds tx) (normal : tx.isZerocoinSpend = false) :
    pool.Harmless tx.hash := by
  intro entry present spend
  obtain ⟨other, there, rfl⟩ := holds.exists_entry
  rw [present] at there
  cases there
  rw [normal] at spend
  cases spend

theorem holds_remove_iff {source : CTransaction} (consistent : after.Consistent)
    (shrinks : pool.Shrinks after) (sourceHolds : pool.Holds source)
    (normal : source.isZerocoinSpend = false)
    (lacks : ∀ tx, after.Holds tx ↔ pool.Holds tx ∧ ¬pool.Descends start tx) (tx : CTransaction) :
    (after.remove source [] true).2.Holds tx ↔
      pool.Holds tx ∧ ¬pool.Descends (fun tx => start tx ∨ tx = source) tx := by
  have harmless : after.Harmless source.hash :=
    (harmless_of_normal sourceHolds normal).shrinks shrinks
  have gone {tx : CTransaction} (holds : pool.Holds tx) (left : ¬after.Holds tx) :
      pool.Descends start tx := by
    by_contra spared
    exact left ((lacks tx).mpr ⟨holds, spared⟩)
  simp only [remove, Bool.true_and]
  generalize orphans : (if (after.mapTx.lookup source.hash).isNone = true then
    after.children source.hash source.vout.length else []) = orphaned
  have orphan : ∀ hash ∈ orphaned, hash ∈ after.children source.hash source.vout.length := by
    intro hash mem
    rw [← orphans] at mem
    split_ifs at mem
    · exact mem
    · cases mem
  rw [holds_removeQueued _ _ _ consistent]
  · constructor
    · rintro ⟨left, spared⟩
      obtain ⟨holds, before⟩ := (lacks tx).mp left
      refine ⟨holds, fun descends => ?_⟩
      -- What descends has gone before, or descends in the pool that is left.
      have either : pool.Descends start tx ∨
          after.Descends (fun tx => tx.hash ∈ source.hash :: orphaned) tx := by
        clear spared before left holds
        induction descends with
        | @start tx holds begins =>
          by_cases here : after.Holds tx
          · rcases begins with begins | rfl
            · exact .inl (.start holds begins)
            · exact .inr (.start here mem_cons_self)
          · exact .inl (gone holds here)
        | @child parent child _ isChild ih =>
          by_cases here : after.Holds child
          · rcases ih with earlier | later
            · exact .inl (.child earlier isChild)
            · exact .inr (.child later ⟨here, isChild.2⟩)
          · exact .inl (gone isChild.1 here)
      exact either.elim before spared
    · rintro ⟨holds, spared⟩
      refine ⟨(lacks tx).mpr ⟨holds, fun earlier => spared (earlier.mono fun _ => .inl)⟩, ?_⟩
      intro descends
      apply spared
      clear spared holds
      have begins : pool.Descends (fun tx => start tx ∨ tx = source) source :=
        .start sourceHolds (.inr rfl)
      induction descends with
      | @start tx here queued =>
        rcases mem_cons.mp queued with same | found
        · rw [eq_of_hash_eq (shrinks.holds here) sourceHolds same]
          exact begins
        · obtain ⟨child, isChild, same⟩ := (mem_children_iff consistent).mp (orphan _ found)
          rw [← eq_of_hash_eq isChild.1 here same]
          exact .child begins ⟨shrinks.holds isChild.1, isChild.2⟩
      | child _ isChild ih => exact .child ih ⟨shrinks.holds isChild.1, isChild.2⟩
  · intro hash mem
    rcases mem_cons.mp mem with rfl | found
    · exact harmless
    · exact consistent.harmless_children (orphan hash found)

theorem holds_foldl_remove (sources : List CTransaction) (consistent : after.Consistent)
    (shrinks : pool.Shrinks after)
    (normal : ∀ source ∈ sources, pool.Holds source ∧ source.isZerocoinSpend = false)
    (lacks : ∀ tx, after.Holds tx ↔ pool.Holds tx ∧ ¬pool.Descends start tx) (tx : CTransaction) :
    (sources.foldl (fun pool tx => (pool.remove tx [] true).2) after).Holds tx ↔
      pool.Holds tx ∧ ¬pool.Descends (fun tx => start tx ∨ tx ∈ sources) tx := by
  induction sources generalizing after start with
  | nil =>
    simp only [List.not_mem_nil, or_false]
    exact lacks tx
  | cons source sources ih =>
    obtain ⟨sourceHolds, isNormal⟩ := normal source mem_cons_self
    have round := removes_remove [] true consistent
      ((harmless_of_normal sourceHolds isNormal).shrinks shrinks)
    rw [List.foldl_cons, ih round.consistent (shrinks.trans round.shrinks)
      (fun other mem => normal other (mem_cons_of_mem _ mem))
      (holds_remove_iff consistent shrinks sourceHolds isNormal lacks)]
    simp [or_assoc]

end Descendants

/-! ## The reasons for a removal -/

section Reasons

variable (params : ChainParams) (accessCoins : UInt256 → Option CCoins) (nMemPoolHeight : UInt32)

/-- The coins of a coinbase or a coinstake have fewer than `COINBASE_MATURITY` confirmations. -/
def HasFewConfirmations (coins : CCoins) : Prop :=
  (coins.fCoinBase = true ∨ coins.fCoinStake = true) ∧
    (nMemPoolHeight.toNat : Int) - coins.nHeight.toInt < params.nMaturity

def IsImmatureOutput (prevout : COutPoint) : Prop :=
  ∃ coins, accessCoins prevout.hash = some coins ∧ coins.isAvailable prevout.n = true ∧
    HasFewConfirmations params nMemPoolHeight coins

/-- A transaction other than a zerocoin spend that spends an immature output of the view. -/
def SpendsImmatureOutput (tx : CTransaction) : Prop :=
  tx.isZerocoinSpend = false ∧
    ∃ txin ∈ tx.vin, IsImmatureOutput params accessCoins nMemPoolHeight txin.prevout

/-- Every input that is no zerocoin spend is available in the pool or in the view. -/
def InputsAvailable (pool : CTxMemPool) : Prop :=
  ∀ tx, pool.Holds tx → ∀ txin ∈ tx.vin, CScript.isZerocoinSpend txin.scriptSig = false →
    (∃ parent, pool.Holds parent ∧ parent.hash = txin.prevout.hash ∧
      txin.prevout.n.toNat < parent.vout.length) ∨
    ∃ coins, accessCoins txin.prevout.hash = some coins ∧ coins.isAvailable txin.prevout.n = true

/-- What stays in the pool is what neither spends an immature output nor descends from what
does. -/
def KeepsTheRest (pool after : CTxMemPool) : Prop :=
  ∀ tx, after.Holds tx ↔ pool.Holds tx ∧
    ¬pool.Descends (SpendsImmatureOutput params accessCoins nMemPoolHeight) tx

variable (pool : CTxMemPool)

/-- An input from outside the pool makes the loop remove a transaction without spending an immature
output: the view does not have its coins, or they look immature, but the transaction is a zerocoin
spend, the output is not available or the unsigned difference of the heights has wrapped around. -/
def IsMistaken (tx : CTransaction) (txin : CTxIn) : Prop :=
  pool.mapTx.lookup txin.prevout.hash = none ∧
    (accessCoins txin.prevout.hash = none ∨
      ∃ coins, accessCoins txin.prevout.hash = some coins ∧
        isImmature params nMemPoolHeight coins = true ∧
          (tx.isZerocoinSpend = true ∨ coins.isAvailable txin.prevout.n = false ∨
            ¬HasFewConfirmations params nMemPoolHeight coins))

/-- The loop overlooks that an input spends an immature output: there is a transaction of the same
id in the pool, or the unsigned difference of the heights has wrapped around. -/
def IsOverlooked (txin : CTxIn) : Prop :=
  IsImmatureOutput params accessCoins nMemPoolHeight txin.prevout ∧
    ((pool.mapTx.lookup txin.prevout.hash).isSome = true ∨
      ∀ coins, accessCoins txin.prevout.hash = some coins →
        isImmature params nMemPoolHeight coins = false)

/-- What is removed by mistake has to go for another reason, and what is overlooked goes anyway. -/
structure FindsTheRest : Prop where
  mistaken : ∀ tx, pool.Holds tx →
    (∃ txin ∈ tx.vin, IsMistaken params accessCoins nMemPoolHeight pool tx txin) →
      pool.Descends (SpendsImmatureOutput params accessCoins nMemPoolHeight) tx
  overlooked : ∀ tx, pool.Holds tx → tx.isZerocoinSpend = false →
    (∃ txin ∈ tx.vin, IsOverlooked params accessCoins nMemPoolHeight pool txin) →
      pool.Descends (fun tx => pool.spendsImmature params accessCoins nMemPoolHeight tx = true) tx

variable {params accessCoins nMemPoolHeight pool} {tx : CTransaction}

theorem spendsImmature_iff : pool.spendsImmature params accessCoins nMemPoolHeight tx = true ↔
    ∃ txin ∈ tx.vin, pool.mapTx.lookup txin.prevout.hash = none ∧
      (accessCoins txin.prevout.hash = none ∨ ∃ coins,
        accessCoins txin.prevout.hash = some coins ∧
          isImmature params nMemPoolHeight coins = true) := by
  rw [spendsImmature, List.any_eq_true]
  refine exists_congr fun txin => and_congr_right fun _ => ?_
  cases accessCoins txin.prevout.hash <;> simp

theorem normal_of_descends
    (descends : pool.Descends (SpendsImmatureOutput params accessCoins nMemPoolHeight) tx) :
    tx.isZerocoinSpend = false := by
  cases descends with
  | start _ spends => exact spends.1
  | child _ isChild => exact isChild.2.1

theorem spendsImmatureOutput_or_mistaken
    (spends : pool.spendsImmature params accessCoins nMemPoolHeight tx = true) :
    SpendsImmatureOutput params accessCoins nMemPoolHeight tx ∨
      ∃ txin ∈ tx.vin, IsMistaken params accessCoins nMemPoolHeight pool tx txin := by
  obtain ⟨txin, mem, outside, reason⟩ := spendsImmature_iff.mp spends
  by_cases right : SpendsImmatureOutput params accessCoins nMemPoolHeight tx
  · exact .inl right
  refine .inr ⟨txin, mem, outside, reason.imp_right ?_⟩
  rintro ⟨coins, found, immature⟩
  refine ⟨coins, found, immature, ?_⟩
  by_contra! all
  obtain ⟨normal, available, few⟩ := all
  rw [ne_eq, Bool.not_eq_true] at normal
  rw [ne_eq, Bool.not_eq_false] at available
  exact right ⟨normal, txin, mem, coins, found, available, few⟩

theorem spendsImmature_or_overlooked
    (spends : SpendsImmatureOutput params accessCoins nMemPoolHeight tx) :
    pool.spendsImmature params accessCoins nMemPoolHeight tx = true ∨
      ∃ txin ∈ tx.vin, IsOverlooked params accessCoins nMemPoolHeight pool txin := by
  obtain ⟨-, txin, mem, coins, found, available, few⟩ := spends
  by_cases seen : pool.mapTx.lookup txin.prevout.hash = none ∧
      isImmature params nMemPoolHeight coins = true
  · exact .inl (spendsImmature_iff.mpr ⟨txin, mem, seen.1, .inr ⟨coins, found, seen.2⟩⟩)
  · refine .inr ⟨txin, mem, ⟨coins, found, available, few⟩, ?_⟩
    rcases not_and_or.mp seen with inside | late
    · exact .inl (Option.isSome_iff_ne_none.mpr inside)
    · refine .inr fun other there => ?_
      rw [found] at there
      cases there
      exact Bool.eq_false_iff.mpr late

variable {pool : CTxMemPool}

theorem mem_collected_iff (immature : CTransaction → Bool) :
    tx ∈ ((pool.mapTx.entries.mergeSort fun first second => first.1 ≤ second.1).map fun entry =>
        entry.2.tx).filter immature ↔ pool.Holds tx ∧ immature tx = true := by
  rw [List.mem_filter]
  refine and_congr_left fun _ => ?_
  rw [List.mem_map]
  constructor
  · rintro ⟨entry, sorted, rfl⟩
    have inside := (List.mergeSort_perm _ _).mem_iff.mp sorted
    exact holds_of_lookup ((List.mem_dlookup_iff pool.mapTx.nodupKeys).mpr inside)
  · intro holds
    obtain ⟨entry, present, same⟩ := holds.exists_entry
    have inside := (List.mem_dlookup_iff pool.mapTx.nodupKeys).mp present
    exact ⟨⟨tx.hash, entry⟩, (List.mergeSort_perm _ _).mem_iff.mpr inside, same⟩

theorem lookup_foldl_remove (sources : List CTransaction) (pool : CTxMemPool)
    (mem : tx ∈ sources) :
    (sources.foldl (fun pool tx => (pool.remove tx [] true).2) pool).mapTx.lookup tx.hash =
      none := by
  have shrinks (sources : List CTransaction) (pool : CTxMemPool) :
      pool.Shrinks (sources.foldl (fun pool tx => (pool.remove tx [] true).2) pool) := by
    induction sources generalizing pool with
    | nil => exact .refl pool
    | cons source sources ih => exact (shrinks_remove source [] true pool).trans (ih _)
  induction sources generalizing pool with
  | nil => cases mem
  | cons source sources ih =>
    rcases mem_cons.mp mem with rfl | later
    · exact (shrinks sources _).lookup_eq_none (lookup_remove tx [] true pool)
    · exact ih _ later

theorem not_holds_of_spendsImmature (holds : pool.Holds tx)
    (spends : pool.spendsImmature params accessCoins nMemPoolHeight tx = true) :
    ¬(pool.removeCoinbaseSpends params accessCoins nMemPoolHeight).Holds tx := by
  intro stays
  obtain ⟨entry, present, -⟩ := stays.exists_entry
  have gone := lookup_foldl_remove _ pool ((mem_collected_iff
    (pool.spendsImmature params accessCoins nMemPoolHeight)).mpr ⟨holds, spends⟩)
  exact absurd (present.symm.trans gone) (Option.some_ne_none entry)

theorem holds_removeCoinbaseSpends (consistent : pool.Consistent) (normal : ∀ tx, pool.Holds tx →
      pool.spendsImmature params accessCoins nMemPoolHeight tx = true → tx.isZerocoinSpend = false)
    (tx : CTransaction) :
    (pool.removeCoinbaseSpends params accessCoins nMemPoolHeight).Holds tx ↔ pool.Holds tx ∧
      ¬pool.Descends
        (fun tx => pool.spendsImmature params accessCoins nMemPoolHeight tx = true) tx := by
  have nothing (tx : CTransaction) : pool.Holds tx ↔
      pool.Holds tx ∧ ¬pool.Descends (fun _ => False) tx := by
    refine ⟨fun holds => ⟨holds, fun descends => ?_⟩, And.left⟩
    induction descends with
    | start _ impossible => exact impossible
    | child descends _ ih => exact ih descends.holds
  rw [removeCoinbaseSpends, holds_foldl_remove _ consistent (.refl pool) ?_ nothing]
  · refine and_congr_right fun _ => not_congr ⟨.mono ?_, .trans ?_⟩
    · rintro tx (impossible | mem)
      · exact impossible.elim
      · exact ((mem_collected_iff _).mp mem).2
    · exact fun tx holds spends => .start holds (.inr ((mem_collected_iff _).mpr ⟨holds, spends⟩))
  · intro source mem
    obtain ⟨holds, spends⟩ := (mem_collected_iff _).mp mem
    exact ⟨holds, normal source holds spends⟩

/-- **Cleanup of the pool.** `removeCoinbaseSpends` takes exactly the transactions that spend an
immature output of the view and their descendants, exactly when what it takes by mistake has to go
for another reason and what it overlooks goes anyway. -/
theorem removeCoinbaseSpends_exact_iff (params : ChainParams)
    (accessCoins : UInt256 → Option CCoins) (nMemPoolHeight : UInt32) {pool : CTxMemPool}
    (consistent : pool.Consistent) :
    KeepsTheRest params accessCoins nMemPoolHeight pool
        (pool.removeCoinbaseSpends params accessCoins nMemPoolHeight) ↔
      FindsTheRest params accessCoins nMemPoolHeight pool := by
  constructor
  · intro keeps
    have within (tx : CTransaction) (holds : pool.Holds tx)
        (spends : pool.spendsImmature params accessCoins nMemPoolHeight tx = true) :
        pool.Descends (SpendsImmatureOutput params accessCoins nMemPoolHeight) tx := by
      by_contra spared
      exact not_holds_of_spendsImmature holds spends ((keeps tx).mpr ⟨holds, spared⟩)
    have removed := holds_removeCoinbaseSpends consistent fun tx holds spends =>
      normal_of_descends (within tx holds spends)
    refine ⟨fun tx holds mistaken => within tx holds ?_, fun tx holds normal overlooked => ?_⟩
    · obtain ⟨txin, mem, outside, reason⟩ := mistaken
      refine spendsImmature_iff.mpr ⟨txin, mem, outside, reason.imp_right ?_⟩
      exact fun reason => reason.imp fun coins all => ⟨all.1, all.2.1⟩
    · obtain ⟨txin, mem, immature, -⟩ := overlooked
      by_contra spared
      exact ((keeps tx).mp ((removed tx).mpr ⟨holds, spared⟩)).2
        (.start holds ⟨normal, txin, mem, immature⟩)
  · intro finds tx
    have within (tx : CTransaction) (holds : pool.Holds tx)
        (spends : pool.spendsImmature params accessCoins nMemPoolHeight tx = true) :
        pool.Descends (SpendsImmatureOutput params accessCoins nMemPoolHeight) tx :=
      (spendsImmatureOutput_or_mistaken spends).elim (.start holds) (finds.mistaken tx holds)
    rw [holds_removeCoinbaseSpends consistent fun tx holds spends =>
      normal_of_descends (within tx holds spends)]
    refine and_congr_right fun _ => not_congr ⟨.trans within, .trans fun tx holds spends => ?_⟩
    exact (spendsImmature_or_overlooked spends).elim (fun seen => .start holds seen)
      (finds.overlooked tx holds spends.1)

end Reasons

/-- A coinbase and an ordinary transaction. -/
def coinbaseView (hash : UInt256) : Option CCoins :=
  if hash = 5 ∨ hash = 6 then some ⟨hash = 5, false, [.of 7 []], 10, 1⟩ else none

def twoSpenders : CTxMemPool :=
  (empty.addUnchecked sampleSpender).addUnchecked ⟨⟨2, 1, [⟨⟨6, 0⟩, [], 0⟩], [], 0⟩, 100⟩

/-- The coinbase has one confirmation, and one of the two transactions spends it. -/
theorem removeCoinbaseSpends_exact_sample :
    KeepsTheRest .main coinbaseView 11 twoSpenders
        (twoSpenders.removeCoinbaseSpends .main coinbaseView 11) ↔
      FindsTheRest .main coinbaseView 11 twoSpenders :=
  removeCoinbaseSpends_exact_iff .main coinbaseView 11
    ((empty_consistent.addUnchecked acceptable_sampleSpender fun _ => by decide).addUnchecked rfl
      fun _ => by decide)

def dummyZerocoinSpend : CTxMemPoolEntry := ⟨⟨2, 1, [⟨⟨0, 0⟩, [0xc2], 1⟩], [], 0⟩, 200⟩

/-- Coins are missing for the prevout of a zerocoin spend, so it is removed. -/
theorem not_keepsTheRest_dummyZerocoinSpend :
    ¬∀ (params : ChainParams) (accessCoins : UInt256 → Option CCoins) (nMemPoolHeight : UInt32)
      (pool : CTxMemPool), pool.Consistent → InputsAvailable accessCoins pool →
        KeepsTheRest params accessCoins nMemPoolHeight pool
          (pool.removeCoinbaseSpends params accessCoins nMemPoolHeight) := by
  intro keeps
  have consistent : (empty.addUnchecked dummyZerocoinSpend).Consistent :=
    empty_consistent.addUnchecked rfl fun normal => absurd normal (by decide)
  have only {tx : CTransaction} (holds : (empty.addUnchecked dummyZerocoinSpend).Holds tx) :
      tx = dummyZerocoinSpend.tx :=
    ((holds_addUnchecked rfl).mp holds).resolve_right (by simp [Holds, empty])
  have available : InputsAvailable coinbaseView (empty.addUnchecked dummyZerocoinSpend) := by
    intro tx holds txin mem normal
    rw [only holds] at mem
    rw [List.mem_singleton.mp mem] at normal
    exact absurd normal (by decide)
  have here : (empty.addUnchecked dummyZerocoinSpend).Holds dummyZerocoinSpend.tx :=
    (holds_addUnchecked rfl).mpr (.inl rfl)
  have spends : (empty.addUnchecked dummyZerocoinSpend).spendsImmature .main coinbaseView 11
      dummyZerocoinSpend.tx = true := by decide
  refine not_holds_of_spendsImmature here spends
    ((keeps .main coinbaseView 11 _ consistent available _).mpr ⟨here, fun descends => ?_⟩)
  exact absurd (normal_of_descends descends) (by decide)

end DogeCash.CTxMemPool
