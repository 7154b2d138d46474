import DogeCash.Mempool.NextTx
import DogeCash.Mining.CreateNewBlock
import DogeCash.Validation.Availability
import DogeCash.Validation.CheckTransaction

/-! # The candidates for a block

Going through the pool, every transaction is put in the heap or becomes a `COrphan` that waits
for at least one other, and no pointer to a `COrphan` is left dangling: the inputs of the pool
are all there, so that none is dropped.
-/

namespace DogeCash

/-- What a memory pool is like whose transactions can be connected: each input of a transaction
that is no zerocoin spend is in the view or an output of another transaction of the pool, no two
transactions claim one outpoint, and none claims one that is on the list of invalid ones. -/
structure MinerEnv.Supplied (env : MinerEnv) : Prop where
  available : ∀ tx, env.pool.Holds tx → tx.isZerocoinSpend = false → ∀ txin ∈ tx.vin,
    env.pcoinsTip.Available txin.prevout ∨
      ∃ parent, env.pool.Holds parent ∧ parent ≠ tx ∧ parent.hash = txin.prevout.hash ∧
        txin.prevout.n.toNat < parent.vout.length
  unshared : ∀ first second, env.pool.Holds first → env.pool.Holds second → first ≠ second →
    first.isZerocoinSpend = false → second.isZerocoinSpend = false →
    List.Disjoint (first.vin.map CTxIn.prevout) (second.vin.map CTxIn.prevout)
  valid : ∀ tx, env.pool.Holds tx → ∀ txin ∈ tx.vin, env.node.containsOutPoint txin.prevout = false

/-- What `AcceptToMemoryPool` has made sure of for the transactions of the pool: the inputs are
no duplicates and the values of the outputs in range (`CheckTransaction`), the zerocoin spends
decode, and the transaction is not in the chain. -/
structure MinerEnv.Vetted (env : MinerEnv) : Prop where
  distinct : ∀ tx, env.pool.Holds tx → Node.noDuplicateInputs [] tx.vin = true
  inRange : ∀ tx, env.pool.Holds tx → ∃ nValueOut, tx.getValueOut = some nValueOut
  decodes : ∀ tx, env.pool.Holds tx → ∀ txin ∈ tx.zerocoinInputs, ∃ spend,
    env.node.zerocoin.txInToZerocoinSpend txin = some spend
  unconfirmed : ∀ tx, env.pool.Holds tx → env.pcoinsTip.haveCoins tx.hash = false

theorem holds_of_mem {env : MinerEnv} {tx : CTransaction} (mem : tx ∈ env.poolTransactions) :
    env.pool.Holds tx := by
  obtain ⟨⟨hash, entry⟩, inside, rfl⟩ := List.mem_map.mp mem
  exact CTxMemPool.holds_of_lookup (AList.mem_lookup_iff.mpr inside)

theorem nodup_poolTransactions (env : MinerEnv) :
    (env.poolTransactions.map CTransaction.hash).Nodup := by
  have hashes : env.poolTransactions.map CTransaction.hash = env.pool.mapTx.keys := by
    rw [MinerEnv.poolTransactions, List.map_map]
    exact List.map_congr_left fun entry mem =>
      env.pool.keyed entry.1 entry.2 (AList.mem_lookup_iff.mpr mem)
  rw [hashes]
  exact env.pool.mapTx.keys_nodup

def waiting (vOrphan : List (Option COrphan)) : List CTransaction :=
  vOrphan.flatMap fun cell =>
    match cell with
    | some orphan => if orphan.setDependsOn = ∅ then [] else [orphan.ptx]
    | none => []

theorem waiting_append (first second : List (Option COrphan)) :
    waiting (first ++ second) = waiting first ++ waiting second := List.flatMap_append

theorem waiting_cons {orphan : COrphan} (waits : orphan.setDependsOn ≠ ∅)
    (rest : List (Option COrphan)) :
    waiting (some orphan :: rest) = orphan.ptx :: waiting rest := by
  rw [waiting, List.flatMap_cons]
  dsimp only
  rw [if_neg waits]
  rfl

theorem waiting_cons_of_released {orphan : COrphan} (released : orphan.setDependsOn = ∅)
    (rest : List (Option COrphan)) : waiting (some orphan :: rest) = waiting rest := by
  rw [waiting, List.flatMap_cons]
  dsimp only
  rw [if_pos released]
  rfl

theorem modify_concat {α : Type*} (items : List α) (last : α) (change : α → α) :
    (items ++ [last]).modify items.length change = items ++ [change last] := by
  induction items with
  | nil => rfl
  | cons item rest ih =>
    rw [List.cons_append, List.length_cons, List.modify_succ_cons, ih, List.cons_append]

namespace Candidates

/-- Pointers point to a `COrphan`. -/
structure Linked (vOrphan : List (Option COrphan)) (mapDependers : UInt256 → List ℕ) : Prop where
  whole : ∀ cell ∈ vOrphan, ∃ orphan, cell = some orphan
  inside : ∀ hash, ∀ index ∈ mapDependers hash, index < vOrphan.length

def pending (candidates : Candidates) : List CTransaction :=
  candidates.vecPriority.map TxPriority.ptx ++ waiting candidates.vOrphan

/-- What the loop over the pool has built after some transactions. -/
structure Gathered (env : MinerEnv) (seen : List CTransaction) (candidates : Candidates) :
    Prop where
  linked : Linked candidates.vOrphan candidates.mapDependers
  distinct : candidates.pending.Nodup
  fromSeen : ∀ tx ∈ candidates.pending, tx ∈ seen ∧ env.passedOver tx = false

/-- How far the loop over the inputs of a transaction has come. -/
structure Scanned (base : Candidates) (tx : CTransaction) (scan : InputScan) : Prop where
  found : scan.fMissingInputs = false
  ready : scan.candidates.vecPriority = base.vecPriority
  inside : ∀ hash, ∀ index ∈ scan.candidates.mapDependers hash,
    index < scan.candidates.vOrphan.length
  orphan : scan.porphan = none ∧ scan.candidates.vOrphan = base.vOrphan ∨
    ∃ orphan : COrphan, scan.porphan = some base.vOrphan.length ∧
      scan.candidates.vOrphan = base.vOrphan ++ [some orphan] ∧ orphan.ptx = tx ∧
      orphan.setDependsOn ≠ ∅

variable {base : Candidates} {tx : CTransaction} {scan : InputScan}

theorem Scanned.waitFor (scanned : Scanned base tx scan) (hash : UInt256) (nTotalIn : Int) :
    Scanned base tx { scan with
      porphan := some (scan.candidates.waitFor tx scan.porphan hash).1
      candidates := (scan.candidates.waitFor tx scan.porphan hash).2
      nTotalIn := nTotalIn } := by
  have cell : ∃ orphan : COrphan, scan.candidates.orphanFor tx scan.porphan =
      (base.vOrphan.length, base.vOrphan ++ [some orphan]) ∧ orphan.ptx = tx ∧
        scan.candidates.vOrphan.length ≤ base.vOrphan.length + 1 := by
    rcases scanned.orphan with ⟨none, same⟩ | ⟨orphan, some, appended, own, -⟩
    · refine ⟨{ ptx := tx }, ?_, rfl, ?_⟩
      · rw [none, orphanFor, same]
      · rw [same]
        exact Nat.le_succ _
    · refine ⟨orphan, ?_, own, ?_⟩
      · rw [some, orphanFor, appended]
      · rw [appended, List.length_append, List.length_singleton]
  obtain ⟨orphan, cellIs, own, shorter⟩ := cell
  have waits : scan.candidates.waitFor tx scan.porphan hash =
      (base.vOrphan.length, { scan.candidates with
        vOrphan := base.vOrphan ++
          [some { orphan with setDependsOn := insert hash orphan.setDependsOn }]
        mapDependers := Function.update scan.candidates.mapDependers hash
          (scan.candidates.mapDependers hash ++ [base.vOrphan.length]) }) := by
    rw [Candidates.waitFor, cellIs]
    dsimp only
    rw [modify_concat, Option.map_some]
  rw [waits]
  refine ⟨scanned.found, scanned.ready, ?_, .inr ⟨_, rfl, rfl, own, ?_⟩⟩
  · intro other index mem
    dsimp only at mem ⊢
    rw [List.length_append, List.length_singleton]
    by_cases same : other = hash
    · subst same
      rw [Function.update_self] at mem
      rcases List.mem_append.mp mem with before | last
      · have := scanned.inside other index before
        omega
      · rw [List.mem_singleton.mp last]
        omega
    · rw [Function.update_of_ne same] at mem
      have := scanned.inside other index mem
      omega
  · exact Finset.insert_ne_empty _ _

variable {env : MinerEnv}

theorem gatherInputs_spec (supplied : env.Supplied) (vetted : env.Vetted)
    (holds : env.pool.Holds tx) {inputs : List CTxIn} (own : ∀ txin ∈ inputs, txin ∈ tx.vin)
    (scanned : Scanned base tx scan) :
    ∃ after, env.gatherInputs tx inputs scan = .ok after ∧ Scanned base tx after := by
  induction inputs generalizing scan with
  | nil => exact ⟨scan, rfl, scanned⟩
  | cons txin rest ih =>
    obtain ⟨here, others⟩ := List.forall_mem_cons.mp own
    unfold MinerEnv.gatherInputs
    split_ifs with spend unknown invalid
    · exact ih others ⟨scanned.found, scanned.ready, scanned.inside, scanned.orphan⟩
    · rw [Bool.not_eq_true'] at unknown
      have absent : ¬env.pcoinsTip.Available txin.prevout := by
        intro available
        obtain ⟨out, slot, -⟩ := CCoins.isAvailable_iff.mp available
        rw [CoinsMap.haveCoins, Bool.not_eq_false', List.isEmpty_iff] at unknown
        rw [unknown] at slot
        cases slot
      obtain ⟨parent, parentHolds, -, hash, position⟩ :=
        (supplied.available tx holds (by simpa using spend) txin here).resolve_left absent
      obtain ⟨entry, present, rfl⟩ := parentHolds.exists_entry
      rw [← hash, present]
      dsimp only
      rw [List.getElem?_eq_getElem position]
      exact ih others (scanned.waitFor _ _)
    · rw [supplied.valid tx holds txin here] at invalid
      cases invalid
    · have known : env.pcoinsTip.haveCoins txin.prevout.hash = true := by simpa using unknown
      have available : env.pcoinsTip.Available txin.prevout := by
        rcases supplied.available tx holds (by simpa using spend) txin here with
          available | ⟨parent, parentHolds, -, hash, -⟩
        · exact available
        · rw [← hash, vetted.unconfirmed parent parentHolds] at known
          cases known
      obtain ⟨out, slot, -⟩ := CCoins.isAvailable_iff.mp available
      rw [slot]
      exact ih others ⟨scanned.found, scanned.ready, scanned.inside, scanned.orphan⟩

variable {seen : List CTransaction}

theorem Gathered.enter (gathered : Gathered env seen base) (scanned : Scanned base tx scan)
    (new : tx ∉ seen) (considered : env.passedOver tx = false) (nValueOut : Int) :
    Gathered env (seen ++ [tx]) (env.enter tx scan nValueOut) := by
  have listed : (env.enter tx scan nValueOut).pending.Perm (tx :: base.pending) ∧
      Linked (env.enter tx scan nValueOut).vOrphan (env.enter tx scan nValueOut).mapDependers := by
    unfold MinerEnv.enter
    rcases scanned.orphan with ⟨none, same⟩ | ⟨orphan, some, appended, own, waits⟩
    · rw [none]
      refine ⟨?_, ⟨?_, scanned.inside⟩⟩
      · unfold pending
        rw [scanned.ready, same, List.map_append, List.map_singleton, List.append_assoc]
        exact List.perm_middle
      · rw [same]
        exact gathered.linked.whole
    · rw [some, appended]
      dsimp only
      rw [modify_concat, Option.map_some]
      refine ⟨?_, ⟨?_, ?_⟩⟩
      · unfold pending
        rw [scanned.ready, waiting_append, waiting_cons (by exact waits), own, ← List.append_assoc]
        exact List.perm_append_singleton tx _
      · intro cell mem
        rcases List.mem_append.mp mem with before | last
        · exact gathered.linked.whole cell before
        · exact ⟨_, List.mem_singleton.mp last⟩
      · intro hash index mem
        have below := scanned.inside hash index mem
        rw [appended, List.length_append] at below
        rw [List.length_append]
        exact below
  obtain ⟨perm, linked⟩ := listed
  refine ⟨linked, ?_, ?_⟩
  · rw [perm.nodup_iff, List.nodup_cons]
    exact ⟨fun mem => new (gathered.fromSeen tx mem).1, gathered.distinct⟩
  · intro other mem
    rcases List.mem_cons.mp (perm.mem_iff.mp mem) with rfl | before
    · exact ⟨List.mem_append_right _ List.mem_cons_self, considered⟩
    · obtain ⟨old, kept⟩ := gathered.fromSeen other before
      exact ⟨List.mem_append_left _ old, kept⟩

theorem gatherTransaction_spec (supplied : env.Supplied) (vetted : env.Vetted)
    (holds : env.pool.Holds tx) (gathered : Gathered env seen base) (new : tx ∉ seen) :
    ∃ after, env.gatherTransaction base tx = .ok after ∧ Gathered env (seen ++ [tx]) after := by
  unfold MinerEnv.gatherTransaction
  split_ifs with excluded
  · refine ⟨base, rfl, gathered.linked, gathered.distinct, fun other mem => ?_⟩
    obtain ⟨old, kept⟩ := gathered.fromSeen other mem
    exact ⟨List.mem_append_left _ old, kept⟩
  · have start : Scanned base tx { candidates := base } :=
      ⟨rfl, rfl, gathered.linked.inside, .inl ⟨rfl, rfl⟩⟩
    obtain ⟨scan, scans, scanned⟩ :=
      gatherInputs_spec supplied vetted holds (fun _ mem => mem) start
    obtain ⟨nValueOut, computed⟩ := vetted.inRange tx holds
    have computes : tx.getValueOutOrThrow = .ok nValueOut := by
      rw [CTransaction.getValueOutOrThrow, computed]
    refine ⟨env.enter tx scan nValueOut, ?_,
      gathered.enter scanned new (by simpa using excluded) nValueOut⟩
    refine bind_eq_ok.mpr ⟨scan, scans, ?_⟩
    rw [if_neg (by rw [scanned.found]; exact Bool.false_ne_true)]
    exact bind_eq_ok.mpr ⟨nValueOut, computes, rfl⟩

theorem gather_spec (supplied : env.Supplied) (vetted : env.Vetted) :
    ∃ candidates, env.gather = .ok candidates ∧ Gathered env env.poolTransactions candidates := by
  have start : Gathered env [] {} := by
    refine ⟨⟨nofun, nofun⟩, List.nodup_nil, nofun⟩
  have distinct : env.poolTransactions.Nodup := (nodup_poolTransactions env).of_map _
  refine foldlM_performed (Gathered env) [] ?_ start
  intro before tx after state split gathered
  have mem : tx ∈ env.poolTransactions := by
    rw [split]
    exact List.mem_append_right _ List.mem_cons_self
  rw [split, List.nodup_middle, List.nodup_cons] at distinct
  exact gatherTransaction_spec supplied vetted (holds_of_mem mem) gathered
    fun old => distinct.1 (List.mem_append_left _ old)

end Candidates

end DogeCash
