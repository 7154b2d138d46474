import DogeCash.Foundation.ReverseIndex
import DogeCash.Primitives.Serialize
import Mathlib.Data.List.MinMax

/-! # Orphan transactions

A transaction whose inputs are not known yet is kept with the peer that sent it. A second map leads
from the transactions that are waited for to those that wait. The second map stays the reverse
index of the first one over any sequence of calls.
-/

namespace DogeCash

structure COrphanTx where
  tx : CTransaction
  fromPeer : Int

/-- `mapOrphanTransactions` and `mapOrphanTransactionsByPrev` -/
structure OrphanMaps where
  mapOrphanTransactions : AList fun _ : UInt256 => COrphanTx := ∅
  mapOrphanTransactionsByPrev : AList fun _ : UInt256 => Finset UInt256 := ∅

def CTransaction.prevHashes (tx : CTransaction) : List UInt256 :=
  tx.vin.map fun txin => txin.prevout.hash

namespace OrphanMaps

variable (maps : OrphanMaps)

def addOrphanTx (tx : CTransaction) (peer : Int) : Bool × OrphanMaps :=
  if (maps.mapOrphanTransactions.lookup tx.hash).isSome then (false, maps)
  else if 5000 < tx.serializeSize then (false, maps)
  else (true,
    { mapOrphanTransactions := maps.mapOrphanTransactions.insert tx.hash ⟨tx, peer⟩
      mapOrphanTransactionsByPrev :=
        tx.prevHashes.foldl (ReverseIndex.add tx.hash) maps.mapOrphanTransactionsByPrev })

def eraseOrphanTx (hash : UInt256) : OrphanMaps :=
  match maps.mapOrphanTransactions.lookup hash with
  | none => maps
  | some orphan =>
    { mapOrphanTransactions := maps.mapOrphanTransactions.erase hash
      mapOrphanTransactionsByPrev :=
        orphan.tx.prevHashes.foldl (ReverseIndex.remove hash) maps.mapOrphanTransactionsByPrev }

/-- `EraseOrphansFor` goes through the orphans there are when it is called. -/
def eraseOrphansFor (peer : Int) : OrphanMaps :=
  maps.mapOrphanTransactions.entries.foldl (fun maps entry =>
    if entry.2.fromPeer = peer then maps.eraseOrphanTx entry.2.tx.hash else maps) maps

/-- `lower_bound`, or the first key if that is the end. -/
def evicted (keys : List UInt256) (randomhash : UInt256) : Option UInt256 :=
  match (keys.filter fun key => randomhash ≤ key).argmin BitVec.toNat with
  | some key => some key
  | none => keys.argmin BitVec.toNat

theorem mem_of_evicted {keys : List UInt256} {randomhash key : UInt256}
    (found : evicted keys randomhash = some key) : key ∈ keys := by
  unfold evicted at found
  split at found
  · rename_i first here
    cases found
    exact List.mem_of_mem_filter (List.argmin_mem (Option.mem_def.mpr here))
  · exact List.argmin_mem (Option.mem_def.mpr found)

theorem length_eraseOrphanTx_lt {hash : UInt256} (present : hash ∈ maps.mapOrphanTransactions) :
    (maps.eraseOrphanTx hash).mapOrphanTransactions.entries.length <
      maps.mapOrphanTransactions.entries.length := by
  obtain ⟨orphan, found⟩ := Option.isSome_iff_exists.mp (AList.lookup_isSome.mpr present)
  unfold eraseOrphanTx
  rw [found]
  exact KeyedMap.length_erase_lt present

/-- `LimitOrphanTxSize`, with the random hashes. It returns how many are evicted. -/
def limitOrphanTxSize (nMaxOrphans : UInt32) (randomhash : ℕ → UInt256) (nEvicted : ℕ)
    (maps : OrphanMaps) : ℕ × OrphanMaps :=
  if nMaxOrphans.toNat < maps.mapOrphanTransactions.entries.length then
    match found : evicted maps.mapOrphanTransactions.keys (randomhash nEvicted) with
    | none => (nEvicted, maps)
    | some hash => limitOrphanTxSize nMaxOrphans randomhash (nEvicted + 1) (maps.eraseOrphanTx hash)
  else (nEvicted, maps)
  termination_by maps.mapOrphanTransactions.entries.length
  decreasing_by exact length_eraseOrphanTx_lt maps (mem_of_evicted found)

end OrphanMaps

inductive OrphanAction where
  | addOrphanTx (tx : CTransaction) (peer : Int)
  | eraseOrphanTx (hash : UInt256)
  | eraseOrphansFor (peer : Int)
  | limitOrphanTxSize (nMaxOrphans : UInt32) (randomhash : ℕ → UInt256)

def OrphanMaps.perform (maps : OrphanMaps) : OrphanAction → OrphanMaps
  | .addOrphanTx tx peer => (maps.addOrphanTx tx peer).2
  | .eraseOrphanTx hash => maps.eraseOrphanTx hash
  | .eraseOrphansFor peer => maps.eraseOrphansFor peer
  | .limitOrphanTxSize nMaxOrphans randomhash =>
    (OrphanMaps.limitOrphanTxSize nMaxOrphans randomhash 0 maps).2

/-- The second map is the reverse index of the first one. -/
structure OrphanMaps.Indexed (maps : OrphanMaps) : Prop where
  keyed : ∀ hash orphan, maps.mapOrphanTransactions.lookup hash = some orphan →
    orphan.tx.hash = hash
  index : ∀ hash prev, hash ∈ ReverseIndex.itemsAt maps.mapOrphanTransactionsByPrev prev ↔
    ∃ orphan, maps.mapOrphanTransactions.lookup hash = some orphan ∧ prev ∈ orphan.tx.prevHashes
  clean : ReverseIndex.Clean maps.mapOrphanTransactionsByPrev

namespace OrphanMaps.Indexed

variable {maps : OrphanMaps}

theorem empty : Indexed {} := by
  refine ⟨nofun, fun hash prev => ⟨fun mem => ?_, nofun⟩, nofun⟩
  exact absurd mem (Finset.notMem_empty hash)

section

variable (indexed : Indexed maps)
include indexed

theorem addOrphanTx (tx : CTransaction) (peer : Int) : Indexed (maps.addOrphanTx tx peer).2 := by
  unfold OrphanMaps.addOrphanTx
  split_ifs with known large
  · exact indexed
  · exact indexed
  · have absent : maps.mapOrphanTransactions.lookup tx.hash = none :=
      Option.not_isSome_iff_eq_none.mp known
    refine ⟨KeyedMap.forall_insert rfl indexed.keyed, fun hash prev => ?_,
      ReverseIndex.clean_foldl_add indexed.clean⟩
    rw [ReverseIndex.mem_foldl_add, indexed.index, KeyedMap.lookup_insert_eq_ite]
    split_ifs with same
    · rw [same, absent]
      simp
    · simp [same]

theorem eraseOrphanTx (hash : UInt256) : Indexed (maps.eraseOrphanTx hash) := by
  unfold OrphanMaps.eraseOrphanTx
  cases found : maps.mapOrphanTransactions.lookup hash with
  | none => exact indexed
  | some orphan =>
    refine ⟨KeyedMap.forall_erase indexed.keyed, fun other prev => ?_,
      ReverseIndex.clean_foldl_remove indexed.clean⟩
    rw [ReverseIndex.mem_foldl_remove, indexed.index, KeyedMap.lookup_erase_eq_ite]
    split_ifs with same
    · rw [same, found]
      simp
    · simp [same]

theorem eraseOrphansFor (peer : Int) : Indexed (maps.eraseOrphansFor peer) := by
  unfold OrphanMaps.eraseOrphansFor
  generalize maps.mapOrphanTransactions.entries = entries
  induction entries generalizing maps with
  | nil => exact indexed
  | cons entry entries ih =>
    rw [List.foldl_cons]
    split_ifs
    · exact ih (indexed.eraseOrphanTx entry.2.tx.hash)
    · exact ih indexed

theorem limitOrphanTxSize (nMaxOrphans : UInt32) (randomhash : ℕ → UInt256) (nEvicted : ℕ) :
    Indexed (OrphanMaps.limitOrphanTxSize nMaxOrphans randomhash nEvicted maps).2 := by
  fun_induction OrphanMaps.limitOrphanTxSize nMaxOrphans randomhash nEvicted maps with
  | case1 => exact indexed
  | case2 nEvicted maps large hash found ih => exact ih (indexed.eraseOrphanTx hash)
  | case3 => exact indexed

theorem perform (action : OrphanAction) : Indexed (maps.perform action) := by
  cases action with
  | addOrphanTx tx peer => exact indexed.addOrphanTx tx peer
  | eraseOrphanTx hash => exact indexed.eraseOrphanTx hash
  | eraseOrphansFor peer => exact indexed.eraseOrphansFor peer
  | limitOrphanTxSize nMaxOrphans randomhash =>
    exact indexed.limitOrphanTxSize nMaxOrphans randomhash 0

end

theorem of_run (operations : List OrphanAction) :
    Indexed (operations.foldl OrphanMaps.perform {}) := by
  induction operations using List.reverseRecOn with
  | nil => exact empty
  | append_singleton operations action ih =>
    rw [List.foldl_append]
    exact ih.perform action

end OrphanMaps.Indexed

theorem OrphanMaps.length_limitOrphanTxSize (maps : OrphanMaps) (nMaxOrphans : UInt32)
    (randomhash : ℕ → UInt256) (nEvicted : ℕ) :
    (limitOrphanTxSize nMaxOrphans randomhash nEvicted
      maps).2.mapOrphanTransactions.entries.length ≤ nMaxOrphans.toNat := by
  fun_induction limitOrphanTxSize nMaxOrphans randomhash nEvicted maps with
  | case1 nEvicted maps large found =>
    unfold evicted at found
    split at found
    · cases found
    · have none : maps.mapOrphanTransactions.entries = [] :=
        List.map_eq_nil_iff.mp (List.argmin_eq_none.mp found)
      rw [none] at large
      exact absurd large (Nat.not_lt_zero _)
  | case2 nEvicted maps large hash found ih => exact ih
  | case3 nEvicted maps small => exact not_lt.mp small

/-- **The orphan index is consistent** after any sequence of calls: a hash is under a transaction
exactly if it is that of an orphan that spends an output of it, and no set is empty. Limiting the
orphans ends with at most the number asked for. -/
theorem orphanIndex_consistent (operations : List OrphanAction) :
    let maps := operations.foldl OrphanMaps.perform {}
    (∀ hash prev, (∃ hashes, maps.mapOrphanTransactionsByPrev.lookup prev = some hashes ∧
        hash ∈ hashes) ↔
      ∃ orphan, maps.mapOrphanTransactions.lookup hash = some orphan ∧
        ∃ txin ∈ orphan.tx.vin, txin.prevout.hash = prev) ∧
    (∀ prev hashes, maps.mapOrphanTransactionsByPrev.lookup prev = some hashes → hashes ≠ ∅) ∧
    ∀ nMaxOrphans randomhash,
      (OrphanMaps.limitOrphanTxSize nMaxOrphans randomhash 0
        maps).2.mapOrphanTransactions.entries.length ≤ nMaxOrphans.toNat := by
  intro maps
  have indexed : maps.Indexed := .of_run operations
  refine ⟨fun hash prev => ?_, fun prev hashes found => (indexed.clean prev hashes found).ne_empty,
    fun nMaxOrphans randomhash => maps.length_limitOrphanTxSize nMaxOrphans randomhash 0⟩
  have here : (∃ hashes, maps.mapOrphanTransactionsByPrev.lookup prev = some hashes ∧
      hash ∈ hashes) ↔ hash ∈ ReverseIndex.itemsAt maps.mapOrphanTransactionsByPrev prev := by
    unfold ReverseIndex.itemsAt
    cases maps.mapOrphanTransactionsByPrev.lookup prev with
    | none => simp
    | some hashes => simp
  rw [here, indexed.index]
  simp [CTransaction.prevHashes]

end DogeCash
