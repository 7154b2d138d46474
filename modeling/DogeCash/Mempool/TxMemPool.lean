import DogeCash.Chain.Params
import DogeCash.Coins.Coins
import DogeCash.Foundation.KeyedMap
import DogeCash.Foundation.Run

/-! # The memory pool

`CTxMemPool` keeps transactions that wait for a block in `mapTx` and, in `mapNextTx`, which
of them spends an output. A zerocoin spend is not entered in `mapNextTx`, but what removes a
transaction erases the prevouts of its inputs there for every kind of transaction.
-/

namespace DogeCash

/-- `CTxMemPoolEntry`, with the fields the pool itself reads. -/
structure CTxMemPoolEntry where
  tx : CTransaction
  nTxSize : BitVec 64

/-- `CInPoint`: an input of a transaction of the pool. -/
structure CInPoint where
  ptx : CTransaction
  n : Nat
  deriving DecidableEq

/-- `CTxMemPool`. An entry is kept under the id of its transaction. -/
structure CTxMemPool where
  mapTx : AList fun _ : UInt256 => CTxMemPoolEntry
  mapNextTx : COutPoint → Option CInPoint
  /-- The `uint64_t` sum of the sizes of the transactions. -/
  totalTxSize : BitVec 64
  nTransactionsUpdated : UInt32
  keyed : ∀ hash entry, mapTx.lookup hash = some entry → entry.tx.hash = hash

namespace CTxMemPool

def empty : CTxMemPool where
  mapTx := ∅
  mapNextTx _ := none
  totalTxSize := 0
  nTransactionsUpdated := 0
  keyed _ _ held := by cases held

/-- Enter an input of a transaction in `mapNextTx`. -/
def enterInput (tx : CTransaction) (mapNextTx : COutPoint → Option CInPoint)
    (input : CTxIn × Nat) : COutPoint → Option CInPoint :=
  Function.update mapNextTx input.1.prevout (some ⟨tx, input.2⟩)

/-- Enter the inputs of a transaction in `mapNextTx`, one after another. -/
def enterInputs (tx : CTransaction) (mapNextTx : COutPoint → Option CInPoint) :
    COutPoint → Option CInPoint :=
  tx.vin.zipIdx.foldl (enterInput tx) mapNextTx

/-- Erase what inputs claim from `mapNextTx`. -/
def eraseInputs (vin : List CTxIn) (mapNextTx : COutPoint → Option CInPoint) :
    COutPoint → Option CInPoint :=
  vin.foldl (fun next txin => Function.update next txin.prevout none) mapNextTx

/-- `CTxMemPool::addUnchecked`, with the id of the transaction. -/
def addUnchecked (pool : CTxMemPool) (entry : CTxMemPoolEntry) : CTxMemPool where
  mapTx := pool.mapTx.insert entry.tx.hash entry
  mapNextTx :=
    if entry.tx.isZerocoinSpend then pool.mapNextTx else enterInputs entry.tx pool.mapNextTx
  totalTxSize := pool.totalTxSize + entry.nTxSize
  nTransactionsUpdated := pool.nTransactionsUpdated + 1
  keyed := KeyedMap.forall_insert rfl pool.keyed

/-- Remove an entry with what its inputs claim. -/
def removeEntry (pool : CTxMemPool) (hash : UInt256) (entry : CTxMemPoolEntry) : CTxMemPool where
  mapTx := pool.mapTx.erase hash
  mapNextTx := eraseInputs entry.tx.vin pool.mapNextTx
  totalTxSize := pool.totalTxSize - entry.nTxSize
  nTransactionsUpdated := pool.nTransactionsUpdated + 1
  keyed := KeyedMap.forall_erase pool.keyed

def children (pool : CTxMemPool) (hash : UInt256) (outputs : Nat) : List UInt256 :=
  (List.range outputs).filterMap fun i =>
    (pool.mapNextTx ⟨hash, UInt32.ofNat i⟩).map fun inPoint => inPoint.ptx.hash

theorem removeEntry_shorter {pool : CTxMemPool} {hash : UInt256} {entry : CTxMemPoolEntry}
    (present : pool.mapTx.lookup hash = some entry) :
    (pool.removeEntry hash entry).mapTx.entries.length < pool.mapTx.entries.length := by
  apply KeyedMap.length_erase_lt
  rw [← AList.lookup_isSome, present]
  rfl

/-- The loop of `CTxMemPool::remove`, with the transactions removed so far. Each round
takes a transaction from the pool or shortens the queue. -/
def removeQueued (fRecursive : Bool) (txToRemove : List UInt256) (removed : List CTransaction)
    (pool : CTxMemPool) : List CTransaction × CTxMemPool :=
  match txToRemove with
  | [] => (removed, pool)
  | hash :: rest =>
    match _ : pool.mapTx.lookup hash with
    | none => removeQueued fRecursive rest removed pool
    | some entry =>
      let found := if fRecursive then pool.children hash entry.tx.vout.length else []
      removeQueued fRecursive (rest ++ found) (removed ++ [entry.tx])
        (pool.removeEntry hash entry)
termination_by (pool.mapTx.entries.length, txToRemove.length)
decreasing_by
  · exact Prod.Lex.right _ (by simp)
  · exact Prod.Lex.left _ _ (removeEntry_shorter ‹_›)

/-- `CTxMemPool::remove`. With `fRecursive` the children of a transaction that is not in
the pool are removed as well. -/
def remove (origTx : CTransaction) (removed : List CTransaction) (fRecursive : Bool)
    (pool : CTxMemPool) : List CTransaction × CTxMemPool :=
  let orphaned :=
    if fRecursive && (pool.mapTx.lookup origTx.hash).isNone then
      pool.children origTx.hash origTx.vout.length
    else []
  removeQueued fRecursive (origTx.hash :: orphaned) removed pool

/-- One round of the loop of `CTxMemPool::removeConflicts`. -/
def removeConflict (tx : CTransaction) (state : List CTransaction × CTxMemPool) (txin : CTxIn) :
    List CTransaction × CTxMemPool :=
  match state.2.mapNextTx txin.prevout with
  | none => state
  | some inPoint =>
    if inPoint.ptx.hash ≠ tx.hash then state.2.remove inPoint.ptx state.1 true else state

def removeConflicts (tx : CTransaction) (removed : List CTransaction) (pool : CTxMemPool) :
    List CTransaction × CTxMemPool :=
  tx.vin.foldl (removeConflict tx) (removed, pool)

/-- One round of the loop of `CTxMemPool::removeForBlock`. -/
def removeBlockTx (state : List CTransaction × CTxMemPool) (tx : CTransaction) :
    List CTransaction × CTxMemPool :=
  (state.2.remove tx [] false).2.removeConflicts tx state.1

/-- `CTxMemPool::removeForBlock`, without the fee estimator and the priorities. -/
def removeForBlock (vtx : List CTransaction) (conflicts : List CTransaction) (pool : CTxMemPool) :
    List CTransaction × CTxMemPool :=
  vtx.foldl removeBlockTx (conflicts, pool)

def isImmature (params : ChainParams) (nMemPoolHeight : UInt32) (coins : CCoins) : Bool :=
  (coins.fCoinBase || coins.fCoinStake) &&
    nMemPoolHeight - coins.nHeight.toUInt32 < UInt32.ofNat params.nMaturity.toNat

/-- What makes `CTxMemPool::removeCoinbaseSpends` remove a transaction: an input from outside
the pool whose coins are missing or immature. -/
def spendsImmature (params : ChainParams) (accessCoins : UInt256 → Option CCoins)
    (nMemPoolHeight : UInt32) (pool : CTxMemPool) (tx : CTransaction) : Bool :=
  tx.vin.any fun txin =>
    (pool.mapTx.lookup txin.prevout.hash).isNone &&
      ((accessCoins txin.prevout.hash).map (isImmature params nMemPoolHeight)).getD true

/-- `CTxMemPool::removeCoinbaseSpends`, which goes through `mapTx` in the order of the ids.
Without `-checkmempool` missing coins are no failed assertion. -/
def removeCoinbaseSpends (params : ChainParams) (accessCoins : UInt256 → Option CCoins)
    (nMemPoolHeight : UInt32) (pool : CTxMemPool) : CTxMemPool :=
  let entries := pool.mapTx.entries.mergeSort fun first second => first.1 ≤ second.1
  let transactionsToRemove := (entries.map fun entry => entry.2.tx).filter
    (pool.spendsImmature params accessCoins nMemPoolHeight)
  transactionsToRemove.foldl (fun pool tx => (pool.remove tx [] true).2) pool

def clear (pool : CTxMemPool) : CTxMemPool :=
  { empty with nTransactionsUpdated := pool.nTransactionsUpdated + 1 }

/-- What `AcceptToMemoryPool` asks the pool about a transaction: its id is new and, unless it
is a zerocoin spend, no transaction of the pool spends an output that it claims. -/
def acceptable (pool : CTxMemPool) (tx : CTransaction) : Bool :=
  (pool.mapTx.lookup tx.hash).isNone &&
    (tx.isZerocoinSpend || tx.vin.all fun txin => (pool.mapNextTx txin.prevout).isNone)

inductive Action where
  | addUnchecked (entry : CTxMemPoolEntry)
  | remove (tx : CTransaction) (fRecursive : Bool)
  | removeConflicts (tx : CTransaction)
  | removeForBlock (vtx : List CTransaction)
  | removeCoinbaseSpends (accessCoins : UInt256 → Option CCoins) (nMemPoolHeight : UInt32)
  | clear

/-- Perform an operation. A transaction is added only if it is acceptable. -/
def step (params : ChainParams) : Action → CTxMemPool → Option CTxMemPool
  | .addUnchecked entry, pool =>
    if pool.acceptable entry.tx then some (pool.addUnchecked entry) else none
  | .remove tx fRecursive, pool => some (pool.remove tx [] fRecursive).2
  | .removeConflicts tx, pool => some (pool.removeConflicts tx []).2
  | .removeForBlock vtx, pool => some (pool.removeForBlock vtx []).2
  | .removeCoinbaseSpends accessCoins nMemPoolHeight, pool =>
    some (pool.removeCoinbaseSpends params accessCoins nMemPoolHeight)
  | .clear, pool => some pool.clear

end CTxMemPool

end DogeCash
