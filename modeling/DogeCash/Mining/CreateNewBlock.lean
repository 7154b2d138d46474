import DogeCash.Foundation.Heap
import DogeCash.Mempool.TxMemPool
import DogeCash.Primitives.Serialize
import DogeCash.Validation.Node

/-! # Selecting transactions for a block

`CreateNewBlock` goes through the memory pool and takes down which transactions have all their
inputs in the chain, and which have to wait for others of the pool (`COrphan`). Those that are
ready are kept in a heap, by priority first and by fee rate later. The best is taken from the
heap and added to the block, if it fits and its inputs are there, and those that waited only
for it are entered in the heap.

A priority is a `double`; how it is computed is left open.
-/

namespace DogeCash

/-- `CFeeRate`, in satoshis per 1000 bytes. The quotient is one of unsigned numbers. -/
def feeRateOf (nFeePaid : Int) (nSize : ℕ) : Int :=
  if 0 < nSize then (BitVec.ofInt 64 (nFeePaid * 1000) / BitVec.ofNat 64 nSize).toInt else 0

def allowFree (dPriority : ℚ) : Bool := 576000000 < dPriority

structure TxPriority where
  dPriority : ℚ
  feeRate : Int
  ptx : CTransaction

def txPriorityCompare (byFee : Bool) (a b : TxPriority) : Bool :=
  if byFee then if a.feeRate = b.feeRate then a.dPriority < b.dPriority else a.feeRate < b.feeRate
  else if a.dPriority = b.dPriority then a.feeRate < b.feeRate
  else a.dPriority < b.dPriority

/-- `COrphan`: a transaction that waits for others. -/
structure COrphan where
  ptx : CTransaction
  setDependsOn : Finset UInt256 := ∅
  feeRate : Int := 0
  dPriority : ℚ := 0

/-- `IsFinalTx` without a time. -/
def Node.isFinalTx (node : Node) (tx : CTransaction) (nBlockHeight : Int) : Bool :=
  let height := if nBlockHeight = 0 then node.chainHeight else nBlockHeight
  let nLockTime : Int := tx.nLockTime.toNat
  tx.nLockTime = 0 ||
    nLockTime < (if nLockTime < 500000000 then height else node.getAdjustedTime) ||
    tx.vin.all fun txin => txin.nSequence = 0xffffffff

/-- What `CreateNewBlock` reads. -/
structure MinerEnv where
  node : Node
  pcoinsTip : CoinsMap
  pool : CTxMemPool
  heap : HeapOps TxPriority
  /-- The priority of a transaction of the pool, with its delta. -/
  dPriority : CTransaction → ℚ
  mapDeltas : UInt256 → Option (ℚ × Int)
  minRelayTxFee : Int
  /-- The arguments `-blockmaxsize`, `-blockprioritysize` and `-blockminsize`, or their
  defaults. -/
  blockMaxSize : Int
  blockPrioritySize : Int
  blockMinSize : Int

/-- The transactions that are ready and those that wait. A pointer to a `COrphan` is its
position in `vOrphan`, which is empty once the `COrphan` is gone. -/
structure Candidates where
  vOrphan : List (Option COrphan) := []
  mapDependers : UInt256 → List ℕ := fun _ => []
  vecPriority : List TxPriority := []

structure InputScan where
  candidates : Candidates
  porphan : Option ℕ := none
  nTotalIn : Int := 0
  fMissingInputs : Bool := false

namespace Candidates

/-- The `COrphan` of the transaction, a new one if it has none. -/
def orphanFor (candidates : Candidates) (tx : CTransaction) : Option ℕ → ℕ × List (Option COrphan)
  | some index => (index, candidates.vOrphan)
  | none => (candidates.vOrphan.length, candidates.vOrphan ++ [some { ptx := tx }])

/-- The transaction has to wait for another one. -/
def waitFor (candidates : Candidates) (tx : CTransaction) (porphan : Option ℕ) (hash : UInt256) :
    ℕ × Candidates :=
  let (index, vOrphan) := candidates.orphanFor tx porphan
  (index, { candidates with
    vOrphan := vOrphan.modify index (Option.map fun orphan =>
      { orphan with setDependsOn := insert hash orphan.setDependsOn })
    mapDependers := Function.update candidates.mapDependers hash
      (candidates.mapDependers hash ++ [index]) })

/-- `vOrphan.pop_back()`, if there is one for the transaction. -/
def dropOrphan (candidates : Candidates) : Option ℕ → Candidates
  | some index => { candidates with vOrphan := candidates.vOrphan.set index none }
  | none => candidates

end Candidates

namespace MinerEnv

variable (env : MinerEnv)

def nHeight : Int := env.node.chainHeight + 1

def poolTransactions : List CTransaction := env.pool.mapTx.entries.map fun entry => entry.2.tx

/-- A number of 64 bits in an `unsigned int`. -/
def unsignedInt (value : Int) : ℕ := (BitVec.ofInt 32 value).toNat

def nBlockMaxSize : ℕ := max 1000 (min (maxBlockSizeCurrent - 1000) (unsignedInt env.blockMaxSize))

def nBlockPrioritySize : ℕ := min env.nBlockMaxSize (unsignedInt env.blockPrioritySize)

def nBlockMinSize : ℕ := min env.nBlockMaxSize (unsignedInt env.blockMinSize)

/-! ## Going through the pool -/

/-- The loop over the inputs of a transaction of the pool. A read outside of a vector fails. -/
def gatherInputs (tx : CTransaction) : List CTxIn → InputScan → Except Failure InputScan
  | [], scan => .ok scan
  | txin :: rest, scan =>
    if tx.isZerocoinSpend then gatherInputs tx rest { scan with nTotalIn := tx.getZerocoinSpent }
    else if !env.pcoinsTip.haveCoins txin.prevout.hash then
      match env.pool.mapTx.lookup txin.prevout.hash with
      | none => .ok { scan with
          fMissingInputs := true, candidates := scan.candidates.dropOrphan scan.porphan }
      | some entry =>
        let (index, candidates) := scan.candidates.waitFor tx scan.porphan txin.prevout.hash
        match entry.tx.vout[txin.prevout.n.toNat]? with
        | none => .error .assertion
        | some out => gatherInputs tx rest { scan with
            porphan := some index
            candidates := candidates
            nTotalIn := scan.nTotalIn + out.nValue }
    else if env.node.containsOutPoint txin.prevout then .ok { scan with fMissingInputs := true }
    else
      match (env.pcoinsTip txin.prevout.hash).vout[txin.prevout.n.toNat]? with
      | none => .error .assertion
      | some out => gatherInputs tx rest { scan with nTotalIn := scan.nTotalIn + out.nValue }

/-- The fee delta of `ApplyDeltas`. -/
def nFeeDelta (hash : UInt256) : Int := ((env.mapDeltas hash).map Prod.snd).getD 0

/-- The priority delta of `ApplyDeltas`. -/
def dPriorityDelta (hash : UInt256) : ℚ := ((env.mapDeltas hash).map Prod.fst).getD 0

/-- The transaction is entered in the heap, or its `COrphan` is completed. -/
def enter (tx : CTransaction) (scan : InputScan) (nValueOut : Int) : Candidates :=
  let feeRate := feeRateOf (scan.nTotalIn + env.nFeeDelta tx.hash - nValueOut) tx.serializeSize
  let dPriority := env.dPriority tx
  match scan.porphan with
  | some index => { scan.candidates with
      vOrphan := scan.candidates.vOrphan.modify index (Option.map fun orphan =>
        { orphan with dPriority := dPriority, feeRate := feeRate }) }
  | none => { scan.candidates with
      vecPriority := scan.candidates.vecPriority ++ [⟨dPriority, feeRate, tx⟩] }

def passedOver (tx : CTransaction) : Bool :=
  tx.isCoinBase || tx.isCoinStake || !env.node.isFinalTx tx env.nHeight ||
    (env.node.isSporkActive .zerocoinMaintenanceMode && tx.containsZerocoins)

def gatherTransaction (candidates : Candidates) (tx : CTransaction) : Except Failure Candidates :=
  if env.passedOver tx then .ok candidates
  else
    env.gatherInputs tx tx.vin { candidates := candidates } >>= fun scan =>
      if scan.fMissingInputs then .ok scan.candidates
      else tx.getValueOutOrThrow >>= fun nValueOut => .ok (env.enter tx scan nValueOut)

def gather : Except Failure Candidates := env.poolTransactions.foldlM env.gatherTransaction {}

end MinerEnv

/-! ## Selecting -/

/-- The state of the loop that adds transactions to the block. -/
structure Selection where
  view : CoinsMap
  vOrphan : List (Option COrphan)
  vecPriority : List TxPriority
  fSortedByFee : Bool
  nBlockSize : ℕ := 1000
  nBlockTx : ℕ := 0
  nBlockSigOps : ℕ := 100
  nFees : Int := 0
  vBlockSerials : List Int := []
  vTxSerials : List Int := []
  /-- What was added to the transactions of the block. -/
  vtx : List CTransaction := []
  vTxFees : List Int := []
  vTxSigOps : List ℕ := []

namespace MinerEnv

variable (env : MinerEnv) (mapDependers : UInt256 → List ℕ)

/-- A free transaction past the minimum size. -/
def skipsFree (priority : TxPriority) (selection : Selection) : Bool :=
  !priority.ptx.isZerocoinSpend && selection.fSortedByFee &&
    (env.dPriorityDelta priority.ptx.hash ≤ 0) && (env.nFeeDelta priority.ptx.hash ≤ 0) &&
    (priority.feeRate < env.minRelayTxFee) &&
    (env.nBlockMinSize ≤ selection.nBlockSize + priority.ptx.serializeSize)

/-- Go over to the order by fee rate. -/
def resort (priority : TxPriority) (selection : Selection) : Selection :=
  if !selection.fSortedByFee &&
      ((env.nBlockPrioritySize ≤ selection.nBlockSize + priority.ptx.serializeSize) ||
        !allowFree priority.dPriority) then
    { selection with
      fSortedByFee := true
      vecPriority := env.heap.makeHeap (txPriorityCompare true) selection.vecPriority }
  else selection

/-- `ExtractVersionFromSerial`: a serial of version 2 has the first four bits set, or is too
large for 256 bits. -/
def extractVersionFromSerial (bnSerial : Int) : ℕ :=
  if 2 ^ 256 ≤ bnSerial.natAbs then 2 else if bnSerial.natAbs / 2 ^ 252 = 0xf then 2 else 1

/-- The loop over the spends of a transaction: whether there is an invalid serial or one that was
seen before. -/
def scanSerials (vBlockSerials : List Int) : List CTxIn → List Int →
    Except Failure (Bool × List Int)
  | [], vTxSerials => .ok (false, vTxSerials)
  | txIn :: rest, vTxSerials =>
    if CScript.isZerocoinSpend txIn.scriptSig then
      match env.node.zerocoin.txInToZerocoinSpend txIn with
      | none => .error .exception
      | some spend =>
        if !spend.hasValidSerial (extractVersionFromSerial spend.coinSerialNumber < 2) ||
            vBlockSerials.contains spend.coinSerialNumber ||
            vTxSerials.contains spend.coinSerialNumber then .ok (true, vTxSerials)
        else scanSerials vBlockSerials rest (vTxSerials ++ [spend.coinSerialNumber])
    else scanSerials vBlockSerials rest vTxSerials

def checkSerials (tx : CTransaction) (selection : Selection) : Except Failure (Bool × List Int) :=
  if !tx.isZerocoinSpend then .ok (false, selection.vTxSerials)
  else if (env.node.isTransactionInChain tx.hash).isSome then .ok (true, selection.vTxSerials)
  else env.scanSerials selection.vBlockSerials tx.vin selection.vTxSerials

/-- One round of the loop over those that depend on a transaction. -/
def release (hash : UInt256) (selection : Selection) (index : ℕ) : Except Failure Selection :=
  match selection.vOrphan[index]? with
  | some (some orphan) =>
    if orphan.setDependsOn = ∅ then .ok selection
    else
      let left := orphan.setDependsOn.erase hash
      let vOrphan := selection.vOrphan.set index (some { orphan with setDependsOn := left })
      if left = ∅ then
        .ok { selection with
          vOrphan := vOrphan
          vecPriority := env.heap.pushHeap (txPriorityCompare selection.fSortedByFee)
            (selection.vecPriority ++ [⟨orphan.dPriority, orphan.feeRate, orphan.ptx⟩]) }
      else .ok { selection with vOrphan := vOrphan }
  | _ => .error .assertion

def addTx (tx : CTransaction) (nTxFees : Int) (nTxSigOps : ℕ) (view : CoinsMap)
    (selection : Selection) : Except Failure Selection :=
  (mapDependers tx.hash).foldlM (env.release tx.hash) { selection with
    view := view
    vtx := selection.vtx ++ [tx]
    vTxFees := selection.vTxFees ++ [nTxFees]
    vTxSigOps := selection.vTxSigOps ++ [nTxSigOps]
    nBlockSize := selection.nBlockSize + tx.serializeSize
    nBlockTx := selection.nBlockTx + 1
    nBlockSigOps := selection.nBlockSigOps + nTxSigOps
    nFees := selection.nFees + nTxFees
    vBlockSerials := selection.vBlockSerials ++ selection.vTxSerials }

/-- The checks with the coins that the transaction spends. -/
def considerCoins (tx : CTransaction) (selection : Selection) : Except Failure Selection :=
  tx.getValueOutOrThrow >>= fun nValueOut =>
    let nTxFees := selection.view.getValueIn tx - nValueOut
    let nTxSigOps := tx.getLegacySigOpCount + selection.view.getP2SHSigOpCount tx
    if maxBlockSigOps ≤ selection.nBlockSigOps + nTxSigOps then .ok selection
    else
      match CheckInputs.checkInputs env.node.params env.node.script env.nHeight selection.view
          .mandatory true tx with
      | .error (.invalid _ _) => .ok selection
      | .error (.script _ _) => .ok selection
      | .error failure => .error failure
      | .ok () =>
        match selection.view.updateCoins tx (Int32.ofInt env.nHeight) with
        | none => .error .assertion
        | some (view, _) => env.addTx mapDependers tx nTxFees nTxSigOps view selection

/-- The checks from `HaveInputs` on. -/
def considerInputs (tx : CTransaction) (selection : Selection) : Except Failure Selection :=
  if !selection.view.haveInputs tx then .ok selection
  else
    env.checkSerials tx selection >>= fun (fDoubleSerial, vTxSerials) =>
      let selection := { selection with vTxSerials := vTxSerials }
      if fDoubleSerial then .ok selection else env.considerCoins mapDependers tx selection

def consider (priority : TxPriority) (selection : Selection) : Except Failure Selection :=
  let nTxSize := priority.ptx.serializeSize
  if env.nBlockMaxSize ≤ selection.nBlockSize + nTxSize then .ok selection
  else if maxBlockSigOps ≤ selection.nBlockSigOps + priority.ptx.getLegacySigOpCount then
    .ok selection
  else if env.skipsFree priority selection then .ok selection
  else env.considerInputs mapDependers priority.ptx (env.resort priority selection)

/-- The loop, with a bound for the number of rounds. -/
def selectLoop : ℕ → Selection → Option (Except Failure Selection)
  | rounds, selection =>
    match selection.vecPriority, rounds with
    | [], _ => some (.ok selection)
    | _ :: _, 0 => none
    | first :: _, rounds + 1 =>
      match env.consider mapDependers first { selection with
          vecPriority := env.heap.removeFirst (txPriorityCompare selection.fSortedByFee)
            selection.vecPriority } with
      | .error failure => some (.error failure)
      | .ok next => selectLoop rounds next

variable {env mapDependers} in
theorem selectLoop_of_empty {rounds : ℕ} {selection : Selection}
    (empty : selection.vecPriority = []) :
    env.selectLoop mapDependers rounds selection = some (.ok selection) := by
  unfold selectLoop
  rw [empty]

variable {env mapDependers} in
theorem selectLoop_of_ok {rounds : ℕ} {selection next : Selection} {first : TxPriority}
    {rest : List TxPriority} (heap : selection.vecPriority = first :: rest)
    (considers : env.consider mapDependers first { selection with
      vecPriority := env.heap.removeFirst (txPriorityCompare selection.fSortedByFee)
        selection.vecPriority } = .ok next) :
    env.selectLoop mapDependers (rounds + 1) selection =
      env.selectLoop mapDependers rounds next := by
  rw [heap] at considers
  conv_lhs => unfold selectLoop
  rw [heap]
  dsimp only
  rw [considers]

def startSelection (candidates : Candidates) : Selection :=
  let fSortedByFee : Bool := env.nBlockPrioritySize ≤ 0
  { view := env.pcoinsTip
    vOrphan := candidates.vOrphan
    vecPriority := env.heap.makeHeap (txPriorityCompare fSortedByFee) candidates.vecPriority
    fSortedByFee := fSortedByFee }

/-- The selection of `CreateNewBlock`, with as many rounds as the pool has transactions. -/
def selectTransactions : Option (Except Failure Selection) :=
  match env.gather with
  | .error failure => some (.error failure)
  | .ok candidates =>
    env.selectLoop candidates.mapDependers env.poolTransactions.length
      (env.startSelection candidates)

def selectedTransactions : Option (List CTransaction) :=
  match env.selectTransactions with
  | some (.ok selection) => some selection.vtx
  | _ => none

end MinerEnv

end DogeCash
