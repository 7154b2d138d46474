import DogeCash.Foundation.Writes
import DogeCash.Mempool.Removal
import DogeCash.Validation.RecordedSpends

/-! # The ledger of spent serials

A node finds out whether a serial was spent in two steps: the zerocoin database leads from
the serial to the id of a transaction, and `GetTransaction` from the id to a block. Blocks
write both when they are connected; when they are disconnected, only the serials are erased.
`GetTransaction` looks into the memory pool first, and without the transaction index it finds
a transaction only as long as an output of it is unspent.

With the transaction index, every zerocoin spend of the active chain is found in its block
(`recorded_of_run`).
-/

namespace DogeCash

open List (forall_mem_cons map_cons map_map mem_cons_self mem_flatMap mem_map nodup_cons)

/-- What stays as it is while a node runs. -/
structure LedgerConfig where
  params : ChainParams
  /-- `-txindex` -/
  fTxIndex : Bool
  txInToZerocoinSpend : CTxIn → Option CoinSpend

/-- What a node keeps of the transactions of the active chain and of those that wait. -/
structure SpendLedger where
  /-- The blocks of the active chain, the tip first. -/
  chain : List CBlock
  coinSpends : Int → Option UInt256
  /-- The transaction index: a transaction and the block it was last connected in. -/
  txIndex : UInt256 → Option (CTransaction × UInt256)
  pool : CTxMemPool
  pcoinsTip : CoinsMap

/-- The ledger of a node that has only the genesis block, which is connected without being
looked at. -/
def SpendLedger.genesis (block : CBlock) : SpendLedger where
  chain := [block]
  coinSpends _ := none
  txIndex _ := none
  pool := .empty
  pcoinsTip _ := {}

/-- The way of `GetTransaction` without the transaction index: the coins of a transaction
tell its height. -/
def SpendLedger.findByCoins (ledger : SpendLedger) (txid : UInt256) :
    Option (CTransaction × UInt256) :=
  let nHeight := (ledger.pcoinsTip txid).nHeight.toInt
  if ledger.pcoinsTip.haveCoins txid ∧ 0 < nHeight then
    match ledger.chain.reverse[nHeight.toNat]? with
    | none => none
    | some block => (block.vtx.find? fun tx => tx.hash = txid).map fun tx => (tx, block.hash)
  else none

/-- The operations on the ledger. What they learn from elsewhere is an argument: the rest of
the node, the outcome of the checks of `AcceptToMemoryPool` that are not about serials, the
sizes, and the coins that `DisconnectBlock` leaves. -/
inductive LedgerAction where
  | connectTip (base : Node) (pprev : Option ChainTip) (fAlreadyChecked : Bool) (block : CBlock)
  | disconnectTip (passes : CTransaction → Bool) (size : CTransaction → BitVec 64)
      (accessCoins : UInt256 → Option CCoins) (nMemPoolHeight : UInt32) (pcoinsTip : CoinsMap)
  | acceptToMemoryPool (entry : CTxMemPoolEntry)
  | shrinkPool (action : CTxMemPool.Action)

namespace LedgerConfig

variable (config : LedgerConfig)

def serials (tx : CTransaction) : List Int :=
  (tx.zerocoinInputs.filterMap config.txInToZerocoinSpend).map CoinSpend.coinSerialNumber

def recordedSerials (tx : CTransaction) : List Int :=
  if tx.isZerocoinSpend then config.serials tx else []

/-- `GetTransaction`, with the block; it is 0 for a transaction of the memory pool. -/
def getTransaction (ledger : SpendLedger) (txid : UInt256) : Option (CTransaction × UInt256) :=
  match ledger.pool.mapTx.lookup txid with
  | some entry => some (entry.tx, 0)
  | none => if config.fTxIndex then ledger.txIndex txid else ledger.findByCoins txid

/-- `IsTransactionInChain`, with the height it finds. -/
def isTransactionInChain (ledger : SpendLedger) (txid : UInt256) : Option Int :=
  match config.getTransaction ledger txid with
  | none => none
  | some (_, hashBlock) =>
    if hashBlock = 0 then none
    else (ledger.chain.reverse.findIdx? fun block => block.hash = hashBlock).map Int.ofNat

def isSerialInBlockchain (ledger : SpendLedger) (serial : Int) : Bool :=
  match ledger.coinSpends serial with
  | none => false
  | some txid => (config.isTransactionInChain ledger txid).isSome

/-- The node that connects a block. -/
def nodeOf (base : Node) (ledger : SpendLedger) : Node :=
  { base with
    params := config.params
    zerocoin := { base.zerocoin with
      txInToZerocoinSpend := config.txInToZerocoinSpend
      readCoinSpend := ledger.coinSpends }
    isTransactionInChain := config.isTransactionInChain ledger
    fVerifyingBlocks := false }

def entryOf (pprev : Option ChainTip) (block : CBlock) (ledger : SpendLedger) : BlockEntry :=
  ⟨some block.hash, ledger.chain.length, pprev⟩

/-- `ConnectTip`. The genesis block is there from the start, and each block has one entry. -/
def connectTip (base : Node) (pprev : Option ChainTip) (fAlreadyChecked : Bool) (block : CBlock)
    (ledger : SpendLedger) : Option SpendLedger :=
  if block.hash = config.params.hashGenesisBlock ∨
      block.hash ∈ ledger.chain.map CBlock.hash then none
  else
    match (config.nodeOf base ledger).connectBlock (entryOf pprev block ledger) ledger.pcoinsTip
      ((ledger.chain.head?.map CBlock.hash).getD 0) block false fAlreadyChecked with
    | .error _ => none
    | .ok connected =>
      some {
        chain := block :: ledger.chain
        coinSpends := writeAll
          (connected.vSpends.map fun spend => (spend.1.coinSerialNumber, spend.2))
          ledger.coinSpends
        txIndex :=
          if config.fTxIndex then
            writeAll (block.vtx.map fun tx => (tx.hash, tx, block.hash)) ledger.txIndex
          else ledger.txIndex
        pool := (ledger.pool.removeForBlock block.vtx []).2
        pcoinsTip := connected.view }

/-- What `AcceptToMemoryPool` asks the pool about a transaction and, for a zerocoin spend,
the chain about its id and its serials. -/
def isAcceptable (ledger : SpendLedger) (tx : CTransaction) : Bool :=
  ledger.pool.acceptable tx &&
    (!tx.isZerocoinSpend ||
      (config.isTransactionInChain ledger tx.hash).isNone &&
        tx.zerocoinInputs.all fun txin =>
          match config.txInToZerocoinSpend txin with
          | none => false
          | some spend => !config.isSerialInBlockchain ledger spend.coinSerialNumber)

/-- What `DisconnectTip` does with a transaction of the block: it goes back to the pool, or
is removed with what depends on it. -/
def resurrect (passes : CTransaction → Bool) (size : CTransaction → BitVec 64)
    (ledger : SpendLedger) (tx : CTransaction) : SpendLedger :=
  if tx.isCoinBase || tx.isCoinStake || !(config.isAcceptable ledger tx && passes tx) then
    { ledger with pool := (ledger.pool.remove tx [] true).2 }
  else { ledger with pool := ledger.pool.addUnchecked ⟨tx, size tx⟩ }

/-- `DisconnectTip`. The tip is moved after the transactions are back in the pool. -/
def disconnectTip (passes : CTransaction → Bool) (size : CTransaction → BitVec 64)
    (accessCoins : UInt256 → Option CCoins) (nMemPoolHeight : UInt32) (pcoinsTip : CoinsMap)
    (ledger : SpendLedger) : Option SpendLedger :=
  match ledger.chain with
  | block :: below :: rest =>
    let erased := { ledger with
      coinSpends := eraseAll (block.vtx.flatMap config.recordedSerials) ledger.coinSpends
      pcoinsTip := pcoinsTip }
    let resurrected := block.vtx.foldl (config.resurrect passes size) erased
    some { resurrected with
      chain := below :: rest
      pool := resurrected.pool.removeCoinbaseSpends config.params accessCoins nMemPoolHeight }
  | _ => none

def step : LedgerAction → SpendLedger → Option SpendLedger
  | .connectTip base pprev fAlreadyChecked block, ledger =>
    config.connectTip base pprev fAlreadyChecked block ledger
  | .disconnectTip passes size accessCoins nMemPoolHeight pcoinsTip, ledger =>
    config.disconnectTip passes size accessCoins nMemPoolHeight pcoinsTip ledger
  | .acceptToMemoryPool entry, ledger =>
    if config.isAcceptable ledger entry.tx then
      some { ledger with pool := ledger.pool.addUnchecked entry }
    else none
  | .shrinkPool (.addUnchecked _), _ => none
  | .shrinkPool action, ledger =>
    (CTxMemPool.step config.params action ledger.pool).map fun pool =>
      { ledger with pool := pool }

def Identifying (genuine : CTransaction → Prop) : Prop :=
  ∀ first second, genuine first → genuine second → first.hash = second.hash → first = second

/-- The condition on an operation. A block that is connected has a hash and, if its scripts
are not checked, no input with the script of a spend outside of zerocoin spends; `genuine`
stands for the transactions that occur. -/
def Sound (genuine : CTransaction → Prop) (ledger : SpendLedger) : LedgerAction → Prop
  | .connectTip base pprev _ block =>
    block.hash ≠ 0 ∧ (∀ tx ∈ block.vtx, genuine tx) ∧
      ((config.nodeOf base ledger).fScriptChecks (entryOf pprev block ledger) = true ∨
        ∀ tx ∈ block.vtx, tx.zerocoinInputs ≠ [] → tx.isZerocoinSpend = true)
  | .acceptToMemoryPool entry => genuine entry.tx
  | _ => True

/-! ## What a run keeps -/

/-- A zerocoin spend of a block of a chain. -/
structure SpendIn (chain : List CBlock) (block : CBlock) (tx : CTransaction) : Prop where
  block_mem : block ∈ chain
  tx_mem : tx ∈ block.vtx
  isZerocoinSpend : tx.isZerocoinSpend = true

/-- Every zerocoin spend of the active chain is on record: the index leads from its id to its
block, the pool does not hide it, and the database leads from its serials to a zerocoin spend
of the same block. -/
structure Recorded (genuine : CTransaction → Prop) (ledger : SpendLedger) : Prop where
  distinct : (ledger.chain.map CBlock.hash).Nodup
  nonzero : ∀ block ∈ ledger.chain, block.hash ≠ 0
  genuine : ∀ block ∈ ledger.chain, ∀ tx ∈ block.vtx, genuine tx
  proper : ∀ block ∈ ledger.chain, ∀ tx ∈ block.vtx, tx.zerocoinInputs ≠ [] →
    tx.isZerocoinSpend = true
  indexed : ∀ block tx, SpendIn ledger.chain block tx →
    ledger.txIndex tx.hash = some (tx, block.hash)
  pooled : ∀ block tx, SpendIn ledger.chain block tx → ledger.pool.mapTx.lookup tx.hash = none
  spent : ∀ block tx, SpendIn ledger.chain block tx → ∀ serial ∈ config.serials tx,
    ∃ other, SpendIn ledger.chain block other ∧ ledger.coinSpends serial = some other.hash

variable {config} {genuine : CTransaction → Prop} {ledger next : SpendLedger} {block : CBlock}
  {tx : CTransaction}

theorem SpendIn.cons {top : CBlock} {chain : List CBlock} (spend : SpendIn chain block tx) :
    SpendIn (top :: chain) block tx :=
  ⟨List.mem_cons_of_mem _ spend.block_mem, spend.tx_mem, spend.isZerocoinSpend⟩

theorem getTransaction_of_indexed (indexing : config.fTxIndex = true)
    (indexed : ledger.txIndex tx.hash = some (tx, block.hash))
    (absent : ledger.pool.mapTx.lookup tx.hash = none) :
    config.getTransaction ledger tx.hash = some (tx, block.hash) := by
  rw [getTransaction, absent]
  rw [if_pos indexing, indexed]

theorem isTransactionInChain_ne_none (indexing : config.fTxIndex = true)
    (indexed : ledger.txIndex tx.hash = some (tx, block.hash))
    (absent : ledger.pool.mapTx.lookup tx.hash = none) (mem : block ∈ ledger.chain)
    (nonzero : block.hash ≠ 0) : config.isTransactionInChain ledger tx.hash ≠ none := by
  unfold isTransactionInChain
  rw [getTransaction_of_indexed indexing indexed absent]
  dsimp only
  rw [if_neg nonzero, ne_eq, Option.map_eq_none_iff, List.findIdx?_eq_none_iff]
  intro every
  have here := every block (List.mem_reverse.mpr mem)
  simp at here

theorem Recorded.inChain (recorded : config.Recorded genuine ledger)
    (indexing : config.fTxIndex = true) (spend : SpendIn ledger.chain block tx) :
    config.isTransactionInChain ledger tx.hash ≠ none :=
  isTransactionInChain_ne_none indexing (recorded.indexed block tx spend)
    (recorded.pooled block tx spend) spend.block_mem (recorded.nonzero block spend.block_mem)

variable {serial : Int} {pool : CTxMemPool} {base : Node} {pprev : Option ChainTip}
    {fAlreadyChecked : Bool}

theorem Recorded.isSerialInBlockchain (recorded : config.Recorded genuine ledger)
    (indexing : config.fTxIndex = true) (spend : SpendIn ledger.chain block tx)
    (spends : serial ∈ config.serials tx) : config.isSerialInBlockchain ledger serial = true := by
  obtain ⟨other, beside, written⟩ := recorded.spent block tx spend serial spends
  unfold LedgerConfig.isSerialInBlockchain
  rw [written]
  exact Option.isSome_iff_ne_none.mpr (recorded.inChain indexing beside)

/-! ### The memory pool -/

theorem lookup_addUnchecked_of_inChain (identifying : Identifying genuine) {other : CTransaction}
    {nTxSize : BitVec 64} (known : genuine tx) (new : genuine other)
    (spend : tx.isZerocoinSpend = true)
    (inChain : config.isTransactionInChain ledger tx.hash ≠ none)
    (absent : ledger.pool.mapTx.lookup tx.hash = none)
    (accepted : config.isAcceptable ledger other = true) :
    (ledger.pool.addUnchecked ⟨other, nTxSize⟩).mapTx.lookup tx.hash = none := by
  by_cases same : tx.hash = other.hash
  · have equal : tx = other := identifying tx other known new same
    subst equal
    unfold isAcceptable at accepted
    rw [spend] at accepted
    simp only [Bool.not_true, Bool.false_or, Bool.and_eq_true,
      Option.isNone_iff_eq_none] at accepted
    exact absurd accepted.2.1 inChain
  · exact (AList.lookup_insert_ne same).trans absent

theorem Recorded.withPool (recorded : config.Recorded genuine ledger)
    (absent : ∀ block tx, SpendIn ledger.chain block tx → pool.mapTx.lookup tx.hash = none) :
    config.Recorded genuine { ledger with pool := pool } where
  distinct := recorded.distinct
  nonzero := recorded.nonzero
  genuine := recorded.genuine
  proper := recorded.proper
  indexed := recorded.indexed
  pooled := absent
  spent := recorded.spent

theorem Recorded.ofShrinks (recorded : config.Recorded genuine ledger)
    (shrinks : ledger.pool.Shrinks pool) :
    config.Recorded genuine { ledger with pool := pool } :=
  recorded.withPool fun block tx spend => shrinks.lookup_eq_none (recorded.pooled block tx spend)

theorem shrinks_of_shrinkPool {action : CTxMemPool.Action}
    (stepped : config.step (.shrinkPool action) ledger = some next) :
    ∃ pool, ledger.pool.Shrinks pool ∧ next = { ledger with pool := pool } := by
  have removes : ∀ entry, action ≠ .addUnchecked entry := by
    rintro entry rfl
    cases stepped
  simp only [LedgerConfig.step] at stepped
  obtain ⟨pool, performed, rfl⟩ := Option.map_eq_some_iff.mp stepped
  exact ⟨pool, CTxMemPool.shrinks_step removes performed, rfl⟩

/-! ### Connecting a block -/

theorem mem_writes {zerocoin : ZerocoinEnv} {vtx : List CTransaction} {write : Int × UInt256}
    (same : zerocoin.txInToZerocoinSpend = config.txInToZerocoinSpend) :
    write ∈ (vtx.flatMap (·.recordedSpends zerocoin)).map
        (fun spend => (spend.1.coinSerialNumber, spend.2)) ↔
      ∃ tx ∈ vtx, tx.isZerocoinSpend = true ∧ write.1 ∈ config.serials tx ∧ write.2 = tx.hash := by
  have one : ∀ tx : CTransaction, (∃ spend ∈ tx.recordedSpends zerocoin,
      (spend.1.coinSerialNumber, spend.2) = write) ↔
      tx.isZerocoinSpend = true ∧ write.1 ∈ config.serials tx ∧ write.2 = tx.hash := by
    intro tx
    unfold CTransaction.recordedSpends CTransaction.zerocoinSpends serials
    rw [same]
    cases tx.isZerocoinSpend with
    | false => simp
    | true =>
      obtain ⟨-, -⟩ := write
      simp only [↓reduceIte, mem_map, true_and]
      constructor
      · intro listed
        obtain ⟨_, ⟨spend, mem, rfl⟩, equal⟩ := listed
        cases equal
        exact ⟨⟨spend, mem, rfl⟩, rfl⟩
      · intro spent
        obtain ⟨⟨spend, mem, rfl⟩, rfl⟩ := spent
        exact ⟨_, ⟨spend, mem, rfl⟩, rfl⟩
  rw [mem_map]
  constructor
  · intro listed
    obtain ⟨spend, mem, equal⟩ := listed
    obtain ⟨tx, inBlock, recorded⟩ := mem_flatMap.mp mem
    exact ⟨tx, inBlock, (one tx).mp ⟨spend, recorded, equal⟩⟩
  · intro spent
    obtain ⟨tx, inBlock, facts⟩ := spent
    obtain ⟨spend, recorded, equal⟩ := (one tx).mpr facts
    exact ⟨spend, mem_flatMap.mpr ⟨tx, inBlock, recorded⟩, equal⟩

/-- What a step of `ConnectTip` does: the zerocoin spends of the block are new, and so are
their serials, which are written with the ids. -/
structure Connects (config : LedgerConfig) (base : Node) (pprev : Option ChainTip)
    (block : CBlock) (ledger next : SpendLedger) : Prop where
  distinct : block.hash ∉ ledger.chain.map CBlock.hash
  fresh : ∀ tx ∈ block.vtx, tx.isZerocoinSpend = true →
    config.isTransactionInChain ledger tx.hash = none
  unspent : ∀ tx ∈ block.vtx, tx.isZerocoinSpend = true → ∀ serial ∈ config.serials tx,
    config.isSerialInBlockchain ledger serial = false
  others : (config.nodeOf base ledger).fScriptChecks (entryOf pprev block ledger) = true →
    ∀ tx ∈ block.vtx, tx.zerocoinInputs ≠ [] → tx.isZerocoinSpend = true
  chain_eq : next.chain = block :: ledger.chain
  coinSpends_eq : ∃ writes, next.coinSpends = writeAll writes ledger.coinSpends ∧
    ∀ write, write ∈ writes ↔ ∃ tx ∈ block.vtx, tx.isZerocoinSpend = true ∧
      write.1 ∈ config.serials tx ∧ write.2 = tx.hash
  txIndex_eq : config.fTxIndex = true → next.txIndex =
    writeAll (block.vtx.map fun tx => (tx.hash, tx, block.hash)) ledger.txIndex
  pool_eq : next.pool = (ledger.pool.removeForBlock block.vtx []).2

theorem connects_of_connectTip
    (stepped : config.connectTip base pprev fAlreadyChecked block ledger = some next) :
    config.Connects base pprev block ledger next := by
  unfold connectTip at stepped
  split at stepped
  · cases stepped
  · rename_i new
    rw [not_or] at new
    split at stepped
    · cases stepped
    · rename_i connected ok
      cases stepped
      obtain ⟨records, rounds⟩ := Node.connectBlock_spends ok new.1
      refine ⟨new.2, ?_, ?_, ?_, rfl, ?_, fun indexing => if_pos indexing, rfl⟩
      · intro tx mem spend
        obtain ⟨before, after, round⟩ := rounds tx mem
        exact round.fresh spend rfl
      · intro tx mem spend serial spends
        obtain ⟨before, after, round⟩ := rounds tx mem
        obtain ⟨decoded, among, rfl⟩ := mem_map.mp spends
        obtain ⟨txin, input, decodes⟩ := List.mem_filterMap.mp among
        obtain ⟨other, decodes', unspent⟩ := round.unspent spend txin input
        cases decodes.symm.trans decodes'
        exact unspent
      · intro scripts tx mem inputs
        obtain ⟨before, after, round⟩ := rounds tx mem
        by_contra notSpend
        exact inputs (round.others (by simpa using notSpend) scripts)
      · refine ⟨_, rfl, fun write => ?_⟩
        rw [records]
        exact mem_writes rfl

section

variable {base : Node} {pprev : Option ChainTip} {found : CBlock}

section

variable (connects : config.Connects base pprev block ledger next)
include connects

theorem Connects.hash_ne (recorded : config.Recorded genuine ledger)
    (identifying : Identifying genuine) (indexing : config.fTxIndex = true)
    (known : ∀ other ∈ block.vtx, genuine other) (spend : SpendIn ledger.chain found tx) :
    ∀ other ∈ block.vtx, other.hash ≠ tx.hash := by
  intro other mem same
  have equal : other = tx := identifying other tx (known other mem)
    (recorded.genuine found spend.block_mem tx spend.tx_mem) same
  subst equal
  exact recorded.inChain indexing spend (connects.fresh other mem spend.isZerocoinSpend)

theorem Connects.serial_ne (recorded : config.Recorded genuine ledger)
    (indexing : config.fTxIndex = true) (spend : SpendIn ledger.chain found tx) {serial : Int}
    (spends : serial ∈ config.serials tx) :
    ∀ other ∈ block.vtx, other.isZerocoinSpend = true → serial ∉ config.serials other := by
  intro other mem otherSpend otherSpends
  have here := recorded.isSerialInBlockchain indexing spend spends
  rw [connects.unspent other mem otherSpend serial otherSpends] at here
  cases here

theorem Connects.spendIn (spend : SpendIn next.chain found tx) :
    found = block ∧ tx ∈ block.vtx ∨ SpendIn ledger.chain found tx := by
  have mem := spend.block_mem
  rw [connects.chain_eq, List.mem_cons] at mem
  rcases mem with rfl | old
  · exact .inl ⟨rfl, spend.tx_mem⟩
  · exact .inr ⟨old, spend.tx_mem, spend.isZerocoinSpend⟩

theorem Connects.indexed (recorded : config.Recorded genuine ledger)
    (identifying : Identifying genuine) (indexing : config.fTxIndex = true)
    (known : ∀ other ∈ block.vtx, genuine other) (spend : SpendIn next.chain found tx) :
    next.txIndex tx.hash = some (tx, found.hash) := by
  rw [connects.txIndex_eq indexing]
  rcases connects.spendIn spend with ⟨rfl, mem⟩ | old
  · have named : tx.hash ∈ (found.vtx.map fun tx => (tx.hash, tx, found.hash)).map Prod.fst := by
      rw [map_map]
      exact List.mem_map_of_mem mem
    obtain ⟨value, write, written⟩ :
        ∃ value, (tx.hash, value) ∈ found.vtx.map (fun tx => (tx.hash, tx, found.hash)) ∧
          writeAll (found.vtx.map fun tx => (tx.hash, tx, found.hash)) ledger.txIndex tx.hash =
            some value := writeAll_of_mem named
    obtain ⟨other, otherMember, equal⟩ := mem_map.mp write
    rw [Prod.mk.injEq] at equal
    rw [written, ← equal.2, identifying other tx (known other otherMember) (known tx mem) equal.1]
  · rw [← recorded.indexed found tx old]
    apply writeAll_of_not_mem
    rw [map_map]
    intro named
    obtain ⟨other, mem, same⟩ := mem_map.mp named
    exact connects.hash_ne recorded identifying indexing known old other mem same

theorem Connects.spent (recorded : config.Recorded genuine ledger)
    (indexing : config.fTxIndex = true) (spend : SpendIn next.chain found tx) {serial : Int}
    (spends : serial ∈ config.serials tx) :
    ∃ other, SpendIn next.chain found other ∧ next.coinSpends serial = some other.hash := by
  obtain ⟨writes, coinSpends, mem_writes⟩ := connects.coinSpends_eq
  rw [coinSpends, connects.chain_eq]
  rcases connects.spendIn spend with ⟨rfl, mem⟩ | old
  · have named : serial ∈ writes.map Prod.fst :=
      mem_map.mpr ⟨(serial, tx.hash),
        (mem_writes _).mpr ⟨tx, mem, spend.isZerocoinSpend, spends, rfl⟩, rfl⟩
    obtain ⟨value, write, written⟩ : ∃ value, (serial, value) ∈ writes ∧
        writeAll writes ledger.coinSpends serial = some value := writeAll_of_mem named
    obtain ⟨other, otherMember, otherSpend, -, rfl⟩ := (mem_writes _).mp write
    exact ⟨other, ⟨mem_cons_self, otherMember, otherSpend⟩, written⟩
  · obtain ⟨other, beside, written⟩ := recorded.spent found tx old serial spends
    refine ⟨other, beside.cons, ?_⟩
    rw [← written]
    apply writeAll_of_not_mem
    intro named
    obtain ⟨⟨_, txid⟩, write, rfl⟩ := mem_map.mp named
    obtain ⟨above, mem, aboveSpend, aboveSpends, -⟩ := (mem_writes _).mp write
    exact connects.serial_ne recorded indexing old spends above mem aboveSpend aboveSpends

end

end

theorem Recorded.connectTip (recorded : config.Recorded genuine ledger)
    (identifying : Identifying genuine) (indexing : config.fTxIndex = true)
    (sound : config.Sound genuine ledger (.connectTip base pprev fAlreadyChecked block))
    (connects : config.Connects base pprev block ledger next) :
    config.Recorded genuine next := by
  obtain ⟨nonzero, known, scripts⟩ := sound
  constructor
  case distinct =>
    rw [connects.chain_eq, map_cons]
    exact nodup_cons.mpr ⟨connects.distinct, recorded.distinct⟩
  case nonzero =>
    rw [connects.chain_eq]
    exact forall_mem_cons.mpr ⟨nonzero, recorded.nonzero⟩
  case genuine =>
    rw [connects.chain_eq]
    exact forall_mem_cons.mpr ⟨known, recorded.genuine⟩
  case proper =>
    rw [connects.chain_eq]
    exact forall_mem_cons.mpr ⟨scripts.elim connects.others id, recorded.proper⟩
  case indexed =>
    exact fun _ _ spend => connects.indexed recorded identifying indexing known spend
  case pooled =>
    intro found tx spend
    obtain ⟨shrinks, gone⟩ := CTxMemPool.removeForBlock_removes block.vtx [] ledger.pool
    rw [connects.pool_eq]
    rcases connects.spendIn spend with ⟨rfl, mem⟩ | old
    · exact gone tx mem
    · exact shrinks.lookup_eq_none (recorded.pooled found tx old)
  case spent => exact fun _ _ spend _ spends => connects.spent recorded indexing spend spends

/-! ### Disconnecting the tip -/

variable {passes : CTransaction → Bool} {size : CTransaction → BitVec 64}

theorem lookup_resurrect (block : CBlock) (identifying : Identifying genuine)
    (indexing : config.fTxIndex = true) (known : genuine tx) (spend : tx.isZerocoinSpend = true)
    (mem : block ∈ ledger.chain) (nonzero : block.hash ≠ 0)
    (indexed : ledger.txIndex tx.hash = some (tx, block.hash))
    (absent : ledger.pool.mapTx.lookup tx.hash = none) (vtx : List CTransaction)
    (vtxKnown : ∀ other ∈ vtx, genuine other) :
    (vtx.foldl (config.resurrect passes size) ledger).pool.mapTx.lookup tx.hash = none := by
  induction vtx generalizing ledger with
  | nil => exact absent
  | cons other rest ih =>
    obtain ⟨otherKnown, restKnown⟩ := forall_mem_cons.mp vtxKnown
    rw [List.foldl_cons]
    unfold resurrect
    split_ifs with refused
    · refine ih ?_ ?_ ?_ restKnown
      · exact mem
      · exact indexed
      · exact (CTxMemPool.shrinks_remove other [] true ledger.pool).lookup_eq_none absent
    · have accepted : config.isAcceptable ledger other = true := by
        simp only [Bool.or_eq_true, Bool.not_eq_true', not_or, Bool.and_eq_false_iff,
          Bool.not_eq_false] at refused
        exact refused.2.1
      refine ih ?_ ?_ ?_ restKnown
      · exact mem
      · exact indexed
      · exact lookup_addUnchecked_of_inChain identifying known otherKnown spend
          (isTransactionInChain_ne_none indexing indexed absent mem nonzero) absent accepted

theorem foldl_resurrect (vtx : List CTransaction) (ledger : SpendLedger) :
    (vtx.foldl (config.resurrect passes size) ledger).coinSpends = ledger.coinSpends ∧
      (vtx.foldl (config.resurrect passes size) ledger).txIndex = ledger.txIndex := by
  induction vtx generalizing ledger with
  | nil => exact ⟨rfl, rfl⟩
  | cons tx rest ih =>
    rw [List.foldl_cons, (ih _).1, (ih _).2]
    unfold resurrect
    split_ifs
    · exact ⟨rfl, rfl⟩
    · exact ⟨rfl, rfl⟩

theorem Recorded.serials_disjoint {rest : List CBlock} (recorded : config.Recorded genuine ledger)
    (chain : ledger.chain = block :: rest) {found : CBlock} (spend : SpendIn rest found tx)
    (spends : serial ∈ config.serials tx) :
    serial ∉ block.vtx.flatMap config.recordedSerials := by
  intro erased
  obtain ⟨above, aboveMember, aboveSpends⟩ := mem_flatMap.mp erased
  unfold recordedSerials at aboveSpends
  split at aboveSpends
  · rename_i aboveSpend
    have lower : SpendIn ledger.chain found tx := by
      rw [chain]
      exact spend.cons
    have upper : SpendIn ledger.chain block above := by
      rw [chain]
      exact ⟨mem_cons_self, aboveMember, aboveSpend⟩
    obtain ⟨first, firstIn, firstWritten⟩ := recorded.spent found tx lower serial spends
    obtain ⟨second, secondIn, secondWritten⟩ := recorded.spent block above upper serial aboveSpends
    have sameId : first.hash = second.hash :=
      Option.some.inj (firstWritten.symm.trans secondWritten)
    have firstIndexed := recorded.indexed found first firstIn
    rw [sameId, recorded.indexed block second secondIn, Option.some.injEq,
      Prod.mk.injEq] at firstIndexed
    have distinct := recorded.distinct
    rw [chain, map_cons, nodup_cons, firstIndexed.2] at distinct
    exact distinct.1 (List.mem_map_of_mem spend.block_mem)
  · cases aboveSpends

theorem Recorded.disconnectTip (recorded : config.Recorded genuine ledger)
    (identifying : Identifying genuine) (indexing : config.fTxIndex = true)
    {accessCoins : UInt256 → Option CCoins} {nMemPoolHeight : UInt32} {pcoinsTip : CoinsMap}
    (stepped : config.disconnectTip passes size accessCoins nMemPoolHeight pcoinsTip ledger =
      some next) : config.Recorded genuine next := by
  unfold LedgerConfig.disconnectTip at stepped
  split at stepped
  · rename_i block below rest chain
    cases stepped
    have inside : ∀ found tx, SpendIn (below :: rest) found tx → SpendIn ledger.chain found tx := by
      rw [chain]
      exact fun _ _ spend => spend.cons
    have memberOf : ∀ found ∈ below :: rest, found ∈ ledger.chain := by
      rw [chain]
      exact fun _ mem => List.mem_cons_of_mem _ mem
    have tipKnown : ∀ tx ∈ block.vtx, genuine tx := by
      apply recorded.genuine
      rw [chain]
      exact mem_cons_self
    constructor
    case distinct =>
      have distinct := recorded.distinct
      rw [chain, map_cons] at distinct
      exact (nodup_cons.mp distinct).2
    case nonzero => exact fun found mem => recorded.nonzero found (memberOf found mem)
    case genuine => exact fun found mem => recorded.genuine found (memberOf found mem)
    case proper => exact fun found mem => recorded.proper found (memberOf found mem)
    case indexed =>
      intro found tx spend
      rw [(foldl_resurrect _ _).2]
      exact recorded.indexed found tx (inside found tx spend)
    case pooled =>
      intro found tx spend
      have lower := inside found tx spend
      apply (CTxMemPool.shrinks_removeCoinbaseSpends ..).lookup_eq_none
      refine lookup_resurrect found identifying indexing ?_ spend.isZerocoinSpend ?_ ?_ ?_ ?_
        block.vtx tipKnown
      · exact recorded.genuine found lower.block_mem tx lower.tx_mem
      · exact lower.block_mem
      · exact recorded.nonzero found lower.block_mem
      · exact recorded.indexed found tx lower
      · exact recorded.pooled found tx lower
    case spent =>
      intro found tx spend serial spends
      obtain ⟨other, beside, written⟩ :=
        recorded.spent found tx (inside found tx spend) serial spends
      refine ⟨other, ⟨spend.block_mem, beside.tx_mem, beside.isZerocoinSpend⟩, ?_⟩
      rw [(foldl_resurrect _ _).1]
      dsimp only
      rw [eraseAll_of_not_mem (recorded.serials_disjoint chain spend spends), written]
  · cases stepped

/-! ### Whole runs -/

/-- The condition on the genesis block: it has a hash and spends no zerocoin. -/
structure GenesisSound (genuine : CTransaction → Prop) (block : CBlock) : Prop where
  nonzero : block.hash ≠ 0
  genuine : ∀ tx ∈ block.vtx, genuine tx
  plain : ∀ tx ∈ block.vtx, tx.zerocoinInputs = []

theorem recorded_genesis (sound : GenesisSound genuine block) :
    config.Recorded genuine (.genesis block) := by
  have only : ∀ found ∈ (SpendLedger.genesis block).chain, found = block :=
    fun _ mem => List.mem_singleton.mp mem
  have none : ∀ found tx, ¬SpendIn (SpendLedger.genesis block).chain found tx := by
    intro found tx spend
    cases only found spend.block_mem
    exact CTransaction.zerocoinInputs_ne_nil spend.isZerocoinSpend
      (sound.plain tx spend.tx_mem)
  constructor
  case distinct => exact List.nodup_singleton _
  case nonzero =>
    intro found mem
    cases only found mem
    exact sound.nonzero
  case genuine =>
    intro found mem
    cases only found mem
    exact sound.genuine
  case proper =>
    intro found mem tx inBlock inputs
    cases only found mem
    exact absurd (sound.plain tx inBlock) inputs
  case indexed => exact fun found tx spend => absurd spend (none found tx)
  case pooled => exact fun found tx spend => absurd spend (none found tx)
  case spent => exact fun found tx spend => absurd spend (none found tx)

/-- **A step keeps the record.** -/
theorem Recorded.step
    (identifying : Identifying genuine) (indexing : config.fTxIndex = true) (action : LedgerAction)
    (sound : config.Sound genuine ledger action) (recorded : config.Recorded genuine ledger)
    (stepped : config.step action ledger = some next) : config.Recorded genuine next := by
  cases action with
  | connectTip base pprev fAlreadyChecked block =>
    exact recorded.connectTip identifying indexing sound (connects_of_connectTip stepped)
  | disconnectTip passes size accessCoins nMemPoolHeight pcoinsTip =>
    exact recorded.disconnectTip identifying indexing stepped
  | acceptToMemoryPool entry =>
    unfold LedgerConfig.step at stepped
    dsimp only at stepped
    split at stepped
    · rename_i accepted
      cases stepped
      refine recorded.withPool fun block tx spend => ?_
      exact lookup_addUnchecked_of_inChain identifying
        (recorded.genuine block spend.block_mem tx spend.tx_mem) sound spend.isZerocoinSpend
        (recorded.inChain indexing spend) (recorded.pooled block tx spend) accepted
    · cases stepped
  | shrinkPool action =>
    obtain ⟨pool, shrinks, rfl⟩ := shrinks_of_shrinkPool stepped
    exact recorded.ofShrinks shrinks

/-- **With the transaction index the record is kept in every run.** -/
theorem recorded_of_run
    (identifying : Identifying genuine) (indexing : config.fTxIndex = true)
    {actions : List LedgerAction}
    (meets : RunMeets config.step (config.Sound genuine) actions ledger)
    (runs : run config.step actions ledger = some next)
    (start : config.Recorded genuine ledger) : config.Recorded genuine next :=
  RunMeets.invariant (config.Recorded genuine) meets
    (fun action _ _ sound recorded stepped =>
      recorded.step identifying indexing action sound stepped) runs start

end LedgerConfig

end DogeCash
