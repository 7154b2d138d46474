import DogeCash.Mempool.PoolSerials
import DogeCash.Zerocoin.ForkedStake

/-! # Serials are spent once

`CheckBlock` compares the serials of a block with one another and `ConnectBlock` with those
of the chain, which it finds by way of the transaction that spends them. As long as that
transaction is found, no serial is spent twice, and the database leads from each serial of
the chain to the transaction that spends it (`spentOnce_of_run`). The transaction index finds
every transaction; without it one is found only while an output of it is unspent.
-/

namespace DogeCash

open List (mem_cons mem_flatMap)

namespace LedgerConfig

variable (config : LedgerConfig)

def blockSerials (block : CBlock) : List Int := block.vtx.flatMap config.serials

/-- No serial is spent by two inputs of the chain, and the database leads from a serial to
the transaction of the chain that spends it. -/
structure SpentOnce (ledger : SpendLedger) : Prop where
  once : (ledger.chain.flatMap config.blockSerials).Nodup
  recorded : ∀ serial txid, ledger.coinSpends serial = some txid ↔
    ∃ block ∈ ledger.chain, ∃ tx ∈ block.vtx, tx.hash = txid ∧ serial ∈ config.serials tx

/-- A chain without zerocoin spends and an empty database. The hashes are those of blocks. -/
structure Unspent (genuine : CTransaction → Prop) (ledger : SpendLedger) : Prop where
  distinct : (ledger.chain.map CBlock.hash).Nodup
  nonzero : ∀ block ∈ ledger.chain, block.hash ≠ 0
  genuine : ∀ block ∈ ledger.chain, ∀ tx ∈ block.vtx, genuine tx
  plain : ∀ block ∈ ledger.chain, ∀ tx ∈ block.vtx, tx.zerocoinInputs = []
  empty : ∀ serial, ledger.coinSpends serial = none

/-- `CheckBlock` accepts the block, at whatever state of the node. -/
def CheckedBlock (block : CBlock) : Prop :=
  ∃ node : Node, ∃ fCheckMerkleRoot,
    node.zerocoin.txInToZerocoinSpend = config.txInToZerocoinSpend ∧
      node.checkBlock block fCheckMerkleRoot = .ok ()

/-- A transaction of the chain has an unspent output, and the mempool has not got it. -/
structure Traceable (ledger : SpendLedger) (found : CBlock) (tx : CTransaction) : Prop where
  absent : ledger.pool.mapTx.lookup tx.hash = none
  haveCoins : ledger.pcoinsTip.haveCoins tx.hash = true
  height : ledger.chain.reverse[(ledger.pcoinsTip tx.hash).nHeight.toInt.toNat]? = some found
  later : 0 < (ledger.pcoinsTip tx.hash).nHeight.toInt

/-- The condition on an operation: a block that is connected has passed `CheckBlock` and,
without the transaction index, the transactions of the chain whose serials it spends again
have unspent outputs. -/
def Lookable (ledger : SpendLedger) : LedgerAction → Prop
  | .connectTip _ _ _ block => config.CheckedBlock block ∧
      (config.fTxIndex = true ∨ ∀ found ∈ ledger.chain, ∀ tx ∈ found.vtx,
        (∃ serial ∈ config.serials tx, serial ∈ config.blockSerials block) →
          Traceable ledger found tx)
  | _ => True

variable {config} {genuine : CTransaction → Prop} {ledger next : SpendLedger} {block : CBlock}
  {tx : CTransaction}

/-! ## One block -/

theorem serials_eq_nil (plain : tx.zerocoinInputs = []) : config.serials tx = [] := by
  unfold serials
  rw [plain]
  rfl

theorem recordedSerials_eq (proper : ∀ tx ∈ block.vtx, tx.zerocoinInputs ≠ [] →
      tx.isZerocoinSpend = true) :
    block.vtx.flatMap config.recordedSerials = config.blockSerials block := by
  apply List.flatMap_congr
  intro tx mem
  unfold recordedSerials
  split_ifs with spend
  · rfl
  · exact (serials_eq_nil (by_contra fun inputs => spend (proper tx mem inputs))).symm

theorem serials_of_collectSerials {node : Node} {txin : CTxIn} {before after : List Int}
    (collected : node.collectSerials before txin = .ok after) (distinct : before.Nodup) :
    after.Nodup ∧ after = (node.serialOf txin).reverse ++ before := by
  unfold Node.collectSerials at collected
  cases decodes : node.zerocoin.txInToZerocoinSpend txin with
  | none =>
    rw [decodes] at collected
    cases collected
  | some spend =>
    rw [decodes] at collected
    obtain ⟨new, collected⟩ := require_bind_eq_ok.mp collected
    cases collected
    rw [Bool.not_eq_true', List.contains_eq_mem, decide_eq_false_iff_not] at new
    rw [Node.serialOf, decodes]
    exact ⟨List.nodup_cons.mpr ⟨new, distinct⟩, rfl⟩

theorem CheckedBlock.nodup (checked : config.CheckedBlock block) :
    (block.vtx.flatMap config.recordedSerials).Nodup := by
  obtain ⟨node, fCheckMerkleRoot, library, passed⟩ := checked
  obtain ⟨_, -, passed⟩ := bind_eq_ok.mp passed
  obtain ⟨_, -, passed⟩ := bind_eq_ok.mp passed
  obtain ⟨-, passed⟩ := require_bind_eq_ok.mp passed
  obtain ⟨_, -, passed⟩ := bind_eq_ok.mp passed
  obtain ⟨_, -, passed⟩ := bind_eq_ok.mp passed
  obtain ⟨_, -, passed⟩ := bind_eq_ok.mp passed
  obtain ⟨fColdStakingActive, -, passed⟩ := bind_eq_ok.mp passed
  obtain ⟨serials, loop, -⟩ := bind_eq_ok.mp passed
  obtain ⟨nodup, collected⟩ := foldlM_nodup id config.recordedSerials
    (fun tx before after stepped distinct => by
      obtain ⟨_, -, stepped⟩ := bind_eq_ok.mp stepped
      unfold recordedSerials
      split_ifs at stepped ⊢ with spend
      · have inner := foldlM_nodup id node.serialOf
          (fun _ _ _ collected distinct => serials_of_collectSerials collected distinct) stepped
          distinct
        rw [Node.flatMap_serialOf, library] at inner
        exact inner
      · cases stepped
        exact ⟨distinct, rfl⟩)
    loop List.nodup_nil
  have whole : serials = (block.vtx.flatMap config.recordedSerials).reverse := by
    rw [show serials = id serials from rfl, collected]
    exact List.append_nil _
  rw [← List.nodup_reverse, ← whole]
  exact nodup

/-! ## What a run keeps -/

/-- What is kept besides: the blocks of the chain have hashes, and only zerocoin spends have
inputs with the script of a spend. With the index every spend is on record. -/
structure SpendsKept (config : LedgerConfig) (genuine : CTransaction → Prop)
    (ledger : SpendLedger) : Prop where
  spentOnce : config.SpentOnce ledger
  nonzero : ∀ block ∈ ledger.chain, block.hash ≠ 0
  proper : ∀ block ∈ ledger.chain, ∀ tx ∈ block.vtx, tx.zerocoinInputs ≠ [] →
    tx.isZerocoinSpend = true
  indexed : config.fTxIndex = true → config.Recorded genuine ledger

theorem spendsKept_of_unspent (unspent : Unspent genuine ledger) :
    config.SpendsKept genuine ledger := by
  have none : ∀ found tx, ¬SpendIn ledger.chain found tx := fun found tx spend =>
    CTransaction.zerocoinInputs_ne_nil spend.isZerocoinSpend
      (unspent.plain found spend.block_mem tx spend.tx_mem)
  have noSerials : ∀ found ∈ ledger.chain, ∀ tx ∈ found.vtx, config.serials tx = [] :=
    fun found mem tx inBlock => serials_eq_nil (unspent.plain found mem tx inBlock)
  constructor
  case spentOnce =>
    constructor
    · have nothing : ledger.chain.flatMap config.blockSerials = [] :=
        List.flatMap_eq_nil_iff.mpr fun found mem =>
          List.flatMap_eq_nil_iff.mpr (noSerials found mem)
      rw [nothing]
      exact List.nodup_nil
    · intro serial txid
      rw [unspent.empty serial]
      constructor
      · exact nofun
      · rintro ⟨found, mem, tx, inBlock, -, spends⟩
        rw [noSerials found mem tx inBlock] at spends
        cases spends
  case nonzero => exact unspent.nonzero
  case proper =>
    exact fun found mem tx inBlock inputs =>
      absurd (unspent.plain found mem tx inBlock) inputs
  case indexed =>
    intro _
    constructor
    case distinct => exact unspent.distinct
    case nonzero => exact unspent.nonzero
    case genuine => exact unspent.genuine
    case proper =>
      exact fun found mem tx inBlock inputs =>
        absurd (unspent.plain found mem tx inBlock) inputs
    case indexed => exact fun found tx spend => absurd spend (none found tx)
    case pooled => exact fun found tx spend => absurd spend (none found tx)
    case spent => exact fun found tx spend => absurd spend (none found tx)

theorem Traceable.inChain {found : CBlock} (traceable : Traceable ledger found tx)
    (nonzero : ∀ block ∈ ledger.chain, block.hash ≠ 0) (mem : tx ∈ found.vtx)
    (unindexed : config.fTxIndex = false) :
    config.isTransactionInChain ledger tx.hash ≠ none := by
  have foundMem : found ∈ ledger.chain :=
    List.mem_reverse.mp (List.mem_of_getElem? traceable.height)
  obtain ⟨other, located⟩ : ∃ other, found.vtx.find? (fun other => other.hash = tx.hash) =
      some other := by
    apply Option.isSome_iff_exists.mp
    rw [List.find?_isSome]
    exact ⟨tx, mem, decide_eq_true rfl⟩
  have transaction : config.getTransaction ledger tx.hash = some (other, found.hash) := by
    unfold getTransaction
    rw [traceable.absent, unindexed]
    rw [if_neg Bool.false_ne_true, SpendLedger.findByCoins]
    rw [if_pos ⟨traceable.haveCoins, traceable.later⟩, traceable.height]
    dsimp only
    rw [located]
    rfl
  unfold isTransactionInChain
  rw [transaction]
  dsimp only
  rw [if_neg (nonzero found foundMem), ne_eq, Option.map_eq_none_iff, List.findIdx?_eq_none_iff]
  intro every
  have here := every found (List.mem_reverse.mpr foundMem)
  simp at here

variable {base : Node} {pprev : Option ChainTip} {fAlreadyChecked : Bool}

theorem SpendsKept.fresh (kept : config.SpendsKept genuine ledger)
    (connects : config.Connects base pprev block ledger next)
    (proper : ∀ tx ∈ block.vtx, tx.zerocoinInputs ≠ [] → tx.isZerocoinSpend = true)
    (lookable : config.Lookable ledger (.connectTip base pprev fAlreadyChecked block)) :
    List.Disjoint (config.blockSerials block) (ledger.chain.flatMap config.blockSerials) := by
  intro serial above below
  obtain ⟨found, foundMem, inFound⟩ := mem_flatMap.mp below
  obtain ⟨tx, mem, spends⟩ := mem_flatMap.mp inFound
  obtain ⟨upper, upperMem, upperSpends⟩ := mem_flatMap.mp above
  have isSpend : ∀ {tx : CTransaction}, serial ∈ config.serials tx → tx.zerocoinInputs ≠ [] := by
    intro tx spends plain
    rw [serials_eq_nil plain] at spends
    cases spends
  have written : ledger.coinSpends serial = some tx.hash :=
    (kept.spentOnce.recorded serial tx.hash).mpr ⟨found, foundMem, tx, mem, rfl, spends⟩
  have inChain : config.isTransactionInChain ledger tx.hash ≠ none := by
    cases indexing : config.fTxIndex with
    | true =>
      have properly := kept.proper found foundMem tx mem (isSpend spends)
      exact (kept.indexed indexing).inChain indexing ⟨foundMem, mem, properly⟩
    | false =>
      rcases lookable.2 with index | traceable
      · rw [indexing] at index
        cases index
      · exact (traceable found foundMem tx mem ⟨serial, spends, above⟩).inChain kept.nonzero
          mem indexing
  have unknown := connects.unspent upper upperMem (proper upper upperMem (isSpend upperSpends))
    serial upperSpends
  unfold isSerialInBlockchain at unknown
  rw [written] at unknown
  rw [Option.isSome_eq_false_iff, Option.isNone_iff_eq_none] at unknown
  exact inChain unknown

theorem eq_of_nodup_blockSerials (nodup : (config.blockSerials block).Nodup)
    {first second : CTransaction} (firstMem : first ∈ block.vtx) (secondMem : second ∈ block.vtx)
    {serial : Int} (firstSpends : serial ∈ config.serials first)
    (secondSpends : serial ∈ config.serials second) : first = second := by
  by_contra ne
  have apart : block.vtx.Pairwise fun first second =>
      List.Disjoint (config.serials first) (config.serials second) :=
    (List.nodup_flatMap.mp nodup).2
  have symmetric : Std.Symm fun first second =>
      List.Disjoint (config.serials first) (config.serials second) :=
    ⟨fun _ _ disjoint => disjoint.symm⟩
  exact apart.forall firstMem secondMem ne firstSpends secondSpends

/-- The database after a block is connected. -/
theorem Connects.recorded (connects : config.Connects base pprev block ledger next)
    (spentOnce : config.SpentOnce ledger)
    (proper : ∀ tx ∈ block.vtx, tx.zerocoinInputs ≠ [] → tx.isZerocoinSpend = true)
    (fresh : List.Disjoint (config.blockSerials block)
      (ledger.chain.flatMap config.blockSerials)) (own : (config.blockSerials block).Nodup)
    (serial : Int) (txid : UInt256) :
    next.coinSpends serial = some txid ↔
      ∃ found ∈ next.chain, ∃ tx ∈ found.vtx, tx.hash = txid ∧ serial ∈ config.serials tx := by
  obtain ⟨writes, coinSpends, mem_writes⟩ := connects.coinSpends_eq
  rw [coinSpends, connects.chain_eq]
  have named_iff : serial ∈ writes.map Prod.fst ↔ serial ∈ config.blockSerials block := by
    unfold blockSerials
    rw [List.mem_map, mem_flatMap]
    constructor
    · rintro ⟨write, mem, rfl⟩
      obtain ⟨tx, inBlock, -, spends, -⟩ := (mem_writes write).mp mem
      exact ⟨tx, inBlock, spends⟩
    · rintro ⟨tx, inBlock, spends⟩
      have isSpend := proper tx inBlock fun plain => by
        rw [serials_eq_nil plain] at spends
        cases spends
      exact ⟨(serial, tx.hash), (mem_writes _).mpr ⟨tx, inBlock, isSpend, spends, rfl⟩, rfl⟩
  by_cases named : serial ∈ writes.map Prod.fst
  · obtain ⟨value, write, written⟩ : ∃ value, (serial, value) ∈ writes ∧
        writeAll writes ledger.coinSpends serial = some value := writeAll_of_mem named
    obtain ⟨tx, inBlock, -, spends, same⟩ := (mem_writes _).mp write
    rw [written]
    constructor
    · rintro equal
      cases equal
      exact ⟨block, List.mem_cons_self, tx, inBlock, same.symm, spends⟩
    · rintro ⟨found, mem, other, inFound, rfl, otherSpends⟩
      rcases mem_cons.mp mem with rfl | below
      · rw [eq_of_nodup_blockSerials own inFound inBlock otherSpends spends]
        exact congrArg some same
      · exact absurd (mem_flatMap.mpr ⟨found, below, mem_flatMap.mpr
          ⟨other, inFound, otherSpends⟩⟩) (fresh (named_iff.mp named))
  · have unwritten : writeAll writes ledger.coinSpends serial = ledger.coinSpends serial :=
      writeAll_of_not_mem named
    rw [unwritten, spentOnce.recorded]
    constructor
    · rintro ⟨found, mem, spender⟩
      exact ⟨found, List.mem_cons_of_mem _ mem, spender⟩
    · rintro ⟨found, mem, tx, inFound, same, spends⟩
      rcases mem_cons.mp mem with rfl | below
      · exact absurd (named_iff.mpr (mem_flatMap.mpr ⟨tx, inFound, spends⟩)) named
      · exact ⟨found, below, tx, inFound, same, spends⟩

theorem SpendsKept.connectTip (kept : config.SpendsKept genuine ledger)
    (identifying : Identifying genuine)
    (sound : config.Sound genuine ledger (.connectTip base pprev fAlreadyChecked block))
    (lookable : config.Lookable ledger (.connectTip base pprev fAlreadyChecked block))
    (connects : config.Connects base pprev block ledger next) :
    config.SpendsKept genuine next := by
  obtain ⟨nonzero, -, scripts⟩ := id sound
  have proper := scripts.elim connects.others id
  have fresh := kept.fresh connects proper lookable
  have own : (config.blockSerials block).Nodup := by
    rw [← recordedSerials_eq proper]
    exact lookable.1.nodup
  constructor
  case spentOnce =>
    constructor
    · rw [connects.chain_eq, List.flatMap_cons]
      exact List.nodup_append'.mpr ⟨own, kept.spentOnce.once, fresh⟩
    · exact connects.recorded kept.spentOnce proper fresh own
  case nonzero =>
    rw [connects.chain_eq]
    exact List.forall_mem_cons.mpr ⟨nonzero, kept.nonzero⟩
  case proper =>
    rw [connects.chain_eq]
    exact List.forall_mem_cons.mpr ⟨proper, kept.proper⟩
  case indexed =>
    exact fun indexing => (kept.indexed indexing).connectTip identifying indexing sound connects

theorem SpendsKept.disconnectTip (kept : config.SpendsKept genuine ledger)
    (identifying : Identifying genuine) {passes : CTransaction → Bool}
    {size : CTransaction → BitVec 64} {accessCoins : UInt256 → Option CCoins}
    {nMemPoolHeight : UInt32} {pcoinsTip : CoinsMap}
    (stepped : config.disconnectTip passes size accessCoins nMemPoolHeight pcoinsTip ledger =
      some next) : config.SpendsKept genuine next := by
  have indexed := fun indexing => (kept.indexed indexing).disconnectTip identifying indexing stepped
  unfold LedgerConfig.disconnectTip at stepped
  split at stepped
  · rename_i block below rest chain
    have mem : ∀ found ∈ below :: rest, found ∈ ledger.chain := by
      rw [chain]
      exact fun _ mem => List.mem_cons_of_mem _ mem
    have proper := kept.proper block (by rw [chain]; exact List.mem_cons_self)
    have nodup := kept.spentOnce.once
    rw [chain, List.flatMap_cons] at nodup
    obtain ⟨-, once, apart⟩ := List.nodup_append'.mp nodup
    cases stepped
    constructor
    case spentOnce =>
      refine ⟨once, fun serial txid => ?_⟩
      rw [(foldl_resurrect _ _).1]
      rw [recordedSerials_eq proper, eraseAll_eq_some, kept.spentOnce.recorded, chain]
      constructor
      · rintro ⟨kept, found, inChain, tx, inFound, same, spends⟩
        rcases mem_cons.mp inChain with rfl | lower
        · exact absurd (mem_flatMap.mpr ⟨tx, inFound, spends⟩) kept
        · exact ⟨found, lower, tx, inFound, same, spends⟩
      · rintro ⟨found, lower, tx, inFound, same, spends⟩
        refine ⟨fun erased => ?_, found, List.mem_cons_of_mem _ lower, tx, inFound, same, spends⟩
        exact apart erased (mem_flatMap.mpr ⟨found, lower, mem_flatMap.mpr
          ⟨tx, inFound, spends⟩⟩)
    case nonzero => exact fun found lower => kept.nonzero found (mem found lower)
    case proper => exact fun found lower => kept.proper found (mem found lower)
    case indexed => exact indexed
  · cases stepped

theorem SpendsKept.withPool (kept : config.SpendsKept genuine ledger) {pool : CTxMemPool}
    (indexed : config.fTxIndex = true → config.Recorded genuine { ledger with pool := pool }) :
    config.SpendsKept genuine { ledger with pool := pool } where
  spentOnce := ⟨kept.spentOnce.once, kept.spentOnce.recorded⟩
  nonzero := kept.nonzero
  proper := kept.proper
  indexed := indexed

/-- **A step keeps the spends.** -/
theorem SpendsKept.step (kept : config.SpendsKept genuine ledger)
    (identifying : Identifying genuine) {action : LedgerAction}
    (sound : config.Sound genuine ledger action) (lookable : config.Lookable ledger action)
    (stepped : config.step action ledger = some next) : config.SpendsKept genuine next := by
  have indexed := fun indexing =>
    (kept.indexed indexing).step identifying indexing action sound stepped
  cases action with
  | connectTip base pprev fAlreadyChecked block =>
    exact kept.connectTip identifying sound lookable (connects_of_connectTip stepped)
  | disconnectTip passes size accessCoins nMemPoolHeight pcoinsTip =>
    exact kept.disconnectTip identifying stepped
  | acceptToMemoryPool entry =>
    unfold LedgerConfig.step at stepped
    dsimp only at stepped
    split at stepped
    · cases stepped
      exact kept.withPool indexed
    · cases stepped
  | shrinkPool action =>
    obtain ⟨pool, -, rfl⟩ := shrinks_of_shrinkPool stepped
    exact kept.withPool indexed

/-- **No serial is spent twice** and the database knows every spend, in every state of every
run from a chain without spends in which each block has passed `CheckBlock` and, without the
transaction index, spends no serial again of which the chain's transaction has no unspent
output. -/
theorem spentOnce_of_run (config : LedgerConfig) (genuine : CTransaction → Prop)
    (identifying : Identifying genuine) (ledger : SpendLedger) (unspent : Unspent genuine ledger)
    (actions : List LedgerAction)
    (meets : RunMeets config.step
      (fun ledger action => config.Sound genuine ledger action ∧ config.Lookable ledger action)
      actions ledger) :
    RunStays config.step config.SpentOnce actions ledger := by
  have stays : RunStays config.step (config.SpendsKept genuine) actions ledger :=
    meets.stays _ (fun action before after condition kept stepped =>
      kept.step identifying condition.1 condition.2 stepped) (spendsKept_of_unspent unspent)
  exact stays.imp fun state kept => kept.spentOnce

/-! ## A serial that is spent twice

The first block has a zerocoin spend and a transaction that moves what it pays out. The
second block spends the same serial. -/

open BlockStore

def respendingBlock : CBlock :=
  forkBlock 102 101
    [⟨21, 1, [⟨.null, [0x52, 0x51], 0xffffffff⟩], [.of 1080000000 [0x51]], 0⟩,
      ⟨22, 1, [⟨.null, spendScript, 5⟩], [.of (5 * COIN) [0x52]], 0⟩]

def respendActions : List LedgerAction :=
  [connectAfter genesisBlock.hash 0 spendingBlock, connectAfter 101 1 respendingBlock]

def respendTransactions : List CTransaction :=
  genesisBlock.vtx ++ spendingBlock.vtx ++ respendingBlock.vtx

theorem identifying_respendTransactions : Identifying (· ∈ respendTransactions) := by
  have apart : ∀ first ∈ respendTransactions, ∀ second ∈ respendTransactions,
      first.hash = second.hash → first = second := by decide
  exact fun first second known => apart first known second

theorem unspent_genesisBlock : Unspent (· ∈ respendTransactions) (.genesis genesisBlock) where
  distinct := List.nodup_singleton _
  nonzero := by decide
  genuine := by decide
  plain := by decide
  empty _ := rfl

def checkingNode (fTxIndex : Bool) : Node :=
  { Node.sample .regtest with
    zerocoin := { ZerocoinEnv.sample with
      txInToZerocoinSpend := (forkConfig fTxIndex).txInToZerocoinSpend } }

theorem sound_respendActions (fTxIndex : Bool) : ∀ action ∈ respendActions, ∀ ledger,
    (forkConfig fTxIndex).Sound (· ∈ respendTransactions) ledger action ∧
      ∃ hash nHeight block, action = connectAfter hash nHeight block ∧
        (forkConfig fTxIndex).CheckedBlock block := by
  intro action mem ledger
  have scripts : ∀ (hash : UInt256) (nHeight : Int) (block : CBlock),
      block.hash ≠ 0 → (∀ tx ∈ block.vtx, tx ∈ respendTransactions) →
      (forkConfig fTxIndex).Sound (· ∈ respendTransactions) ledger
        (connectAfter hash nHeight block) := by
    intro hash nHeight block nonzero known
    exact ⟨nonzero, known, .inl (decide_eq_true (Int.natCast_nonneg _))⟩
  have checked : ∀ block, (checkingNode fTxIndex).checkBlock block true = .ok () →
      (forkConfig fTxIndex).CheckedBlock block :=
    fun block passed => ⟨checkingNode fTxIndex, true, rfl, passed⟩
  simp only [respendActions, mem_cons, List.not_mem_nil, or_false] at mem
  rcases mem with rfl | rfl
  · refine ⟨scripts _ _ _ (by decide) (by decide), _, _, _, rfl, checked _ ?_⟩
    cases fTxIndex with
    | false => decide
    | true => decide
  · refine ⟨scripts _ _ _ (by decide) (by decide), _, _, _, rfl, checked _ ?_⟩
    cases fTxIndex with
    | false => decide
    | true => decide

def clearPool (ledger : SpendLedger) : SpendLedger := { ledger with pool := .empty }

theorem eq_clearPool {outcome : Option SpendLedger} (other : SpendLedger) {ledger : SpendLedger}
    (stepped : outcome = some ledger) (pool : ledger.pool = .empty) :
    outcome = some (clearPool (outcome.getD other)) := by
  subst stepped
  obtain ⟨chain, coinSpends, txIndex, _, pcoinsTip⟩ := ledger
  cases pool
  rfl

theorem pool_of_connectAfter {hash : UInt256} {nHeight : Int}
    (stepped : config.step (connectAfter hash nHeight block) ledger = some next) :
    next.pool = (ledger.pool.removeForBlock block.vtx []).2 :=
  (connects_of_connectTip stepped).pool_eq

def spentLedger : SpendLedger :=
  clearPool (((forkConfig false).step (connectAfter genesisBlock.hash 0 spendingBlock)
    (.genesis genesisBlock)).getD (.genesis genesisBlock))

theorem step_spendingBlock : (forkConfig false).step
    (connectAfter genesisBlock.hash 0 spendingBlock) (.genesis genesisBlock) =
      some spentLedger := by
  have performed : ((forkConfig false).step (connectAfter genesisBlock.hash 0 spendingBlock)
      (.genesis genesisBlock)).isSome := by
    decide +kernel
  obtain ⟨ledger, stepped⟩ := Option.isSome_iff_exists.mp performed
  have pool := pool_of_connectAfter stepped
  refine eq_clearPool (.genesis genesisBlock) stepped ?_
  exact pool.trans (CTxMemPool.removeForBlock_empty _ _)

/-- With the transaction index, the serial is spent once. -/
theorem spentOnce_sample : RunStays (forkConfig true).step (forkConfig true).SpentOnce
    respendActions (.genesis genesisBlock) := by
  apply spentOnce_of_run (forkConfig true) (· ∈ respendTransactions)
    identifying_respendTransactions (.genesis genesisBlock) unspent_genesisBlock respendActions
  refine RunMeets.of_forall (fun action mem ledger => ?_) _
  obtain ⟨sound, hash, nHeight, block, rfl, checked⟩ := sound_respendActions true action mem ledger
  exact ⟨sound, checked, .inl rfl⟩

/-- Without the transaction index, both blocks are connected. -/
theorem not_spentOnce_sample :
    RunMeets (forkConfig false).step
        (fun ledger action => (forkConfig false).Sound (· ∈ respendTransactions) ledger action ∧
          ∃ hash nHeight block, action = connectAfter hash nHeight block ∧
            (forkConfig false).CheckedBlock block)
        respendActions (.genesis genesisBlock) ∧
      ¬RunStays (forkConfig false).step (forkConfig false).SpentOnce respendActions
        (.genesis genesisBlock) := by
  refine ⟨.of_forall (sound_respendActions false) _, fun stays => ?_⟩
  have chain : (run (forkConfig false).step respendActions (.genesis genesisBlock)).map
      SpendLedger.chain = some [respendingBlock, spendingBlock, genesisBlock] := by
    rw [respendActions, run, step_spendingBlock, Option.bind_some]
    decide +kernel
  obtain ⟨ledger, runs, connected⟩ := Option.map_eq_some_iff.mp chain
  have once := (stays.at_end runs).once
  rw [connected] at once
  revert once
  decide

end LedgerConfig

end DogeCash
