import DogeCash.Validation.AcceptBlock
import DogeCash.Zerocoin.SpendLedger

/-! # Stakes on a fork

A block that is not on the active tip is checked against its own branch: `AcceptBlock` walks
back to the active chain and collects the serials that the blocks on the way spend. It does
so once for every input of the coinstake that is not a zerocoin spend, so that nothing is
collected for a coinstake without one; the kernel of a stake is such an input, since its
script has been verified. The serials that the active chain spends are looked up in the
database of the node.
-/

namespace DogeCash

def CTransaction.serials (zerocoin : ZerocoinEnv) (tx : CTransaction) : List Int :=
  (tx.zerocoinSpends zerocoin).map CoinSpend.coinSerialNumber

variable {tx : CTransaction}

theorem CTransaction.mem_serials {zerocoin : ZerocoinEnv} {serial : Int} :
    serial ∈ tx.serials zerocoin ↔ ∃ txin ∈ tx.zerocoinInputs, ∃ spend,
      zerocoin.txInToZerocoinSpend txin = some spend ∧ spend.coinSerialNumber = serial := by
  unfold serials zerocoinSpends
  simp only [List.mem_map, List.mem_filterMap]
  constructor
  · intro listed
    obtain ⟨spend, ⟨txin, mem, decoded⟩, equal⟩ := listed
    exact ⟨txin, mem, spend, decoded, equal⟩
  · intro spent
    obtain ⟨txin, mem, spend, decoded, equal⟩ := spent
    exact ⟨spend, ⟨txin, mem, decoded⟩, equal⟩

theorem StakeIndex.dogecInputs_ne_nil {index : StakeIndex} {tip : UInt256} {block : CBlock}
    (second : block.vtx[1]? = some tx) (passed : (index.checkProofOfStake tip block).1 = .ok ()) :
    BlockStore.dogecInputs tx ≠ [] := by
  unfold checkProofOfStake at passed
  cases set : index.initStakeInput block with
  | error failure =>
    rw [set] at passed
    cases passed
  | ok stake =>
    unfold initStakeInput at set
    rw [second] at set
    dsimp only at set
    split_ifs at set
    cases inputs : tx.vin with
    | nil =>
      rw [inputs] at set
      cases set
    | cons txin rest =>
      rw [inputs] at set
      dsimp only at set
      split at set
      · cases set
      · split_ifs at set
        split at set
        · cases set
        · rename_i verified
          have notSpend : CScript.isZerocoinSpend txin.scriptSig = false := by
            by_contra spend
            exact Interpreter.verifyScript_zerocoinSpend _ (by simpa using spend) verified
          rw [BlockStore.dogecInputs, inputs, List.filter_cons_of_pos (by simp [notSpend])]
          exact List.cons_ne_nil _ _

namespace BlockStore

variable {store : BlockStore}

/-! ## The walk back to the active chain -/

def SpendsSerial (store : BlockStore) (txin : CTxIn) (serial : Int) : Prop :=
  CScript.isZerocoinSpend txin.scriptSig = true ∧ ∃ spend,
    store.node.zerocoin.txInToZerocoinSpend txin = some spend ∧ spend.coinSerialNumber = serial

variable {before after : List Int}

theorem scanPair_eq_ok {txin stakeIn : CTxIn}
    (scanned : store.scanPair txin before stakeIn = .ok after) :
    before ⊆ after ∧ ∀ serial, store.SpendsSerial txin serial → serial ∈ after := by
  obtain ⟨-, scanned⟩ := require_bind_eq_ok.mp scanned
  split_ifs at scanned with spends
  · obtain ⟨found, decoded, scanned⟩ := bind_eq_ok.mp scanned
    cases scanned
    refine ⟨List.subset_append_left _ _, ?_⟩
    intro serial spent
    obtain ⟨-, spend, decodes, rfl⟩ := spent
    unfold serialOf at decoded
    rw [decodes] at decoded
    cases decoded
    exact List.mem_append_right _ List.mem_cons_self
  · cases scanned
    refine ⟨List.Subset.refl _, ?_⟩
    intro serial spent
    exact absurd spent.1 spends

variable {stakeInputs : List CTxIn} {bl : CBlock} {block : CBlock} {fork prev : UInt256}

theorem scanBlock_eq_ok (nonempty : stakeInputs ≠ [])
    (scanned : store.scanBlock stakeInputs bl before = .ok after) :
    before ⊆ after ∧ ∀ tx ∈ bl.vtx, ∀ serial ∈ tx.serials store.node.zerocoin, serial ∈ after := by
  obtain ⟨stakeIn, first⟩ := List.exists_mem_of_ne_nil stakeInputs nonempty
  have inputRound : ∀ (txin : CTxIn) (before after : List Int),
      stakeInputs.foldlM (store.scanPair txin) before = .ok after →
      before ⊆ after ∧ ∀ serial, store.SpendsSerial txin serial → serial ∈ after := by
    intro txin before after scanned
    obtain ⟨grows, collected⟩ := foldlM_collects (fun _ => store.SpendsSerial txin)
      (fun _ _ _ _ => scanPair_eq_ok) scanned
    exact ⟨grows, collected stakeIn first⟩
  have txRound : ∀ (tx : CTransaction) (before after : List Int),
      tx.vin.foldlM (fun vBlockSerials txin =>
        stakeInputs.foldlM (store.scanPair txin) vBlockSerials) before = .ok after →
      before ⊆ after ∧ ∀ serial, serial ∈ tx.serials store.node.zerocoin → serial ∈ after := by
    intro tx before after scanned
    obtain ⟨grows, collected⟩ := foldlM_collects store.SpendsSerial
      (fun txin _ => inputRound txin) scanned
    refine ⟨grows, fun serial spends => ?_⟩
    obtain ⟨txin, input, decodes⟩ := CTransaction.mem_serials.mp spends
    obtain ⟨mem, script⟩ := List.mem_filter.mp input
    exact collected txin mem serial ⟨script, decodes⟩
  exact foldlM_collects (fun tx serial => serial ∈ tx.serials store.node.zerocoin)
    (fun tx _ => txRound tx) scanned

/-- What the walk back has done: it ends at the first block of the active chain and has the
serials of the blocks before that. -/
structure Walked (store : BlockStore) (hashes : List UInt256) (before : List Int)
    (prev : UInt256) (after : List Int) : Prop where
  inside : store.contains prev = true
  grows : before ⊆ after
  splits : ∃ branch rest, hashes = branch ++ prev :: rest ∧
    ∀ hash ∈ branch, store.contains hash = false ∧
      ∀ bl, store.readBlockFromDisk hash = some bl → ∀ tx ∈ bl.vtx,
        ∀ serial ∈ tx.serials store.node.zerocoin, serial ∈ after

theorem walked_of_walkBranch (nonempty : stakeInputs ≠ []) {hashes : List UInt256} {readBlock : Int}
    {prev : UInt256} (read : hashes.head?.bind store.readBlockFromDisk = some bl)
    (walk : store.walkBranch stakeInputs hashes bl readBlock before = .ok (prev, after)) :
    store.Walked hashes before prev after := by
  induction hashes generalizing bl readBlock before with
  | nil => cases walk
  | cons hash rest ih =>
    unfold walkBranch at walk
    split_ifs at walk with inside deep
    · cases walk
      exact ⟨inside, List.Subset.refl _, [], rest, rfl, fun _ mem => nomatch mem⟩
    · obtain ⟨middle, scanned, walk⟩ := bind_eq_ok.mp walk
      obtain ⟨collects, serials⟩ := scanBlock_eq_ok nonempty scanned
      split at walk
      · cases walk
      · rename_i next nextRead
        obtain ⟨lastInside, grows, branch, others, split, outside⟩ := ih nextRead walk
        refine ⟨lastInside, List.Subset.trans collects grows, hash :: branch, others, ?_, ?_⟩
        · rw [split, List.cons_append]
        · refine List.forall_mem_cons.mpr ⟨⟨by simpa using inside, ?_⟩, outside⟩
          intro found onDisk tx mem serial spends
          have same : found = bl := Option.some.inj (onDisk.symm.trans read)
          subst same
          exact grows (serials tx mem serial spends)

/-! ## The fork point -/

/-- The last ancestor of a block in the active chain. -/
structure IsForkPoint (store : BlockStore) (block : CBlock) (fork : UInt256) : Prop where
  ancestor : store.index.tree.IsAncestor fork block.hashPrevBlock
  inside : store.contains fork = true
  last : ∀ other, store.index.tree.IsAncestor other block.hashPrevBlock →
    store.contains other = true → store.index.tree.nHeight other ≤ store.index.tree.nHeight fork

/-- Some block between the fork point and the block, as it is on disk, spends the serial. -/
def SpentOnBranch (store : BlockStore) (block : CBlock) (fork : UInt256) (serial : Int) : Prop :=
  ∃ hash bl, store.index.tree.IsAncestor hash block.hashPrevBlock ∧
    store.index.tree.nHeight fork < store.index.tree.nHeight hash ∧
    store.readBlockFromDisk hash = some bl ∧
    ∃ tx ∈ bl.vtx, serial ∈ tx.serials store.node.zerocoin

theorem Walked.nHeight_eq
    (walked : store.Walked (store.index.tree.lineage block.hashPrevBlock) before prev after)
    (point : store.IsForkPoint block fork) :
    store.index.tree.nHeight prev = store.index.tree.nHeight fork := by
  obtain ⟨inside, -, branch, rest, split, outside⟩ := walked
  have mem : prev ∈ store.index.tree.lineage block.hashPrevBlock := by
    rw [split]
    exact List.mem_append_right _ List.mem_cons_self
  refine Nat.le_antisymm (point.last prev (BlockTree.mem_lineage.mp mem) inside) ?_
  have forkMember := BlockTree.mem_lineage.mpr point.ancestor
  rw [split, List.mem_append] at forkMember
  rcases forkMember with onBranch | behind
  · have apart := (outside fork onBranch).1
    rw [point.inside] at apart
    cases apart
  · exact BlockTree.nHeight_le_of_lineage split behind

theorem Walked.collects
    (walked : store.Walked (store.index.tree.lineage block.hashPrevBlock) before prev after)
    (point : store.IsForkPoint block fork) {serial : Int}
    (spent : store.SpentOnBranch block fork serial) : serial ∈ after := by
  obtain ⟨hash, bl, ancestor, above, onDisk, tx, inBlock, spends⟩ := spent
  have height := walked.nHeight_eq point
  obtain ⟨-, -, branch, rest, split, outside⟩ := walked
  have mem := BlockTree.mem_lineage.mpr ancestor
  rw [split, List.mem_append] at mem
  rcases mem with onBranch | behind
  · exact (outside hash onBranch).2 bl onDisk tx inBlock serial spends
  · have lower := BlockTree.nHeight_le_of_lineage split behind
    omega

/-! ## What an accepted stake has passed -/

section Accepted

variable {block : CBlock} {stakeTxIn : CTransaction}

theorem head?_lineage (tree : BlockTree UInt256) (hash : UInt256) :
    (tree.lineage hash).head? = some hash := by
  unfold BlockTree.lineage
  cases tree.nHeight hash with
  | zero => rfl
  | succ n => rfl

theorem checkFork_eq_ok {nHeight : Int} {fork : UInt256} (nonempty : dogecInputs stakeTxIn ≠ [])
    (passed : store.checkFork stakeTxIn nHeight block.hashPrevBlock = .ok ())
    (point : store.IsForkPoint block fork) {serial : Int}
    (spends : serial ∈ stakeTxIn.serials store.node.zerocoin) :
    ¬store.SpentOnBranch block fork serial ∧
      ∀ nHeightTx, store.node.serialHeight serial = some nHeightTx →
        (store.index.tree.nHeight fork : Int) < nHeightTx := by
  unfold checkFork at passed
  split at passed
  · cases passed
  · rename_i bl onDisk
    obtain ⟨⟨prev, vBlockSerials⟩, walk, passed⟩ := bind_eq_ok.mp passed
    have read : (store.index.tree.lineage block.hashPrevBlock).head?.bind
        store.readBlockFromDisk = some bl := by
      rw [head?_lineage]
      exact onDisk
    have walked := walked_of_walkBranch nonempty read walk
    obtain ⟨txin, input, spend, decoded, rfl⟩ := CTransaction.mem_serials.mp spends
    have check := foldlM_unit_eq_ok passed txin input
    unfold checkForkedSpend at check
    rw [decoded] at check
    obtain ⟨apart, check⟩ := require_bind_eq_ok.mp check
    obtain ⟨unspent, -⟩ := require_bind_eq_ok.mp check
    constructor
    · intro spent
      have collected := walked.collects point spent
      simp [collected] at apart
    · intro nHeightTx found
      rw [found, walked.nHeight_eq point] at unspent
      simpa using unspent

/-- `AcceptBlock` does not return true before it looks at the block: the parent is not
reconsidered, and the block has not been stored before. -/
structure LooksAt (store : BlockStore) (block : CBlock) : Prop where
  settled : ((store.marks block.hashPrevBlock).failed &&
    store.matchesCheckpoint (store.index.tree.nHeight block.hashPrevBlock) block.hashPrevBlock &&
    store.reconsiderBlock block.hashPrevBlock) = false
  fresh : ¬(block.hash ∈ store.index.tree.blocks ∧ (store.marks block.hash).haveData = true)

/-- The checks of a proof-of-stake block on a fork that `AcceptBlock` looks at and accepts. -/
theorem checkFork_of_acceptBlock {acceptance : Acceptance}
    (proofOfStake : block.isProofOfStake = true) (second : block.vtx[1]? = some stakeTxIn)
    (notGenesis : block.hash ≠ store.node.params.hashGenesisBlock)
    (forked : store.tip.hash ≠ block.hashPrevBlock)
    (looks : store.LooksAt block) (accepted : store.acceptBlock block = .ok acceptance) :
    dogecInputs stakeTxIn ≠ [] ∧
      store.checkFork stakeTxIn (store.heightOf block) block.hashPrevBlock = .ok () := by
  obtain ⟨reconsidered, parent, accepted⟩ := bind_eq_ok.mp accepted
  have looked : reconsidered = false := by
    have parent := plainly_eq_ok.mp parent
    unfold checkParent at parent
    have settled := looks.settled
    rw [if_neg notGenesis] at parent
    split_ifs at parent with unknown failed again
    · rw [Bool.and_eq_true] at again
      rw [failed, again.1, again.2] at settled
      cases settled
    · cases parent
      rfl
  subst looked
  unfold acceptAfterParent at accepted
  rw [CBlock.isProofOfStakeRead_eq, proofOfStake] at accepted
  obtain ⟨_, -, accepted⟩ := bind_eq_ok.mp accepted
  obtain ⟨_, ⟨⟩, accepted⟩ := bind_eq_ok.mp accepted
  obtain ⟨_, stake, accepted⟩ := bind_eq_ok.mp accepted
  obtain ⟨_, -, accepted⟩ := bind_eq_ok.mp accepted
  have kernel : (store.index.checkProofOfStake store.tip.hash block).1 = .ok () := by
    unfold checkProofOfStake at stake
    split at stake
    · assumption
    · cases stake
    · cases stake
  unfold acceptContents at accepted
  rw [if_neg looks.fresh] at accepted
  obtain ⟨_, -, accepted⟩ := bind_eq_ok.mp accepted
  obtain ⟨_, inputs, -⟩ := bind_eq_ok.mp accepted
  obtain ⟨found, read, inputs⟩ := bind_eq_ok.mp inputs
  cases (readAt_eq_ok.mp read).symm.trans second
  obtain ⟨_, -, inputs⟩ := bind_eq_ok.mp inputs
  obtain ⟨_, checked, -⟩ := bind_eq_ok.mp inputs
  refine ⟨StakeIndex.dogecInputs_ne_nil second kernel, ?_⟩
  exact requireWhen_eq_ok.mp (plainly_eq_ok.mp checked) (by simp [notGenesis, forked])

end Accepted

end BlockStore

/-! ## The stakes that are rejected -/

namespace LedgerConfig

/-- The node that accepts blocks has the databases and the active chain of the ledger. -/
structure Shows (config : LedgerConfig) (ledger : SpendLedger) (store : BlockStore) : Prop where
  readCoinSpend : store.node.zerocoin.readCoinSpend = ledger.coinSpends
  txInToZerocoinSpend : store.node.zerocoin.txInToZerocoinSpend = config.txInToZerocoinSpend
  getTransaction : store.index.getTransaction = config.getTransaction ledger
  chainActive : store.index.chainActive store.tip.hash = ledger.chain.reverse.map CBlock.hash
  nHeight : ∀ position block, ledger.chain.reverse[position]? = some block →
    store.index.tree.nHeight block.hash = position

/-- A block at or below the fork spends the serial. -/
def SpentBelow (ledger : SpendLedger) (store : BlockStore) (fork : UInt256) (serial : Int) : Prop :=
  ∃ bl ∈ ledger.chain, store.index.tree.nHeight bl.hash ≤ store.index.tree.nHeight fork ∧
    ∃ tx ∈ bl.vtx, serial ∈ tx.serials store.node.zerocoin

variable {config : LedgerConfig} {genuine : CTransaction → Prop} {ledger : SpendLedger}
  {store : BlockStore} {block : CBlock} {tx : CTransaction}

namespace Shows

variable (shows : config.Shows ledger store)

include shows

theorem serials (tx : CTransaction) : tx.serials store.node.zerocoin = config.serials tx := by
  unfold CTransaction.serials CTransaction.zerocoinSpends LedgerConfig.serials
  rw [shows.txInToZerocoinSpend]

theorem contains (mem : block ∈ ledger.chain) : store.contains block.hash = true := by
  obtain ⟨position, found⟩ := List.mem_iff_getElem?.mp (List.mem_reverse.mpr mem)
  have height := shows.nHeight position block found
  unfold BlockStore.contains StakeIndex.contains
  rw [shows.chainActive, height, List.getElem?_map, found]
  simp

theorem known (mem : block ∈ ledger.chain) : block.hash ∈ store.index.tree.blocks := by
  have active : block.hash ∈ store.index.chainActive store.tip.hash := by
    rw [shows.chainActive]
    exact List.mem_map_of_mem (List.mem_reverse.mpr mem)
  have ancestor := BlockTree.mem_lineage.mp (List.mem_reverse.mp active)
  exact ancestor.mem store.tip_known

theorem serialHeight (recorded : config.Recorded genuine ledger)
    (indexing : config.fTxIndex = true) (mem : block ∈ ledger.chain) (inBlock : tx ∈ block.vtx)
    {serial : Int} (spends : serial ∈ tx.serials store.node.zerocoin) :
    store.node.serialHeight serial = some (store.index.tree.nHeight block.hash : Int) := by
  have inputs : tx.zerocoinInputs ≠ [] := by
    obtain ⟨txin, input, -⟩ := CTransaction.mem_serials.mp spends
    exact List.ne_nil_of_mem input
  rw [shows.serials] at spends
  obtain ⟨other, beside, written⟩ := recorded.spent block tx
    ⟨mem, inBlock, recorded.proper block mem tx inBlock inputs⟩ serial spends
  have found : store.index.getTransaction other.hash = some (other, block.hash) := by
    rw [shows.getTransaction]
    exact getTransaction_of_indexed indexing (recorded.indexed block other beside)
      (recorded.pooled block other beside)
  have inside : store.index.contains store.tip.hash block.hash = true := shows.contains mem
  unfold Node.serialHeight
  rw [shows.readCoinSpend, written, Option.bind_some, store.inChain_eq]
  unfold StakeIndex.isTransactionInChain
  rw [found]
  exact if_pos ⟨recorded.nonzero block mem, shows.known mem, inside⟩

end Shows

end LedgerConfig

namespace BlockStore

/-- A proof-of-stake block that is not on the active tip and whose coinstake spends a
serial. -/
structure ForkedStake (store : BlockStore) (block : CBlock) (fork : UInt256) (serial : Int) :
    Prop where
  proofOfStake : block.isProofOfStake = true
  notGenesis : block.hash ≠ store.node.params.hashGenesisBlock
  forked : store.tip.hash ≠ block.hashPrevBlock
  point : store.IsForkPoint block fork
  spends : ∃ stakeTxIn, block.vtx[1]? = some stakeTxIn ∧
    serial ∈ stakeTxIn.serials store.node.zerocoin

/-- **No serial is staked twice on a fork.** After every run of the ledger, `AcceptBlock` rejects a
proof-of-stake block whose coinstake spends a serial that its own branch spends or, as long as the
node keeps the transaction index, the active chain up to the fork point. -/
theorem rejects_forkedStake {config : LedgerConfig} {genuine : CTransaction → Prop}
    {genesis : CBlock} {actions : List LedgerAction} {ledger : SpendLedger} {store : BlockStore}
    {block : CBlock} {fork : UInt256} {serial : Int}
    (identifying : LedgerConfig.Identifying genuine)
    (start : LedgerConfig.GenesisSound genuine genesis)
    (meets : RunMeets config.step (config.Sound genuine) actions (.genesis genesis))
    (runs : run config.step actions (.genesis genesis) = some ledger)
    (shows : config.Shows ledger store) (looks : store.LooksAt block)
    (stake : store.ForkedStake block fork serial)
    (spent : store.SpentOnBranch block fork serial ∨
      config.fTxIndex = true ∧ LedgerConfig.SpentBelow ledger store fork serial) :
    ∃ failure, store.acceptBlock block = .error failure := by
  cases result : store.acceptBlock block with
  | error failure => exact ⟨failure, rfl⟩
  | ok acceptance =>
    obtain ⟨stakeTxIn, second, spends⟩ := stake.spends
    obtain ⟨nonempty, passed⟩ := checkFork_of_acceptBlock stake.proofOfStake second
      stake.notGenesis stake.forked looks result
    obtain ⟨apart, above⟩ := checkFork_eq_ok nonempty passed stake.point spends
    rcases spent with onBranch | ⟨indexing, bl, mem, below, tx, inBlock, txSpends⟩
    · exact absurd onBranch apart
    · have recorded := LedgerConfig.recorded_of_run identifying indexing meets runs
        (LedgerConfig.recorded_genesis start)
      have found := shows.serialHeight recorded indexing mem inBlock txSpends
      have higher := above _ found
      omega

/-! ## A stake that spends once more

On the regression test network, the first block after the genesis block has a zerocoin spend
and a transaction that moves what the spend pays out. After the second block, a stake that
spends the same serial arrives on top of the first. -/

/-- The script of a spend of 5 DOGEC. Its proofs are left out, here and in the decoded
spend. -/
def spendScript : CScript := [Op.OP_ZEROCOINSPEND, 0x01, 0x05]

/-- What that script decodes to. -/
def validSpend : CoinSpend where
  denomination := .five
  ptxHash := 0
  accChecksum := 0
  coinSerialNumber := 1
  version := 1
  spendType := .spend
  hasValidSignature := .valid
  hasValidSerial _ := true
  verify _ _ := true

def forkConfig (fTxIndex : Bool) : LedgerConfig where
  params := .regtest
  fTxIndex := fTxIndex
  txInToZerocoinSpend txin := if txin.scriptSig = spendScript then some validSpend else none

def forkBlock (hash hashPrevBlock : UInt256) (vtx : List CTransaction) : CBlock where
  hash := hash
  hashPrevBlock := hashPrevBlock
  hashMerkleRoot := 42
  nTime := 1600000000
  nBits := 0x207fffff
  vtx := vtx

def genesisBlock : CBlock :=
  forkBlock ChainParams.regtest.hashGenesisBlock 0
    [⟨10, 1, [⟨.null, [0x51, 0x51], 0xffffffff⟩], [.of 0 [0x51]], 0⟩]

def spendingBlock : CBlock :=
  forkBlock 101 genesisBlock.hash
    [⟨11, 1, [⟨.null, [0x51, 0x51], 0xffffffff⟩], [.of (7000000 * COIN) [0x51]], 0⟩,
      ⟨12, 1, [⟨.null, spendScript, 5⟩], [.of (5 * COIN) [0x51]], 0⟩,
      ⟨13, 1, [⟨⟨12, 0⟩, [], 0xffffffff⟩], [.of (5 * COIN) [0x51]], 0⟩]

def secondBlock : CBlock :=
  forkBlock 102 101
    [⟨21, 1, [⟨.null, [0x52, 0x51], 0xffffffff⟩], [.of 1080000000 [0x51]], 0⟩]

/-- A stake of the first coinbase with the serial of the first block. -/
def stakingBlock : CBlock :=
  forkBlock 1001 101
    [⟨31, 1, [⟨.null, [0x52, 0x51], 0xffffffff⟩], [.of 0 []], 0⟩,
      ⟨32, 1, [⟨⟨11, 0⟩, [], 0xffffffff⟩, ⟨.null, spendScript, 5⟩],
        [.of 0 [], .of (7000000 * COIN) [0x51]], 0⟩]

def connectAfter (hash : UInt256) (nHeight : Int) (block : CBlock) : LedgerAction :=
  .connectTip { Node.sample .regtest with tip := some ⟨hash, nHeight, 1600000000, 0⟩ }
    (some ⟨hash, nHeight, 1600000000, 0⟩) false block

def forkActions : List LedgerAction :=
  [connectAfter genesisBlock.hash 0 spendingBlock, connectAfter 101 1 secondBlock]

def forkLedger (fTxIndex : Bool) : SpendLedger :=
  (run (forkConfig fTxIndex).step forkActions (.genesis genesisBlock)).getD (.genesis genesisBlock)

def forkTransactions : List CTransaction := genesisBlock.vtx ++ spendingBlock.vtx ++ secondBlock.vtx

def forkTree : BlockTree UInt256 :=
  ((BlockTree.genesis genesisBlock.hash 1).add 101 genesisBlock.hash 1 (by decide +kernel)
    (by decide +kernel)).add 102 101 1 (by decide +kernel) (by decide +kernel)

/-- The node after the second block. Its memory pool is empty. -/
def forkIndex (fTxIndex : Bool) : StakeIndex where
  params := .regtest
  script := ⟨CheckInputs.sampleCrypto, fun _ _ _ _ _ => true⟩
  tree := forkTree
  nTime _ := 1600000000
  nStakeModifier _ := 0
  generatedStakeModifier _ := false
  nStakeModifierV2 _ := 0
  getTransaction txid :=
    if fTxIndex then (forkLedger fTxIndex).txIndex txid else (forkLedger fTxIndex).findByCoins txid
  hashKernel _ _ _ _ := 0

def forkStore (fTxIndex : Bool) : BlockStore where
  node := { Node.sample .regtest with
    zerocoin := { ZerocoinEnv.sample with
      txInToZerocoinSpend := (forkConfig fTxIndex).txInToZerocoinSpend
      readCoinSpend := (forkLedger fTxIndex).coinSpends
      readAccumulatorValue := fun _ => some 1 }
    tip := some ⟨102, 2, 1600000000, 7000000 * COIN⟩
    indexedHeight := fun hash =>
      if hash ∈ forkTree.blocks then some (forkTree.nHeight hash : Int) else none
    isTransactionInChain := (forkIndex fTxIndex).isTransactionInChain 102 }
  budgets := ⟨[], 0, fun _ => none, fun _ => none⟩
  index := forkIndex fTxIndex
  tip := ⟨102, 2, 1600000000, 7000000 * COIN⟩
  marks _ := {}
  readBlockFromDisk hash := (forkLedger fTxIndex).chain.find? fun block => block.hash = hash
  pcoinsTip := (forkLedger fTxIndex).pcoinsTip
  matchesCheckpoint _ _ := false
  reconsiderBlock _ := false
  checkWork _ _ := true
  contextualCheckBlockHeader _ _ := true
  checkBlockSignature _ := true
  nVersion _ := 7
  node_tip := rfl
  tip_known := List.mem_cons_self
  tip_height := rfl
  params_eq := rfl
  script_eq := rfl
  indexedHeight_eq _ := rfl
  inChain_eq _ := rfl

section

variable (fTxIndex : Bool)
include fTxIndex

theorem run_forkActions :
    run (forkConfig fTxIndex).step forkActions (.genesis genesisBlock) =
      some (forkLedger fTxIndex) := by
  have performed : (run (forkConfig fTxIndex).step forkActions (.genesis genesisBlock)).isSome := by
    cases fTxIndex with
    | false => decide +kernel
    | true => decide +kernel
  obtain ⟨ledger, runs⟩ := Option.isSome_iff_exists.mp performed
  rw [forkLedger, runs, Option.getD_some]

theorem chain_forkLedger :
    (forkLedger fTxIndex).chain = [secondBlock, spendingBlock, genesisBlock] := by
  cases fTxIndex with
  | false => decide +kernel
  | true => decide +kernel

theorem pool_forkLedger (txid : UInt256) : (forkLedger fTxIndex).pool.mapTx.lookup txid = none := by
  refine run_invariant (fun ledger => ledger.pool.mapTx.lookup txid = none) ?_
    (run_forkActions fTxIndex) rfl
  intro action mem before after absent stepped
  obtain ⟨base, pprev, block, rfl⟩ :
      ∃ base pprev block, action = .connectTip base pprev false block := by
    simp only [forkActions, connectAfter, List.mem_cons, List.not_mem_nil, or_false] at mem
    rcases mem with rfl | rfl
    · exact ⟨_, _, _, rfl⟩
    · exact ⟨_, _, _, rfl⟩
  rw [(LedgerConfig.connects_of_connectTip stepped).pool_eq]
  exact (CTxMemPool.removeForBlock_removes ..).1.lookup_eq_none absent

theorem sound_forkActions :
    RunMeets (forkConfig fTxIndex).step ((forkConfig fTxIndex).Sound (· ∈ forkTransactions))
      forkActions (.genesis genesisBlock) := by
  refine RunMeets.of_forall (fun action mem ledger => ?_) _
  have scripts : ∀ (hash : UInt256) (nHeight : Int) (block : CBlock),
      block.hash ≠ 0 → (∀ tx ∈ block.vtx, tx ∈ forkTransactions) →
      (forkConfig fTxIndex).Sound (· ∈ forkTransactions) ledger
        (connectAfter hash nHeight block) := by
    intro hash nHeight block nonzero known
    refine ⟨nonzero, known, .inl ?_⟩
    exact decide_eq_true (Int.natCast_nonneg _)
  simp only [forkActions, List.mem_cons, List.not_mem_nil, or_false] at mem
  rcases mem with rfl | rfl
  · exact scripts _ _ _ (by decide) (by decide)
  · exact scripts _ _ _ (by decide) (by decide)

theorem shows_forkStore :
    (forkConfig fTxIndex).Shows (forkLedger fTxIndex) (forkStore fTxIndex) where
  readCoinSpend := rfl
  txInToZerocoinSpend := rfl
  getTransaction := by
    funext txid
    rw [LedgerConfig.getTransaction, pool_forkLedger]
    rfl
  chainActive := by
    rw [chain_forkLedger]
    exact of_decide_eq_true rfl
  nHeight position block found := by
    rw [chain_forkLedger] at found
    rcases position with _ | _ | _ | position
    · cases found
      rfl
    · cases found
      rfl
    · cases found
      rfl
    · cases found

end

theorem identifying_forkTransactions : LedgerConfig.Identifying (· ∈ forkTransactions) := by
  have apart : ∀ first ∈ forkTransactions, ∀ second ∈ forkTransactions,
      first.hash = second.hash → first = second := by decide +kernel
  exact fun first second known => apart first known second

theorem genesisSound_genesisBlock :
    LedgerConfig.GenesisSound (· ∈ forkTransactions) genesisBlock where
  nonzero := by decide
  genuine := by decide
  plain := by decide

theorem looksAt_stakingBlock (fTxIndex : Bool) : (forkStore fTxIndex).LooksAt stakingBlock where
  settled := rfl
  fresh stored := nomatch stored.2

theorem forkedStake_stakingBlock (fTxIndex : Bool) :
    (forkStore fTxIndex).ForkedStake stakingBlock 101 1 where
  proofOfStake := rfl
  notGenesis := by
    change (1001 : UInt256) ≠ ChainParams.regtest.hashGenesisBlock
    decide
  forked := by
    change (102 : UInt256) ≠ 101
    decide
  point := {
    ancestor := BlockTree.isAncestor_refl _
    inside := rfl
    last := fun _ ancestor _ => IsAncestor.height_le forkTree.grows ancestor }
  spends := ⟨_, rfl, List.mem_singleton_self 1⟩

theorem spentBelow_forkLedger (fTxIndex : Bool) :
    LedgerConfig.SpentBelow (forkLedger fTxIndex) (forkStore fTxIndex) 101 1 := by
  refine ⟨spendingBlock, ?_, Nat.le_refl _, _, List.mem_cons_of_mem _ List.mem_cons_self,
    List.mem_singleton_self 1⟩
  rw [chain_forkLedger]
  exact List.mem_cons_of_mem _ List.mem_cons_self

/-- With the transaction index, the stake is rejected. -/
theorem rejects_stakingBlock :
    (forkConfig true).Shows (forkLedger true) (forkStore true) ∧
      (forkStore true).ForkedStake stakingBlock 101 1 ∧
      ∃ failure, (forkStore true).acceptBlock stakingBlock = .error failure :=
  ⟨shows_forkStore true, forkedStake_stakingBlock true,
    rejects_forkedStake identifying_forkTransactions genesisSound_genesisBlock
      (sound_forkActions true) (run_forkActions true) (shows_forkStore true)
      (looksAt_stakingBlock true) (forkedStake_stakingBlock true)
      (.inr ⟨rfl, spentBelow_forkLedger true⟩)⟩

/-- Without the transaction index, the node forgets that the serial was spent as soon as the
outputs of the spend are spent themselves, and stores the stake. -/
theorem stores_stakingBlock :
    RunMeets (forkConfig false).step ((forkConfig false).Sound (· ∈ forkTransactions)) forkActions
        (.genesis genesisBlock) ∧
      run (forkConfig false).step forkActions (.genesis genesisBlock) = some (forkLedger false) ∧
      (forkConfig false).Shows (forkLedger false) (forkStore false) ∧
      (forkStore false).LooksAt stakingBlock ∧
      (forkStore false).ForkedStake stakingBlock 101 1 ∧
      LedgerConfig.SpentBelow (forkLedger false) (forkStore false) 101 1 ∧
      (forkStore false).acceptBlock stakingBlock = .ok .stored ∧
      (forkStore false).processNewBlock stakingBlock = .ok .stored := by
  refine ⟨sound_forkActions false, run_forkActions false, shows_forkStore false,
    looksAt_stakingBlock false, forkedStake_stakingBlock false, spentBelow_forkLedger false, ?_, ?_⟩
  · decide +kernel
  · decide +kernel

end BlockStore

end DogeCash
