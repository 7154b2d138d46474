import DogeCash.Validation.AcceptBlock

/-! # The reads of a received block

A block that arrives from the network goes through `CheckBlock` and `AcceptBlock`. Besides
the reads of `CheckBlock`, two are made without a test: the output that the coinstake claims
to spend is looked up at the position the block gives, and the second version of the stake
modifier is taken from the second transaction of any block.
-/

namespace DogeCash

namespace StakeIndex

variable {index : StakeIndex} {tip : UInt256} {block : CBlock}

theorem checkProofOfStake_outOfBounds :
    (index.checkProofOfStake tip block).1 = .error .outOfBounds ↔
      index.initStakeInput block = .error .outOfBounds := by
  unfold checkProofOfStake
  cases index.initStakeInput block with
  | error failure => simp
  | ok stake =>
    refine iff_of_false ?_ nofun
    dsimp only
    cases index.getIndexFrom tip stake with
    | none => exact nofun
    | some blockFrom =>
      dsimp only
      split_ifs
      · exact nofun
      · exact nofun
      · unfold checkStakeKernelHash
        cases index.getHashProofOfStake tip block.hashPrevBlock stake block.nTime with
        | none => exact nofun
        | some hashProofOfStake =>
          dsimp only
          split_ifs
          · exact nofun
          · exact nofun

/-- The output that the first input of the coinstake names is there, if its transaction is
found. -/
def KernelInside (index : StakeIndex) (block : CBlock) : Prop :=
  ∀ tx txin txPrev hashBlock, block.vtx[1]? = some tx → tx.vin.head? = some txin →
    index.getTransaction txin.prevout.hash = some (txPrev, hashBlock) →
    txin.prevout.n.toNat < txPrev.vout.length

theorem initStakeInput_outOfBounds (proofOfStake : block.isProofOfStake = true) :
    index.initStakeInput block ≠ .error .outOfBounds ↔ index.KernelInside block := by
  obtain ⟨first, tx, rest, vtx⟩ := Node.exists_second_of_isProofOfStake proofOfStake
  have second : block.vtx[1]? = some tx := by
    rw [vtx]
    rfl
  have coinStake : tx.isCoinStake = true := by
    unfold CBlock.isProofOfStake at proofOfStake
    rw [vtx] at proofOfStake
    exact proofOfStake
  unfold initStakeInput KernelInside
  rw [second]
  dsimp only
  rw [if_neg (by simp [coinStake])]
  cases inputs : tx.vin with
  | nil =>
    rw [CTransaction.isCoinStake, inputs] at coinStake
    cases coinStake
  | cons txin others =>
    dsimp only
    cases found : index.getTransaction txin.prevout.hash with
    | none =>
      refine iff_of_true nofun fun other input txPrev hashBlock sameTx sameIn found' => ?_
      cases sameTx
      rw [inputs] at sameIn
      cases sameIn
      rw [found] at found'
      cases found'
    | some entry =>
      obtain ⟨txPrev, hashBlock⟩ := entry
      dsimp only
      have only : (∀ other input txPrev' hashBlock', some tx = some other →
          other.vin.head? = some input →
          index.getTransaction input.prevout.hash = some (txPrev', hashBlock') →
          input.prevout.n.toNat < txPrev'.vout.length) ↔
          txin.prevout.n.toNat < txPrev.vout.length := by
        constructor
        · intro every
          exact every tx txin txPrev hashBlock rfl (by rw [inputs]; rfl) found
        · intro inside other input txPrev' hashBlock' sameTx sameIn found'
          cases sameTx
          rw [inputs] at sameIn
          cases sameIn
          rw [found] at found'
          cases found'
          exact inside
      rw [only]
      by_cases inside : txin.prevout.n.toNat < txPrev.vout.length
      · rw [dif_pos inside]
        refine iff_of_true ?_ inside
        split
        · exact nofun
        · exact nofun
      · rw [dif_neg inside]
        exact iff_of_false (fun reads => reads rfl) inside

end StakeIndex

namespace BlockStore

variable {store : BlockStore} {block : CBlock}

def isWorkedOn (store : BlockStore) (block : CBlock) : Bool :=
  block.hash = store.node.params.hashGenesisBlock || store.checkWork block block.hashPrevBlock

def hasModifierV2 (store : BlockStore) (block : CBlock) : Bool :=
  block.hashPrevBlock ∈ store.index.tree.blocks &&
    store.node.params.isStakeModifierV2 (store.index.tree.nHeight block.hashPrevBlock + 1)

/-- Where `AcceptBlock` reads inside the vectors: the two reads that it does not check, if
the block gets there. -/
structure AcceptBlockInside (store : BlockStore) (block : CBlock) : Prop where
  kernel : store.checkParent block = .ok false → store.isWorkedOn block = true →
    block.isProofOfStake = true → store.index.KernelInside block
  modifier : store.checkParent block = .ok false → store.isWorkedOn block = true →
    block.hash ∉ store.index.tree.blocks → store.checkKnownParent block = .ok () →
    store.hasModifierV2 block = true → 1 < block.vtx.length

theorem inBounds_checkProofOfStake (proofOfStake : block.isProofOfStake = true) :
    InBounds (store.checkProofOfStake block) ↔ store.index.KernelInside block := by
  have same : (store.index.checkProofOfStake store.tip.hash block).1 = .error .outOfBounds ↔
      store.index.initStakeInput block = .error .outOfBounds :=
    StakeIndex.checkProofOfStake_outOfBounds
  rw [← StakeIndex.initStakeInput_outOfBounds proofOfStake, ne_eq, ← same]
  unfold checkProofOfStake
  cases (store.index.checkProofOfStake store.tip.hash block).1 with
  | ok value => simp
  | error failure =>
    cases failure with
    | rejected => simp
    | outOfBounds => simp [InBounds]

/-- What `CheckBlock` has made sure of before a block is accepted. -/
structure Checked (block : CBlock) : Prop where
  nonempty : block.vtx ≠ []
  inputs : ∀ tx ∈ block.vtx, tx.vin ≠ []
  spends : ∀ tx ∈ block.vtx, tx.SpendInside

section

variable (checked : Checked block)
include checked

theorem inBounds_addToBlockIndex :
    InBounds (store.addToBlockIndex block) ↔
      (store.hasModifierV2 block = true → 1 < block.vtx.length) := by
  unfold addToBlockIndex hasModifierV2
  by_cases known : block.hashPrevBlock ∈ store.index.tree.blocks
  · rw [if_pos known]
    cases v2 : store.node.params.isStakeModifierV2
        (store.index.tree.nHeight block.hashPrevBlock + 1) with
    | false => simp
    | true =>
      rw [if_neg (by simp), inBounds_bind, inBounds_readAt]
      simp only [known, decide_true, Bool.and_self, forall_const]
      refine and_iff_left_of_imp fun _ tx found => ?_
      have mem := List.mem_of_getElem? (readAt_eq_ok.mp found)
      refine inBounds_bind.mpr ⟨inBounds_readAt.mpr ?_, fun _ _ => inBounds_ok _⟩
      exact List.length_pos_iff.mpr (checked.inputs tx mem)
  · simp [known]

theorem inBounds_acceptBlockHeader :
    InBounds (store.acceptBlockHeader block) ↔
      (block.hash ∉ store.index.tree.blocks → store.checkKnownParent block = .ok () →
        store.hasModifierV2 block = true → 1 < block.vtx.length) := by
  unfold acceptBlockHeader
  by_cases old : block.hash ∈ store.index.tree.blocks
  · simp [old]
  · rw [if_neg old, Refines.inBounds_bind (Refines.plain _)]
    simp only [inBounds_plainly, true_and, old, not_false_eq_true, forall_const]
    constructor
    · intro bounds parent
      exact (inBounds_addToBlockIndex checked).mp (inBounds_bind.mp (bounds () parent)).1
    · intro inside _ parent
      exact inBounds_bind.mpr
        ⟨(inBounds_addToBlockIndex checked).mpr (inside parent), fun _ _ => inBounds_ok ()⟩

theorem inBounds_contextualCheckBlock : InBounds (store.contextualCheckBlock block) := by
  refine inBounds_bind.mpr ⟨inBounds_plainly _, fun _ _ => ?_⟩
  split
  · refine inBounds_bind.mpr ⟨?_, fun tx found => ?_⟩
    · exact inBounds_readAt.mpr (List.length_pos_iff.mpr checked.nonempty)
    · have mem := List.mem_of_getElem? (readAt_eq_ok.mp found)
      refine inBounds_bind.mpr ⟨inBounds_readAt.mpr ?_, fun _ _ => inBounds_plainly _⟩
      exact List.length_pos_iff.mpr (checked.inputs tx mem)
  · exact inBounds_ok ()

theorem inBounds_checkStakeInputs (proofOfStake : block.isProofOfStake = true) :
    InBounds (store.checkStakeInputs block) := by
  obtain ⟨first, second, rest, vtx⟩ := Node.exists_second_of_isProofOfStake proofOfStake
  refine inBounds_bind.mpr ⟨inBounds_readAt.mpr (by simp [vtx]), fun tx found => ?_⟩
  have mem := List.mem_of_getElem? (readAt_eq_ok.mp found)
  refine inBounds_bind.mpr ⟨inBounds_plainly _, fun _ _ => ?_⟩
  refine inBounds_bind.mpr ⟨inBounds_plainly _, fun _ _ => ?_⟩
  have asked := CTransaction.inBounds_isZerocoinSpendRead.mpr (checked.spends tx mem)
  refine inBounds_bind.mpr ⟨asked, fun zerocoinSpend _ => ?_⟩
  split_ifs
  · exact inBounds_ok ()
  · exact inBounds_plainly _
  · exact inBounds_plainly _

theorem inBounds_acceptContents : InBounds (store.acceptContents block block.isProofOfStake) := by
  unfold acceptContents
  split
  · exact inBounds_ok _
  · refine inBounds_bind.mpr ⟨inBounds_contextualCheckBlock checked, fun _ _ => ?_⟩
    refine inBounds_bind.mpr ⟨?_, fun _ _ => ?_⟩
    · exact inBounds_requireWhen.mpr fun proofOfStake =>
        inBounds_checkStakeInputs checked proofOfStake
    · exact inBounds_bind.mpr ⟨inBounds_plainly _, fun _ _ => inBounds_ok _⟩

private theorem inBounds_afterWork :
    InBounds (requireWhen block.isProofOfStake (store.checkProofOfStake block) >>= fun _ =>
        store.acceptBlockHeader block >>= fun _ =>
          store.acceptContents block block.isProofOfStake) ↔
      (block.isProofOfStake = true → store.index.KernelInside block) ∧
        (block.hash ∉ store.index.tree.blocks → store.checkKnownParent block = .ok () →
          store.hasModifierV2 block = true → 1 < block.vtx.length) := by
  have rest : InBounds (store.acceptBlockHeader block >>= fun _ =>
      store.acceptContents block block.isProofOfStake) ↔ _ :=
    (inBounds_bind.trans (and_iff_left fun _ _ => inBounds_acceptContents checked)).trans
      (inBounds_acceptBlockHeader checked)
  rw [inBounds_bind, rest]
  cases proofOfStake : block.isProofOfStake with
  | false => simp [requireWhen]
  | true =>
    obtain ⟨first, second, others, vtx⟩ := Node.exists_second_of_isProofOfStake proofOfStake
    have long : 1 < block.vtx.length := by simp [vtx]
    simp [requireWhen, inBounds_checkProofOfStake proofOfStake, long]

theorem inBounds_acceptBlock :
    InBounds (store.acceptBlock block) ↔ store.AcceptBlockInside block := by
  have worked : InBounds (store.acceptAfterParent block) ↔
      (store.isWorkedOn block = true →
        (block.isProofOfStake = true → store.index.KernelInside block) ∧
        (block.hash ∉ store.index.tree.blocks → store.checkKnownParent block = .ok () →
          store.hasModifierV2 block = true → 1 < block.vtx.length)) := by
    unfold acceptAfterParent
    rw [CBlock.isProofOfStakeRead_eq, Refines.inBounds_bind (Refines.plain _)]
    simp only [inBounds_plainly, true_and, require_eq_ok, forall_const]
    exact imp_congr_right fun _ => inBounds_afterWork checked
  unfold acceptBlock
  rw [Refines.inBounds_bind (Refines.plain _)]
  constructor
  · rintro ⟨-, bounds⟩
    have reached : store.checkParent block = .ok false → _ :=
      fun parent => worked.mp (bounds false parent)
    exact ⟨fun parent work => (reached parent work).1, fun parent work => (reached parent work).2⟩
  · intro inside
    refine ⟨inBounds_plainly _, fun reconsidered parent => ?_⟩
    cases reconsidered with
    | true => exact inBounds_ok _
    | false =>
      exact worked.mpr fun work => ⟨inside.kernel parent work, inside.modifier parent work⟩

end

theorem checked_of_checkBlockRead
    (passed : store.budgets.checkBlockRead store.node block = .ok ()) : Checked block := by
  have bounds : InBounds (store.budgets.checkBlockRead store.node block) := by
    rw [passed]
    exact inBounds_ok ()
  have inside := Budgets.inBounds_checkBlockRead.mp bounds
  have plain := Budgets.refines_checkBlockRead.eq_ok passed
  obtain ⟨⟨first, rest, vtx, -, -⟩, inputs⟩ := Node.checkBlock_shape plain
  rw [Budgets.checkBlock_eq] at plain
  obtain ⟨_, shape, plain⟩ := bind_eq_ok.mp plain
  obtain ⟨fColdStakingActive, payee, plain⟩ := bind_eq_ok.mp plain
  obtain ⟨_, rounds, -⟩ := bind_eq_ok.mp plain
  refine ⟨by simp [vtx], inputs, fun tx mem => ?_⟩
  obtain ⟨before, after, split⟩ := List.append_of_mem mem
  rw [split, List.foldlM_append] at rounds
  obtain ⟨vBlockSerials, earlier, rounds⟩ := bind_eq_ok.mp rounds
  obtain ⟨_, round, -⟩ := foldlM_cons_eq_ok.mp rounds
  obtain ⟨_, transaction, -⟩ := bind_eq_ok.mp round
  rw [Node.checkTransaction_eq] at transaction
  obtain ⟨_, outputs, -⟩ := bind_eq_ok.mp transaction
  exact inside.spends shape fColdStakingActive payee before tx after vBlockSerials split earlier
    outputs

/-- **A received block is read inside its vectors exactly when it has what the unchecked
reads take for granted.** `CheckBlock` must find a second transaction where it looks for the
payee there, and a script wherever it asks for a zerocoin spend, for the masternode payment
already. If the block passes, its
coinstake must name an output that the transaction it names has, and it must have a second
transaction where the second version of the stake modifier is computed. -/
theorem inBounds_processNewBlock_iff (store : BlockStore) (block : CBlock) :
    InBounds (store.processNewBlock block) ↔
      store.budgets.CheckBlockInside store.node block ∧
        ((store.node.withBudgets store.budgets).checkBlock block true = .ok () →
          store.checkBlockSignature block = true → store.AcceptBlockInside block) := by
  unfold processNewBlock
  rw [Refines.inBounds_bind Budgets.refines_checkBlockRead, Budgets.inBounds_checkBlockRead]
  refine and_congr_right fun inside => ?_
  have bounds := Budgets.inBounds_checkBlockRead.mpr inside
  constructor
  · intro accepts passed signed
    have read := (Budgets.refines_checkBlockRead bounds).trans (congrArg plainly passed)
    have accept := (inBounds_bind.mp (accepts () passed)).2 () (by rw [signed]; rfl)
    exact (inBounds_acceptBlock (checked_of_checkBlockRead read)).mp accept
  · intro accepts _ passed
    have read := (Budgets.refines_checkBlockRead bounds).trans (congrArg plainly passed)
    refine inBounds_bind.mpr ⟨inBounds_plainly _, fun _ signed => ?_⟩
    have signature := require_eq_ok.mp (plainly_eq_ok.mp signed)
    exact (inBounds_acceptBlock (checked_of_checkBlockRead read)).mpr (accepts passed signature)

/-! ## Blocks that are read outside

A node of the regression test network, where the last proof-of-work block is at height 250
and the second version of the stake modifier starts at 255. Its chain has the heights up to
255, each block named by its height and one more. -/

/-- A chain without forks. -/
def straightTree (height : ℕ) : BlockTree UInt256 where
  blocks := (List.range (height + 1)).map fun h => BitVec.ofNat 256 (h + 1)
  pprev b := if 2 ≤ b.toNat ∧ b.toNat ≤ height + 1 then some (b - 1) else none
  nHeight b := b.toNat - 1
  nChainWork b := b.toNat
  known b p above := by
    split at above
    · rename_i bounds
      cases above
      have below : (b - 1).toNat = b.toNat - 1 := BitVec.toNat_sub_of_le (by bv_omega)
      have named : ∀ c : UInt256, 1 ≤ c.toNat → c.toNat ≤ height + 1 →
          c ∈ (List.range (height + 1)).map fun h => BitVec.ofNat 256 (h + 1) := by
        intro c lower upper
        refine List.mem_map.mpr ⟨c.toNat - 1, List.mem_range.mpr (by omega), ?_⟩
        rw [Nat.sub_add_cancel lower, BitVec.ofNat_toNat, BitVec.setWidth_eq]
      exact ⟨named b (by omega) bounds.2, named (b - 1) (by omega) (by omega)⟩
    · cases above
  grows b p above := by
    split at above
    · rename_i bounds
      cases above
      have below : (b - 1).toNat = b.toNat - 1 := BitVec.toNat_sub_of_le (by bv_omega)
      omega
    · cases above

/-- The blocks up to height 255, where transaction 7 has one output. -/
def straightIndex : StakeIndex where
  params := .regtest
  script := ⟨CheckInputs.sampleCrypto, fun _ _ _ _ _ => true⟩
  tree := straightTree 255
  nTime _ := 1600000000
  nStakeModifier _ := 0
  generatedStakeModifier _ := false
  nStakeModifierV2 _ := 0
  getTransaction txid :=
    if txid = 7 then some (⟨7, 1, [], [.of (100 * COIN) [0x51]], 0⟩, 100) else none
  hashKernel _ _ _ _ := 0

/-- A node at height 255, whose masternode list is synced or not. -/
def sample (isSynced : Bool) : BlockStore where
  node := { Node.sample .regtest with
    tip := some ⟨256, 255, 1600000000, 8000000 * COIN⟩
    indexedHeight := fun hash =>
      if hash ∈ straightIndex.tree.blocks then some (straightIndex.tree.nHeight hash : Int) else none
    isTransactionInChain := straightIndex.isTransactionInChain 256
    isSynced := isSynced }
  budgets := ⟨[], 0, fun _ => none, fun _ => none⟩
  index := straightIndex
  tip := ⟨256, 255, 1600000000, 8000000 * COIN⟩
  marks _ := {}
  readBlockFromDisk _ := none
  pcoinsTip _ := {}
  matchesCheckpoint _ _ := false
  reconsiderBlock _ := false
  checkWork _ _ := true
  contextualCheckBlockHeader _ _ := true
  checkBlockSignature _ := true
  nVersion _ := 7
  node_tip := rfl
  tip_known := by decide
  tip_height := rfl
  params_eq := rfl
  script_eq := rfl
  indexedHeight_eq _ := rfl
  inChain_eq _ := rfl

def coinBaseWith (scriptSig : CScript) : CTransaction :=
  ⟨1, 1, [⟨.null, scriptSig, 0xffffffff⟩], [.of 0 []], 0⟩

/-- A block after the tip with the given transactions. -/
def blockAtTip (vtx : List CTransaction) : CBlock where
  hash := 1001
  hashPrevBlock := 256
  hashMerkleRoot := 42
  nTime := 1600000060
  nBits := 0x207fffff
  vtx := vtx

def lonelyBlock : CBlock := blockAtTip [coinBaseWith [0x51, 0x51]]

def misplacedStake : CBlock :=
  blockAtTip [coinBaseWith [0x51, 0x51],
    ⟨2, 1, [⟨⟨7, 5⟩, [], 0xffffffff⟩], [.of 0 [], .of (100 * COIN) [0x51]], 0⟩]

/-- The synced node with a payee of enough votes for the next height. -/
def payingSample : BlockStore :=
  { sample true with
    budgets := ⟨[], 0, fun _ => none, fun nHeight =>
      if nHeight = 256 then some [([0x51], 6)] else none⟩ }

/-- Its second transaction has an input without a script and without a transaction to spend. -/
def scriptlessSpend : CBlock :=
  blockAtTip [coinBaseWith [0x51, 0x51],
    ⟨2, 1, [⟨⟨0, 0⟩, [], 0xffffffff⟩], [.of (100 * COIN) [0x51]], 0⟩]

/-- A proof-of-work block with nothing but its coinbase is read outside by a synced node in
`IsBlockPayeeValid`. Another node passes it on to `AddToBlockIndex`, which reads outside. So
does `initStakeInput` for a stake that passes `CheckBlock`, and `CheckBlock` for a coinbase
without a script, and for a second transaction without one where the masternode payment is
looked at. -/
theorem processNewBlock_outOfBounds :
    (sample true).processNewBlock lonelyBlock = .error .outOfBounds ∧
      ((sample false).budgets.checkBlockRead (sample false).node lonelyBlock = .ok () ∧
        (sample false).processNewBlock lonelyBlock = .error .outOfBounds) ∧
      ((sample true).budgets.checkBlockRead (sample true).node misplacedStake = .ok () ∧
        (sample true).processNewBlock misplacedStake = .error .outOfBounds) ∧
      (sample true).processNewBlock (blockAtTip [coinBaseWith []]) = .error .outOfBounds ∧
      payingSample.budgets.checkPayeeRead payingSample.node scriptlessSpend = .error .outOfBounds ∧
      payingSample.processNewBlock scriptlessSpend = .error .outOfBounds := by
  refine ⟨?_, ⟨?_, ?_⟩, ⟨?_, ?_⟩, ?_, ?_, ?_⟩
  all_goals decide

end BlockStore

end DogeCash
