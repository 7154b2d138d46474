import DogeCash.Chain.BlockIndex
import DogeCash.Staking.Kernel
import DogeCash.Validation.CheckBlockReads
import DogeCash.Validation.ConnectBlock

/-! # Accepting a block

`AcceptBlock` puts a block that has passed `CheckBlock` into the block index and on disk. It
looks at the parent, the work, the proof of stake and the inputs of the coinstake: whether
the block and, if it is on a fork, the blocks of its branch spend them already.

The functions are written with their unchecked reads, as those of `CheckBlock` are. What the
node knows is the `BlockStore`; the two views that validation has of the active chain, the
one by heights and the one by index entries, are views of one chain.
-/

namespace DogeCash

/-- `IsTransactionInChain` and `IsBlockHashInChain`: the height at which the active chain has
a transaction. -/
def StakeIndex.isTransactionInChain (index : StakeIndex) (tip txid : UInt256) : Option Int :=
  match index.getTransaction txid with
  | none => none
  | some (_, hashBlock) =>
    if hashBlock ≠ 0 ∧ hashBlock ∈ index.tree.blocks ∧ index.contains tip hashBlock then
      some (index.tree.nHeight hashBlock)
    else none

/-- What `AcceptBlock` reads of the node. -/
structure BlockStore where
  node : Node
  budgets : Budgets
  index : StakeIndex
  tip : ChainTip
  marks : UInt256 → BlockMarks
  readBlockFromDisk : UInt256 → Option CBlock
  pcoinsTip : CoinsMap
  /-- `Checkpoints::CheckBlock` where a match is demanded. -/
  matchesCheckpoint : Int → UInt256 → Bool
  /-- Whether `ReconsiderBlock` leaves a valid state behind. -/
  reconsiderBlock : UInt256 → Bool
  /-- `CheckWork`, after the parent. -/
  checkWork : CBlock → UInt256 → Bool
  /-- `ContextualCheckBlockHeader`, after the parent. -/
  contextualCheckBlockHeader : CBlock → UInt256 → Bool
  checkBlockSignature : CBlock → Bool
  nVersion : CBlock → Int
  node_tip : node.tip = some tip
  tip_known : tip.hash ∈ index.tree.blocks
  tip_height : tip.nHeight = index.tree.nHeight tip.hash
  params_eq : index.params = node.params
  script_eq : index.script = node.script
  indexedHeight_eq : ∀ hash, node.indexedHeight hash =
    if hash ∈ index.tree.blocks then some (index.tree.nHeight hash : Int) else none
  inChain_eq : ∀ txid, node.isTransactionInChain txid = index.isTransactionInChain tip.hash txid

/-- The ways in which `AcceptBlock` returns true. -/
inductive Acceptance where
  | reconsidered | alreadyHave | stored
  deriving DecidableEq

/-- `LOCKTIME_THRESHOLD` -/
def locktimeThreshold : Int := 500000000

/-- `CScript() << nHeight` -/
def CScript.pushInt (n : Int) : CScript :=
  if n = -1 ∨ 1 ≤ n ∧ n ≤ 16 then [UInt8.ofNat (n + 0x50).toNat]
  else if n = 0 then [0]
  else pushData (ScriptNum.serialize n)

/-- The height of the block in the active chain that spends a serial, as
`IsSerialInBlockchain` finds it. -/
def Node.serialHeight (node : Node) (serial : Int) : Option Int :=
  (node.zerocoin.readCoinSpend serial).bind node.isTransactionInChain

namespace BlockStore

variable (store : BlockStore)

/-- `chainActive.Contains` -/
def contains (hash : UInt256) : Bool := store.index.contains store.tip.hash hash

def heightOf (block : CBlock) : Int :=
  if block.hash ∈ store.index.tree.blocks then store.index.tree.nHeight block.hash
  else store.index.tree.nHeight block.hashPrevBlock + 1

def isFinalTx (tx : CTransaction) (nBlockHeight nBlockTime : Int) : Bool :=
  let height := if nBlockHeight = 0 then store.node.chainHeight else nBlockHeight
  let time := if nBlockTime = 0 then store.node.getAdjustedTime else nBlockTime
  let nLockTime : Int := tx.nLockTime.toNat
  tx.nLockTime = 0 ||
    nLockTime < (if nLockTime < locktimeThreshold then height else time) ||
    tx.vin.all fun txin => txin.nSequence = 0xffffffff

/-- The parent of the block: whether it is reconsidered, after which `AcceptBlock` returns
true without looking at the block. -/
def checkParent (block : CBlock) : Except Failure Bool :=
  if block.hash = store.node.params.hashGenesisBlock then .ok false
  else if block.hashPrevBlock ∉ store.index.tree.blocks then .error (.invalid 0 "bad-prevblk")
  else if (store.marks block.hashPrevBlock).failed then
    if store.matchesCheckpoint (store.index.tree.nHeight block.hashPrevBlock)
        block.hashPrevBlock && store.reconsiderBlock block.hashPrevBlock then .ok true
    else .error (.invalid 100 "bad-prevblk")
  else .ok false

/-- `CheckProofOfStake`, as `AcceptBlock` reports it. -/
def checkProofOfStake (block : CBlock) : Except (Abort Failure) Unit :=
  match (store.index.checkProofOfStake store.tip.hash block).1 with
  | .ok () => .ok ()
  | .error .rejected => .error (.failed (.invalid 100 ""))
  | .error .outOfBounds => .error .outOfBounds

/-- `AddToBlockIndex`: the transaction whose id goes into the second version of the stake
modifier. -/
def addToBlockIndex (block : CBlock) : Except (Abort Failure) (Option UInt256) :=
  if block.hashPrevBlock ∈ store.index.tree.blocks then
    if !store.node.params.isStakeModifierV2 (store.index.tree.nHeight block.hashPrevBlock + 1) then
      .ok none
    else do
      let tx ← readAt block.vtx 1
      let txin ← readAt tx.vin 0
      return some txin.prevout.hash
  else .ok none

/-- The parent, as `AcceptBlockHeader` looks it up once more. -/
def checkKnownParent (block : CBlock) : Except Failure Unit :=
  if block.hash = store.node.params.hashGenesisBlock then .ok ()
  else do
    require (block.hashPrevBlock ∈ store.index.tree.blocks) (.invalid 0 "bad-prevblk")
    require (!(store.marks block.hashPrevBlock).failed) (.invalid 100 "bad-prevblk")
    require (store.contextualCheckBlockHeader block block.hashPrevBlock) (.invalid 0 "")

def acceptBlockHeader (block : CBlock) : Except (Abort Failure) Unit :=
  if block.hash ∈ store.index.tree.blocks then
    plainly (require (!(store.marks block.hash).failed) (.invalid 0 "duplicate"))
  else do
    plainly (store.checkKnownParent block)
    let _ ← store.addToBlockIndex block
    return ()

def contextualCheckBlock (block : CBlock) : Except (Abort Failure) Unit := do
  plainly (require (block.vtx.all fun tx =>
    store.isFinalTx tx (store.heightOf block) block.nTime.toNat) (.invalid 10 "bad-txns-nonfinal"))
  if 2 ≤ store.nVersion block ∧ store.node.params.nStartBIP65 ≤ store.heightOf block then do
    let tx ← readAt block.vtx 0
    let txin ← readAt tx.vin 0
    plainly (require ((CScript.pushInt (store.heightOf block)).isPrefixOf txin.scriptSig)
      (.invalid 100 "bad-cb-height"))
  else return ()

/-! ## The inputs of the coinstake -/

def serialOf (txin : CTxIn) : Except Failure Int :=
  match store.node.zerocoin.txInToZerocoinSpend txin with
  | none => .error .exception
  | some spend => .ok spend.coinSerialNumber

def dogecInputs (stakeTxIn : CTransaction) : List CTxIn :=
  stakeTxIn.vin.filter fun txin => !CScript.isZerocoinSpend txin.scriptSig

/-- One round of the scan of the block itself, with `inBlockSerials` after it. -/
def scanOwnInput (stakeInputs : List CTxIn) (nHeight : Int) (tx : CTransaction)
    (inBlockSerials : List Int) (txin : CTxIn) : Except Failure (List Int) := do
  let serials ←
    if store.node.params.nZerocoinStartHeight ≤ nHeight ∧
        CScript.isZerocoinSpend txin.scriptSig then do
      let serial ← store.serialOf txin
      require (!inBlockSerials.contains serial) (.invalid 100 "")
      return inBlockSerials ++ [serial]
    else .ok inBlockSerials
  require (tx.isCoinStake || !stakeInputs.any fun stakeIn => stakeIn.prevout == txin.prevout)
    (.invalid 0 "")
  return serials

def scanOwnBlock (stakeInputs : List CTxIn) (nHeight : Int) (block : CBlock) :
    Except Failure (List Int) :=
  block.vtx.foldlM (fun inBlockSerials tx =>
    tx.vin.foldlM (store.scanOwnInput stakeInputs nHeight tx) inBlockSerials) []

/-- The innermost loop over the branch: one input of a block against one input of the
coinstake. -/
def scanPair (txin : CTxIn) (vBlockSerials : List Int) (stakeIn : CTxIn) :
    Except Failure (List Int) := do
  require (stakeIn.prevout != txin.prevout) (.invalid 100 "")
  if CScript.isZerocoinSpend txin.scriptSig then do
    let serial ← store.serialOf txin
    return vBlockSerials ++ [serial]
  else return vBlockSerials

/-- The loops over a block of the branch. -/
def scanBlock (stakeInputs : List CTxIn) (bl : CBlock) (vBlockSerials : List Int) :
    Except Failure (List Int) :=
  bl.vtx.foldlM (fun vBlockSerials t =>
    t.vin.foldlM (fun vBlockSerials txin =>
      stakeInputs.foldlM (store.scanPair txin) vBlockSerials) vBlockSerials) vBlockSerials

/-- The loop back to the active chain, over a block and its ancestors: the block in which it
ends, and the serials that the branch spends. `bl` is the first of the blocks. -/
def walkBranch (stakeInputs : List CTxIn) : List UInt256 → CBlock → Int → List Int →
    Except Failure (UInt256 × List Int)
  | [], _, _, _ => .error .exception
  | prev :: rest, bl, readBlock, vBlockSerials =>
    if store.contains prev then .ok (prev, vBlockSerials)
    else if readBlock + 1 = store.node.params.nMaxReorganizationDepth then .error (.invalid 0 "")
    else do
      let vBlockSerials ← store.scanBlock stakeInputs bl vBlockSerials
      match rest.head?.bind store.readBlockFromDisk with
      | none => .error (.invalid 0 "")
      | some before => walkBranch stakeInputs rest before (readBlock + 1) vBlockSerials

/-- The checks of one zerocoin input of the coinstake of a block on a fork. -/
def checkForkedSpend (stakeTxIn : CTransaction) (nHeight splitHeight : Int)
    (vBlockSerials : List Int) (txin : CTxIn) : Except Failure Unit :=
  match store.node.zerocoin.txInToZerocoinSpend txin with
  | none => .error .exception
  | some spend => do
    require (!vBlockSerials.contains spend.coinSerialNumber) (.invalid 100 "")
    require ((store.node.serialHeight spend.coinSerialNumber).all fun nHeightTx =>
      !(nHeightTx ≤ splitHeight)) (.invalid 100 "")
    require (store.node.contextualCheckZerocoinSpendNoSerialCheck stakeTxIn spend nHeight)
      (.invalid 100 "bad-txns-invalid-zdogec")
    match store.node.zerocoin.readAccumulatorValue spend.accChecksum with
    | none => .error (.invalid 100 "")
    | some value =>
      require (spend.verify value !store.node.isBlockBetweenFakeSerialAttackRange nHeight)
        (.invalid 100 "")

/-- The branch of a block that is not on the active tip. -/
def checkFork (stakeTxIn : CTransaction) (nHeight : Int) (pindexPrev : UInt256) :
    Except Failure Unit :=
  match store.readBlockFromDisk pindexPrev with
  | none => .error (.invalid 0 "")
  | some bl => do
    let (prev, vBlockSerials) ←
      store.walkBranch (dogecInputs stakeTxIn) (store.index.tree.lineage pindexPrev) bl 0 []
    stakeTxIn.zerocoinInputs.foldlM (fun _ txin =>
      store.checkForkedSpend stakeTxIn nHeight (store.index.tree.nHeight prev) vBlockSerials
        txin) ()

def haveStakedCoins (stakeTxIn : CTransaction) : Bool :=
  stakeTxIn.vin.all fun txin => store.pcoinsTip.haveCoins txin.prevout.hash &&
    (store.pcoinsTip txin.prevout.hash).isAvailable txin.prevout.n

/-- The zerocoin inputs of a block on the active tip. -/
def checkTipSpend (stakeTxIn : CTransaction) (nHeight : Int) (_ : Unit) (txin : CTxIn) :
    Except Failure Unit :=
  match store.node.zerocoin.txInToZerocoinSpend txin with
  | none => .error .exception
  | some spend =>
    require (store.node.contextualCheckZerocoinSpend stakeTxIn spend nHeight)
      (.invalid 100 "bad-txns-invalid-zdogec")

/-- The inputs of the coinstake against the coins of the active chain. -/
def checkStakedCoins (stakeTxIn : CTransaction) (nHeight : Int) (isBlockFromFork : Bool) :
    Except (Abort Failure) Unit := do
  let zerocoinSpend ← stakeTxIn.isZerocoinSpendRead
  if isBlockFromFork then return ()
  else if !zerocoinSpend then plainly (require (store.haveStakedCoins stakeTxIn) (.invalid 0 ""))
  else plainly (stakeTxIn.zerocoinInputs.foldlM (store.checkTipSpend stakeTxIn nHeight) ())

/-- The checks of `AcceptBlock` on the inputs of a proof-of-stake block. -/
def checkStakeInputs (block : CBlock) : Except (Abort Failure) Unit := do
  let isBlockFromFork := block.hash ≠ store.node.params.hashGenesisBlock ∧
    store.tip.hash ≠ block.hashPrevBlock
  let stakeTxIn ← readAt block.vtx 1
  let _ ← plainly (store.scanOwnBlock (dogecInputs stakeTxIn) (store.heightOf block) block)
  plainly (requireWhen isBlockFromFork
    (store.checkFork stakeTxIn (store.heightOf block) block.hashPrevBlock))
  store.checkStakedCoins stakeTxIn (store.heightOf block) isBlockFromFork

/-- `AcceptBlock` once the header is in the index. -/
def acceptContents (block : CBlock) (isPoS : Bool) : Except (Abort Failure) Acceptance :=
  if block.hash ∈ store.index.tree.blocks ∧ (store.marks block.hash).haveData then
    return .alreadyHave
  else do
    store.contextualCheckBlock block
    requireWhen isPoS (store.checkStakeInputs block)
    plainly (require store.node.writesSucceed .abort)
    return .stored

/-- `AcceptBlock` from the check of the work on. -/
def acceptAfterParent (block : CBlock) : Except (Abort Failure) Acceptance := do
  plainly (require (block.hash = store.node.params.hashGenesisBlock ||
    store.checkWork block block.hashPrevBlock) (.invalid 0 ""))
  let isPoS ← block.isProofOfStakeRead
  requireWhen isPoS (store.checkProofOfStake block)
  store.acceptBlockHeader block
  store.acceptContents block isPoS

/-- `AcceptBlock` on a block that `CheckBlock` has passed. -/
def acceptBlock (block : CBlock) : Except (Abort Failure) Acceptance := do
  let reconsidered ← plainly (store.checkParent block)
  if reconsidered then return .reconsidered else store.acceptAfterParent block

/-- `CheckBlock` and `AcceptBlock`, as `ProcessNewBlock` calls them on a block from the
network. -/
def processNewBlock (block : CBlock) : Except (Abort Failure) Acceptance := do
  store.budgets.checkBlockRead store.node block
  plainly (require (store.checkBlockSignature block) (.invalid 0 ""))
  store.acceptBlock block

end BlockStore

end DogeCash
