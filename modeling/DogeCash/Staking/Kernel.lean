import DogeCash.Chain.BlockTree
import DogeCash.Primitives.Compact
import DogeCash.Staking.Modifier
import DogeCash.Validation.CheckInputs

/-! # The kernel of a proof of stake

`CheckProofOfStake` finds the output that a coinstake spends first, checks its script, its
age and the hash of the kernel. The block that the output comes from has to be in the active
chain, and the first version of the stake modifier is looked for along the active chain,
where the block itself need not belong.
-/

namespace DogeCash

/-- Why `CheckProofOfStake` does not return true: it returns false, or it reads an element
that a vector does not have. -/
inductive KernelFailure where
  | rejected | outOfBounds

/-- What is hashed for the modifier. -/
inductive KernelModifier where
  | v1 (nStakeModifier : UInt64)
  | v2 (nStakeModifierV2 : UInt256)
  deriving DecidableEq

/-- `CDOGECStake`: an output that is there. -/
structure CDOGECStake where
  txFrom : CTransaction
  nPosition : UInt32
  inside : nPosition.toNat < txFrom.vout.length

def CDOGECStake.getValue (stake : CDOGECStake) : Int :=
  (stake.txFrom.vout.get ⟨stake.nPosition.toNat, stake.inside⟩).nValue

/-- What nodes have in common that know the same blocks: the tree of index entries with
their times and modifiers, and the transaction index. -/
structure StakeIndex where
  params : ChainParams
  script : ScriptEnv
  tree : BlockTree UInt256
  nTime : UInt256 → UInt32
  nStakeModifier : UInt256 → UInt64
  generatedStakeModifier : UInt256 → Bool
  nStakeModifierV2 : UInt256 → UInt256
  /-- `GetTransaction`: a transaction with the block it is in. -/
  getTransaction : UInt256 → Option (CTransaction × UInt256)
  /-- The hash of the modifier, the time of the origin, the outpoint and the time. -/
  hashKernel : KernelModifier → UInt32 → COutPoint → UInt32 → UInt256

namespace ChainParams

def hasStakeMinAgeOrDepth (params : ChainParams) (contextHeight : Int) (contextTime : UInt32)
    (utxoFromBlockHeight : Int) (utxoFromBlockTime : UInt32) : Bool :=
  if !params.isStakeModifierV2 contextHeight then
    params.networkID = .regtest ||
      utxoFromBlockTime + UInt32.ofNat params.nStakeMinAge.toNat ≤ contextTime
  else params.nStakeMinDepth ≤ contextHeight - utxoFromBlockHeight

end ChainParams

namespace StakeIndex

variable (index : StakeIndex)

def initStakeInput (block : CBlock) : Except KernelFailure CDOGECStake :=
  match block.vtx[1]? with
  | none => .error .outOfBounds
  | some tx =>
    if !tx.isCoinStake then .error .rejected
    else
      match tx.vin with
      | [] => .error .outOfBounds
      | txin :: _ =>
        match index.getTransaction txin.prevout.hash with
        | none => .error .rejected
        | some (txPrev, _) =>
          if inside : txin.prevout.n.toNat < txPrev.vout.length then
            let scriptPubKey := (txPrev.vout.get ⟨txin.prevout.n.toNat, inside⟩).scriptPubKey
            match Interpreter.verifyScript index.script.crypto (index.script.checker tx 0)
              .standard txin.scriptSig scriptPubKey with
            | .error _ => .error .rejected
            | .ok () => .ok ⟨txPrev, txin.prevout.n, inside⟩
          else .error .outOfBounds

def originOf (stake : CDOGECStake) : Option UInt256 :=
  match index.getTransaction stake.txFrom.hash with
  | none => none
  | some (_, hashBlock) => if hashBlock ∈ index.tree.blocks then some hashBlock else none

section ActiveChain

variable (tip : UInt256)

/-- `chainActive` of a node with a tip, by heights. -/
def chainActive : List UInt256 := (index.tree.lineage tip).reverse

def contains (block : UInt256) : Bool :=
  (index.chainActive tip)[index.tree.nHeight block]? = some block

def getIndexFrom (stake : CDOGECStake) : Option UInt256 :=
  (index.originOf stake).filter (index.contains tip)

/-- The loop of `GetKernelStakeModifier` on the blocks above the origin, from the time
`nStakeModifierTime` on: the block at which it ends. It fails at the end of the chain. -/
def modifierWalk (intervalEnd : Int) : List UInt256 → Int → Option UInt256
  | [], _ => none
  | pindex :: rest, nStakeModifierTime =>
    let time := if index.generatedStakeModifier pindex then ((index.nTime pindex).toNat : Int)
      else nStakeModifierTime
    if time < intervalEnd then modifierWalk intervalEnd rest time else some pindex

/-- `GetKernelStakeModifier` for an indexed block. -/
def getKernelStakeModifier (blockFrom : UInt256) : Option UInt64 :=
  if index.params.networkID = .regtest then some 0
  else
    let nTimeFrom : Int := (index.nTime blockFrom).toNat
    (index.modifierWalk (nTimeFrom + oldModifierInterval)
      ((index.chainActive tip).drop (index.tree.nHeight blockFrom + 1)) nTimeFrom).map
        index.nStakeModifier

/-- The modifier that `GetHashProofOfStake` hashes for a block after `pindexPrev`. -/
def kernelModifier (pindexPrev blockFrom : UInt256) : Option KernelModifier :=
  if !index.params.isStakeModifierV2 (index.tree.nHeight pindexPrev + 1) then
    (index.getKernelStakeModifier tip blockFrom).map .v1
  else some (.v2 (index.nStakeModifierV2 pindexPrev))

def getHashProofOfStake (pindexPrev : UInt256) (stake : CDOGECStake) (nTimeTx : UInt32) :
    Option UInt256 :=
  match index.getIndexFrom tip stake with
  | none => none
  | some blockFrom =>
    (index.kernelModifier tip pindexPrev blockFrom).map fun modifier =>
      index.hashKernel modifier (index.nTime blockFrom) ⟨stake.txFrom.hash, stake.nPosition⟩
        nTimeTx

/-- The target of `CheckStakeKernelHash`, weighted with the value that is staked. -/
def kernelTarget (nBits : UInt32) (nValueIn : Int) : UInt256 :=
  UInt256.setCompact nBits * (BitVec.ofInt 256 (nValueIn % 2 ^ 64) / 100)

/-- `CheckStakeKernelHash`, with the hash it computes. -/
def checkStakeKernelHash (pindexPrev : UInt256) (nBits : UInt32) (stake : CDOGECStake)
    (nTimeTx : UInt32) : Except KernelFailure Unit × Option UInt256 :=
  match index.getHashProofOfStake tip pindexPrev stake nTimeTx with
  | none => (.error .rejected, none)
  | some hashProofOfStake =>
    (if hashProofOfStake < kernelTarget nBits stake.getValue then .ok () else .error .rejected,
      some hashProofOfStake)

def isMature (block : CBlock) (blockFrom : UInt256) : Bool :=
  index.params.hasStakeMinAgeOrDepth (index.tree.nHeight block.hashPrevBlock + 1) block.nTime
    (index.tree.nHeight blockFrom) (index.nTime blockFrom)

def isUnchecked (block : CBlock) : Bool :=
  block.nTime ≤ UInt32.ofNat index.params.nDogecBadBlockTime.toNat

/-- `CheckProofOfStake` on a node with the given active tip, with `hashProofOfStake` where it
is assigned. -/
def checkProofOfStake (block : CBlock) : Except KernelFailure Unit × Option UInt256 :=
  match index.initStakeInput block with
  | .error failure => (.error failure, none)
  | .ok stake =>
    match index.getIndexFrom tip stake with
    | none => (.error .rejected, none)
    | some blockFrom =>
      if index.isUnchecked block then (.ok (), none)
      else if !index.isMature block blockFrom then (.error .rejected, none)
      else index.checkStakeKernelHash tip block.hashPrevBlock block.nBits stake block.nTime

end ActiveChain

end StakeIndex

end DogeCash
