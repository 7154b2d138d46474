import DogeCash.Foundation.FixedWidth
import DogeCash.Primitives.Transaction

/-! # Votes on payees and on transaction locks

Two more kinds of masternode votes. `mnw` names the payee of a coming block; a
masternode votes once for a height, which `CanVote` records. `txlvote` locks a
transaction; the votes of a transaction are collected in its lock.
-/

namespace DogeCash

open Function (update)

/-- `MESS_VER_HASH` -/
def messVerHash : Int := 1

/-- `MNPAYMENTS_SIGNATURES_TOTAL` -/
def mnPaymentsSignaturesTotal : Int := 10

/-- `SWIFTTX_SIGNATURES_REQUIRED` -/
def swiftTxSignaturesRequired : Int := 6

/-- `SWIFTTX_SIGNATURES_TOTAL` -/
def swiftTxSignaturesTotal : Int := 10

def COutPoint.sum (out : COutPoint) : UInt256 := out.hash + BitVec.ofNat 256 out.n.toNat

/-! ## Payees -/

structure CMasternodePaymentWinner where
  vinMasternode : CTxIn
  nBlockHeight : Int
  payee : CScript
  vchSig : List UInt8
  nMessVersion : Int

/-- What the handler of `mnw` asks the rest of the node. -/
structure PaymentEnv where
  fLiteMode : Bool
  isBlockchainSynced : Bool
  activeProtocol : Int
  tipHeight : Option Int
  countEnabled : Int
  newSigsActive : Int → Bool
  /-- The protocol version of a masternode that `CMasternodeMan::Find` finds. -/
  findProtocol : COutPoint → Option Int
  /-- `CMasternodeMan::GetMasternodeRank` with the active protocol. -/
  getMasternodeRank : COutPoint → Int → Int
  winnerHash : CScript → Int → COutPoint → UInt256
  checkSignature : CMasternodePaymentWinner → Bool
  /-- Whether `GetBlockHash` finds the block of a height. -/
  hasBlockHash : Int → Bool

/-- The maps of `CMasternodePayments`. -/
structure MasternodePayments where
  mapMasternodePayeeVotes : UInt256 → Option CMasternodePaymentWinner
  mapMasternodesLastVote : UInt256 → Option Int
  mapMasternodeBlocks : Int → Option (List (CScript × Int))

namespace CMasternodePaymentWinner

variable (env : PaymentEnv)

def getHash (winner : CMasternodePaymentWinner) : UInt256 :=
  env.winnerHash winner.payee winner.nBlockHeight winner.vinMasternode.prevout

def isValid (winner : CMasternodePaymentWinner) : Bool :=
  match env.findProtocol winner.vinMasternode.prevout with
  | none => false
  | some protocolVersion =>
    env.activeProtocol ≤ protocolVersion &&
      env.getMasternodeRank winner.vinMasternode.prevout (winner.nBlockHeight - 100) ≤
        mnPaymentsSignaturesTotal

/-- The height of the vote is near the tip. The first block is computed in floating point
and cut off. -/
def inRange (nHeight : Int) (winner : CMasternodePaymentWinner) : Bool :=
  let nFirstBlock := Int.tdiv (4 * nHeight - 5 * env.countEnabled) 4
  nFirstBlock ≤ winner.nBlockHeight && winner.nBlockHeight ≤ nHeight + 20

def isOutdated (winner : CMasternodePaymentWinner) : Bool :=
  winner.nMessVersion ≠ messVerHash && env.newSigsActive (winner.nBlockHeight - 6000)

end CMasternodePaymentWinner

namespace MasternodePayments

/-- `CMasternodeBlockPayees::AddPayee` with one vote. -/
def addPayee (payee : CScript) : List (CScript × Int) → List (CScript × Int)
  | [] => [(payee, 1)]
  | (other, nVotes) :: rest =>
    if other = payee then (other, nVotes + 1) :: rest else (other, nVotes) :: addPayee payee rest

/-- `CMasternodePayments::CanVote`, which records the vote. -/
def canVote (state : MasternodePayments) (outMasternode : COutPoint) (nBlockHeight : Int) :
    Bool × MasternodePayments :=
  if state.mapMasternodesLastVote outMasternode.sum = some nBlockHeight then (false, state)
  else
    (true, { state with
      mapMasternodesLastVote :=
        update state.mapMasternodesLastVote outMasternode.sum (some nBlockHeight) })

variable (env : PaymentEnv)

def addWinningMasternode (state : MasternodePayments) (winner : CMasternodePaymentWinner) :
    Bool × MasternodePayments :=
  if !env.hasBlockHash (winner.nBlockHeight - 100) then (false, state)
  else if (state.mapMasternodePayeeVotes (winner.getHash env)).isSome then (false, state)
  else
    let blockPayees := (state.mapMasternodeBlocks winner.nBlockHeight).getD []
    (true, { state with
      mapMasternodePayeeVotes :=
        update state.mapMasternodePayeeVotes (winner.getHash env) (some winner)
      mapMasternodeBlocks := update state.mapMasternodeBlocks winner.nBlockHeight
        (some (addPayee winner.payee blockPayees)) })

/-- The handler of `mnw` from a peer of some version, with whether the vote was counted.
`CanVote` is asked before the signature is checked. -/
def processWinner (nVersion : Int) (winner : CMasternodePaymentWinner)
    (state : MasternodePayments) : Bool × MasternodePayments :=
  if !env.isBlockchainSynced || env.fLiteMode then (false, state)
  else if nVersion < env.activeProtocol then (false, state)
  else
    match env.tipHeight with
    | none => (false, state)
    | some nHeight =>
      if (state.mapMasternodePayeeVotes (winner.getHash env)).isSome then (false, state)
      else if !winner.inRange env nHeight then (false, state)
      else if winner.isOutdated env then (false, state)
      else if !winner.isValid env then (false, state)
      else
        match state.canVote winner.vinMasternode.prevout winner.nBlockHeight with
        | (false, after) => (false, after)
        | (true, recorded) =>
          if !env.checkSignature winner then (false, recorded)
          else recorded.addWinningMasternode env winner

end MasternodePayments

/-! ## Transaction locks -/

structure CConsensusVote where
  vinMasternode : CTxIn
  txHash : UInt256
  nBlockHeight : Int
  vchSig : List UInt8
  nMessVersion : Int
  deriving DecidableEq

def CConsensusVote.getHash (ctx : CConsensusVote) : UInt256 :=
  ctx.vinMasternode.prevout.sum + ctx.txHash

/-- `CTransactionLock`. The two times are kept in an `int`. -/
structure CTransactionLock where
  nBlockHeight : Int
  vecConsensusVotes : List CConsensusVote
  nExpiration : Int
  nTimeout : Int
  deriving DecidableEq

def CTransactionLock.countSignatures (lock : CTransactionLock) : Int :=
  if lock.nBlockHeight = 0 then -1
  else lock.vecConsensusVotes.countP fun vote => vote.nBlockHeight = lock.nBlockHeight

/-- What the handler of `txlvote` asks the rest of the node. -/
structure SwiftEnv where
  fLiteMode : Bool
  isSwiftTxActive : Bool
  isBlockchainSynced : Bool
  /-- `CMasternodeMan::GetMasternodeRank` with the protocol of the locks. -/
  getMasternodeRank : COutPoint → Int → Int
  checkSignature : CConsensusVote → Bool

/-- The maps of `swifttx.cpp`. -/
structure TransactionLocks where
  mapTxLockVote : UInt256 → Option CConsensusVote
  mapTxLocks : UInt256 → Option CTransactionLock
  mapTxLockReq : UInt256 → Option CTransaction
  mapLockedInputs : COutPoint → Option UInt256

/-- `CTransaction()`, without its hash. -/
def CTransaction.empty : CTransaction := ⟨0, 1, [], [], 0⟩

namespace TransactionLocks

def expire (now : Int) (txHash : UInt256) (state : TransactionLocks) : TransactionLocks :=
  { state with
    mapTxLocks := update state.mapTxLocks txHash
      ((state.mapTxLocks txHash).map fun lock => { lock with nExpiration := wrapInt now }) }

/-- `CheckForConflictingLocks`: whether an input is locked for another transaction, in
which case both locks end. -/
def checkForConflictingLocks (now : Int) (txHash : UInt256) :
    List CTxIn → TransactionLocks → Bool × TransactionLocks
  | [], state => (false, state)
  | txin :: rest, state =>
    match state.mapLockedInputs txin.prevout with
    | none => checkForConflictingLocks now txHash rest state
    | some other =>
      if other = txHash then checkForConflictingLocks now txHash rest state
      else (true, (state.expire now txHash).expire now other)

/-- Lock the inputs of a transaction that are not locked. -/
def lockInputs (txHash : UInt256) (state : TransactionLocks) (txin : CTxIn) : TransactionLocks :=
  match state.mapLockedInputs txin.prevout with
  | some _ => state
  | none =>
    { state with mapLockedInputs := update state.mapLockedInputs txin.prevout (some txHash) }

/-- What follows when a lock is complete. A transaction that was not requested is entered
as the empty one. -/
def completeLock (now : Int) (txHash : UInt256) (state : TransactionLocks) : TransactionLocks :=
  let tx := (state.mapTxLockReq txHash).getD CTransaction.empty
  let requested := { state with mapTxLockReq := update state.mapTxLockReq txHash (some tx) }
  match requested.checkForConflictingLocks now txHash tx.vin with
  | (true, after) => after
  | (false, after) => tx.vin.foldl (lockInputs txHash) after

variable (env : SwiftEnv)

def lockOf (state : TransactionLocks) (now : Int) (txHash : UInt256) : CTransactionLock :=
  (state.mapTxLocks txHash).getD ⟨0, [], wrapInt (now + 60 * 60), wrapInt (now + 60 * 5)⟩

/-- `ProcessConsensusVote`, with the returned flag. -/
def processConsensusVote (now : Int) (ctx : CConsensusVote) (state : TransactionLocks) :
    Bool × TransactionLocks :=
  let n := env.getMasternodeRank ctx.vinMasternode.prevout ctx.nBlockHeight
  if n = -1 then (false, state)
  else if swiftTxSignaturesTotal < n then (false, state)
  else if !env.checkSignature ctx then (false, state)
  else
    let lock := state.lockOf now ctx.txHash
    let signed := { lock with vecConsensusVotes := lock.vecConsensusVotes ++ [ctx] }
    let after := { state with mapTxLocks := update state.mapTxLocks ctx.txHash (some signed) }
    (true,
      if swiftTxSignaturesRequired ≤ signed.countSignatures then after.completeLock now ctx.txHash
      else after)

/-- The handler of `txlvote`, with whether the vote was counted. The vote is recorded before
anything is checked. -/
def processVote (now : Int) (ctx : CConsensusVote) (state : TransactionLocks) :
    Bool × TransactionLocks :=
  if env.fLiteMode || !env.isSwiftTxActive || !env.isBlockchainSynced then (false, state)
  else if (state.mapTxLockVote ctx.getHash).isSome then (false, state)
  else
    processConsensusVote env now ctx { state with
      mapTxLockVote := update state.mapTxLockVote ctx.getHash (some ctx) }

end TransactionLocks

end DogeCash
