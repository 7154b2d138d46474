import DogeCash.Foundation.Run
import DogeCash.Foundation.Writes
import DogeCash.Masternode.LockVotes
import DogeCash.Script.Instruction

/-! # The tables of transaction locks

The handlers of `ix` and `txlvote`, a node's own vote and the cleaning of expired locks. A
lock request that the memory pool rejects still locks its inputs, whether or not there is a
lock; `CheckForConflictingLocks` and the memory pool then refuse the transactions that
spend them.
-/

namespace DogeCash

open Function (update update_of_ne update_self)

/-- The loop of `CScript::IsNormalPaymentScript` from the instruction with some number. An
instruction that cannot be read becomes an invalid opcode, which no position admits or which
leaves too many bytes. -/
def CScript.isNormalPaymentFrom (i : ℕ) (script : CScript) : Bool :=
  if script = [] then true
  else
    match read : CScript.getOp script with
    | none => false
    | some (opcode, _, rest) =>
      if i = 0 && opcode ≠ 0x76 then false
      else if i = 1 && opcode ≠ Op.OP_HASH160 then false
      else if i = 3 && opcode ≠ Op.OP_EQUALVERIFY then false
      else if i = 4 && opcode ≠ Op.OP_CHECKSIG then false
      else if i = 5 then false
      else isNormalPaymentFrom (i + 1) rest
termination_by script.length
decreasing_by exact getOp_length read

def CScript.isNormalPaymentScript (script : CScript) : Bool :=
  script.length = 25 && isNormalPaymentFrom 0 script

def CTransaction.Spends (tx : CTransaction) (outpoint : COutPoint) : Prop :=
  ∃ txin ∈ tx.vin, txin.prevout = outpoint

instance (tx : CTransaction) (outpoint : COutPoint) : Decidable (tx.Spends outpoint) :=
  inferInstanceAs (Decidable (∃ txin ∈ tx.vin, txin.prevout = outpoint))

/-- What the handler of `ix` asks the rest of the node. -/
structure IxEnv extends SwiftEnv where
  /-- `GetTransaction`, with the memory pool and the chain. -/
  getTransaction : UInt256 → Option CTransaction
  /-- The value of `SPORK_5_MAX_VALUE`, in coins. -/
  maxValue : Int
  getInputAge : CTxIn → Int
  tipHeight : Int
  /-- What `AcceptToMemoryPool` checks besides the locks. -/
  acceptToMemoryPool : CTransaction → Bool
  /-- The input of the masternode that the node runs, if it runs one. -/
  activeMasternode : Option CTxIn
  /-- `CConsensusVote::Sign`: the signature and the version of the message. -/
  sign : CConsensusVote → Option (List UInt8 × Int)

def SwiftEnv.isOff (env : SwiftEnv) : Bool :=
  env.fLiteMode || !env.isSwiftTxActive || !env.isBlockchainSynced

def SwiftEnv.passes (env : SwiftEnv) (ctx : CConsensusVote) : Bool :=
  let n := env.getMasternodeRank ctx.vinMasternode.prevout ctx.nBlockHeight
  n ≠ -1 && n ≤ swiftTxSignaturesTotal && env.checkSignature ctx

namespace IxEnv

variable (env : IxEnv)

/-- The output that an input spends, if its transaction is found: `none` if it is not found,
and nothing is added for an output that does not exist. -/
def valueOf (txin : CTxIn) : Option Int :=
  (env.getTransaction txin.prevout.hash).map fun tx =>
    match tx.vout[txin.prevout.n.toNat]? with
    | none => 0
    | some out => out.nValue

/-- `IsIXTXValid`. The amounts are summed without a look at their range, so the sums wrap around;
a transaction with an unknown input passes if its outputs do. -/
def isIXTXValid (txCollateral : CTransaction) : Bool :=
  if txCollateral.vout.length < 1 then false
  else if txCollateral.nLockTime ≠ 0 then false
  else
    let nValueOut := (txCollateral.vout.map CTxOut.nValue).foldl addInt64 0
    let nValueIn := (txCollateral.vin.map fun txin => (env.valueOf txin).getD 0).foldl addInt64 0
    let missingTx := txCollateral.vin.any fun txin => (env.valueOf txin).isNone
    if wrapInt64 (env.maxValue * COIN) < nValueOut then false
    else if missingTx then true
    else if subInt64 nValueIn nValueOut < 1000000 then false
    else true

def isTooNew (tx : CTransaction) : Bool := tx.vin.any fun txin => env.getInputAge txin < 5

def lockHeight (tx : CTransaction) : Int :=
  env.tipHeight - ((tx.vin.head?.map env.getInputAge).getD 0) + 4

end IxEnv

namespace TransactionLocks

variable (env : IxEnv)

/-- `CreateNewLock`: the height of the lock, zero if none is created. -/
def createNewLock (now : Int) (tx : CTransaction) (maps : TransactionLocks) :
    Int × TransactionLocks :=
  if env.isTooNew tx then (0, maps)
  else
    let nBlockHeight := env.lockHeight tx
    let lock := match maps.mapTxLocks tx.hash with
      | none => ⟨nBlockHeight, [], wrapInt (now + 60 * 60), wrapInt (now + 60 * 5)⟩
      | some lock => { lock with nBlockHeight := nBlockHeight }
    (nBlockHeight, { maps with mapTxLocks := update maps.mapTxLocks tx.hash (some lock) })

/-- The vote that a masternode makes, if it is among those that vote and can sign. -/
def ownVote (tx : CTransaction) (nBlockHeight : Int) : Option CConsensusVote :=
  match env.activeMasternode with
  | none => none
  | some vin =>
    let n := env.getMasternodeRank vin.prevout nBlockHeight
    if n = -1 then none
    else if swiftTxSignaturesTotal < n then none
    else
      match env.sign ⟨vin, tx.hash, nBlockHeight, [], messVerHash⟩ with
      | none => none
      | some (vchSig, nMessVersion) =>
        let ctx : CConsensusVote := ⟨vin, tx.hash, nBlockHeight, vchSig, nMessVersion⟩
        if env.checkSignature ctx then some ctx else none

/-- `DoConsensusVote`, which stores the vote over any other with its hash. -/
def doConsensusVote (tx : CTransaction) (nBlockHeight : Int) (maps : TransactionLocks) :
    TransactionLocks :=
  match ownVote env tx nBlockHeight with
  | none => maps
  | some ctx => { maps with mapTxLockVote := update maps.mapTxLockVote ctx.getHash (some ctx) }

def insertRequest (tx : CTransaction) (maps : TransactionLocks) : TransactionLocks :=
  { maps with mapTxLockReq := update maps.mapTxLockReq tx.hash (some tx) }

/-- `AcceptToMemoryPool`: no input is locked for another transaction, and the other checks
pass. -/
def acceptToMemoryPool (tx : CTransaction) (maps : TransactionLocks) : Bool :=
  tx.vin.all (fun txin =>
    match maps.mapLockedInputs txin.prevout with
    | none => true
    | some other => other = tx.hash) && env.acceptToMemoryPool tx

def isComplete (txHash : UInt256) (maps : TransactionLocks) : Bool :=
  match maps.mapTxLocks txHash with
  | none => false
  | some lock => swiftTxSignaturesRequired ≤ lock.countSignatures

/-- What follows the rejection of a request: its inputs are locked, and if there is a
complete lock without a conflict, the request is entered. -/
def rejectIx (now : Int) (tx : CTransaction) (maps : TransactionLocks) : TransactionLocks :=
  let locked := tx.vin.foldl (lockInputs tx.hash) maps
  if locked.isComplete tx.hash then
    match locked.checkForConflictingLocks now tx.hash tx.vin with
    | (true, after) => after
    | (false, after) => after.insertRequest tx
  else locked

def LocksAmong (txHashes : List UInt256) (maps : TransactionLocks) : Prop :=
  ∀ txHash, (maps.mapTxLocks txHash).isSome = true → txHash ∈ txHashes

/-- The locks after an operation are those before it, one for a transaction at most. -/
structure GrowsAt (txHash : UInt256) (maps after : TransactionLocks) : Prop where
  kept : ∀ other, (maps.mapTxLocks other).isSome = true → (after.mapTxLocks other).isSome = true
  locks : ∀ other, (after.mapTxLocks other).isSome = true →
    other = txHash ∨ (maps.mapTxLocks other).isSome = true

section Growth

variable {txHash : UInt256} {maps next after : TransactionLocks}

theorem GrowsAt.of_isSome_eq
    (same : ∀ other, (after.mapTxLocks other).isSome = (maps.mapTxLocks other).isSome) :
    GrowsAt txHash maps after := by
  refine ⟨fun other present => ?_, fun other present => Or.inr ?_⟩
  · rw [same]
    exact present
  · rw [← same]
    exact present

theorem GrowsAt.of_eq (same : after.mapTxLocks = maps.mapTxLocks) : GrowsAt txHash maps after :=
  .of_isSome_eq fun other => by rw [same]

theorem GrowsAt.trans (first : GrowsAt txHash maps next) (second : GrowsAt txHash next after) :
    GrowsAt txHash maps after := by
  refine ⟨fun other present => second.kept other (first.kept other present),
    fun other present => ?_⟩
  rcases second.locks other present with rfl | before
  · exact Or.inl rfl
  · exact first.locks other before

theorem GrowsAt.of_update (lock : CTransactionLock)
    (set : after.mapTxLocks = update maps.mapTxLocks txHash (some lock)) :
    GrowsAt txHash maps after := by
  constructor <;> intro other present
  · rw [set]
    by_cases same : other = txHash
    · rw [same, update_self, Option.isSome_some]
    · rw [update_of_ne same]
      exact present
  · by_cases same : other = txHash
    · exact Or.inl same
    · rw [set, update_of_ne same] at present
      exact Or.inr present

theorem LocksAmong.grows {txHashes : List UInt256} (among : maps.LocksAmong txHashes)
    (grows : GrowsAt txHash maps after) : after.LocksAmong (txHashes.insert txHash) := by
  intro other present
  rcases grows.locks other present with rfl | before
  · exact List.mem_insert_self
  · exact List.mem_insert_of_mem (among other before)

theorem isSome_expire (now : Int) (txHash other : UInt256) (maps : TransactionLocks) :
    ((maps.expire now txHash).mapTxLocks other).isSome = (maps.mapTxLocks other).isSome := by
  by_cases same : other = txHash
  · subst same
    simp [expire]
  · simp [expire, same]

theorem checkForConflictingLocks_spec (now : Int) (txHash : UInt256) (vin : List CTxIn)
    (maps : TransactionLocks) :
    (maps.checkForConflictingLocks now txHash vin = (false, maps) ∧
        ∀ txin ∈ vin, ∀ other, maps.mapLockedInputs txin.prevout = some other → other = txHash) ∨
      ∃ txin ∈ vin, ∃ other, maps.mapLockedInputs txin.prevout = some other ∧ other ≠ txHash ∧
        maps.checkForConflictingLocks now txHash vin =
          (true, (maps.expire now txHash).expire now other) := by
  induction vin with
  | nil => exact Or.inl ⟨rfl, nofun⟩
  | cons txin rest ih =>
    have tail : maps.checkForConflictingLocks now txHash rest =
          maps.checkForConflictingLocks now txHash (txin :: rest) ∧
        (∀ other, maps.mapLockedInputs txin.prevout = some other → other = txHash) ∨
        ∃ other, maps.mapLockedInputs txin.prevout = some other ∧ other ≠ txHash ∧
          maps.checkForConflictingLocks now txHash (txin :: rest) =
            (true, (maps.expire now txHash).expire now other) := by
      cases held : maps.mapLockedInputs txin.prevout with
      | none => simp [checkForConflictingLocks, held]
      | some other =>
        by_cases same : other = txHash
        · simp [checkForConflictingLocks, held, same]
        · simp [checkForConflictingLocks, held, same]
    rcases tail with ⟨skipped, free⟩ | ⟨other, held, differ, found⟩
    · rw [skipped] at ih
      rcases ih with ⟨none, rest⟩ | ⟨found, mem, conflict⟩
      · refine Or.inl ⟨none, fun input mem => ?_⟩
        rcases List.mem_cons.mp mem with rfl | inside
        · exact free
        · exact rest input inside
      · exact Or.inr ⟨found, List.mem_cons_of_mem _ mem, conflict⟩
    · exact Or.inr ⟨txin, List.mem_cons_self, other, held, differ, found⟩

theorem checkForConflictingLocks_grows (now : Int) (txHash : UInt256) (vin : List CTxIn)
    (maps : TransactionLocks) :
    GrowsAt txHash maps (maps.checkForConflictingLocks now txHash vin).2 := by
  rcases maps.checkForConflictingLocks_spec now txHash vin with
    ⟨none, _⟩ | ⟨_, _, other, _, _, found⟩
  · rw [none]
    exact GrowsAt.of_eq rfl
  · rw [found]
    exact GrowsAt.of_isSome_eq fun any => by rw [isSome_expire, isSome_expire]

theorem foldl_lockInputs (txHash : UInt256) (vin : List CTxIn) (maps : TransactionLocks) :
    vin.foldl (lockInputs txHash) maps = { maps with
      mapLockedInputs := fun outpoint => (maps.mapLockedInputs outpoint).or
        (if ∃ txin ∈ vin, txin.prevout = outpoint then some txHash else none) } := by
  induction vin generalizing maps with
  | nil => simp
  | cons txin rest ih =>
    rw [List.foldl_cons, ih]
    unfold lockInputs
    cases held : maps.mapLockedInputs txin.prevout with
    | some other =>
      congr 1
      funext outpoint
      by_cases same : txin.prevout = outpoint
      · simp [← same, held]
      · simp [same]
    | none =>
      congr 1
      funext outpoint
      by_cases same : outpoint = txin.prevout
      · simp [same, held]
      · simp [same, Ne.symm same]

def requestOf (maps : TransactionLocks) (txHash : UInt256) : CTransaction :=
  (maps.mapTxLockReq txHash).getD CTransaction.empty

def enterRequest (txHash : UInt256) (maps : TransactionLocks) : TransactionLocks :=
  { maps with mapTxLockReq := update maps.mapTxLockReq txHash (some (maps.requestOf txHash)) }

theorem completeLock_cases (now : Int) (txHash : UInt256) (maps : TransactionLocks) :
    (maps.completeLock now txHash =
          (maps.requestOf txHash).vin.foldl (lockInputs txHash) (maps.enterRequest txHash) ∧
        ∀ txin ∈ (maps.requestOf txHash).vin, ∀ other,
          maps.mapLockedInputs txin.prevout = some other → other = txHash) ∨
      ∃ other, maps.completeLock now txHash =
        ((maps.enterRequest txHash).expire now txHash).expire now other := by
  rcases (maps.enterRequest txHash).checkForConflictingLocks_spec now txHash
    (maps.requestOf txHash).vin with ⟨none, free⟩ | ⟨_, _, other, _, _, conflict⟩
  · refine Or.inl ⟨?_, free⟩
    change (match (maps.enterRequest txHash).checkForConflictingLocks now txHash
      (maps.requestOf txHash).vin with
        | (true, after) => after
        | (false, after) => (maps.requestOf txHash).vin.foldl (lockInputs txHash) after) = _
    rw [none]
  · refine Or.inr ⟨other, ?_⟩
    change (match (maps.enterRequest txHash).checkForConflictingLocks now txHash
      (maps.requestOf txHash).vin with
        | (true, after) => after
        | (false, after) => (maps.requestOf txHash).vin.foldl (lockInputs txHash) after) = _
    rw [conflict]

theorem completeLock_grows (now : Int) (txHash : UInt256) (maps : TransactionLocks) :
    GrowsAt txHash maps (maps.completeLock now txHash) := by
  rcases maps.completeLock_cases now txHash with ⟨locked, _⟩ | ⟨other, ended⟩
  · rw [locked, foldl_lockInputs]
    exact GrowsAt.of_eq rfl
  · rw [ended]
    refine GrowsAt.of_isSome_eq fun any => ?_
    rw [isSome_expire, isSome_expire]
    rfl

def recordVote (ctx : CConsensusVote) (maps : TransactionLocks) : TransactionLocks :=
  { maps with mapTxLockVote := update maps.mapTxLockVote ctx.getHash (some ctx) }

def addSignature (now : Int) (ctx : CConsensusVote) (maps : TransactionLocks) : TransactionLocks :=
  let lock := maps.lockOf now ctx.txHash
  { maps with
    mapTxLocks := update maps.mapTxLocks ctx.txHash
      (some { lock with vecConsensusVotes := lock.vecConsensusVotes ++ [ctx] }) }

/-- What the handler of `txlvote` can do: nothing, store the vote, or store it and add it to
the lock, which it may complete. -/
inductive VoteOutcome (env : SwiftEnv) (now : Int) (ctx : CConsensusVote)
    (maps : TransactionLocks) : TransactionLocks → Prop
  | dropped : VoteOutcome env now ctx maps maps
  | recorded (fresh : maps.mapTxLockVote ctx.getHash = none) :
      VoteOutcome env now ctx maps (maps.recordVote ctx)
  | counted (running : env.isOff = false) (fresh : maps.mapTxLockVote ctx.getHash = none)
      (passes : env.passes ctx = true)
      (incomplete : ((maps.recordVote ctx).addSignature now ctx).isComplete ctx.txHash = false) :
      VoteOutcome env now ctx maps ((maps.recordVote ctx).addSignature now ctx)
  | completed (running : env.isOff = false) (fresh : maps.mapTxLockVote ctx.getHash = none)
      (passes : env.passes ctx = true)
      (complete : ((maps.recordVote ctx).addSignature now ctx).isComplete ctx.txHash = true) :
      VoteOutcome env now ctx maps
        (((maps.recordVote ctx).addSignature now ctx).completeLock now ctx.txHash)

theorem isComplete_addSignature (now : Int) (ctx : CConsensusVote) (maps : TransactionLocks) :
    (maps.addSignature now ctx).isComplete ctx.txHash =
      decide (swiftTxSignaturesRequired ≤ CTransactionLock.countSignatures
        { maps.lockOf now ctx.txHash with
          vecConsensusVotes := (maps.lockOf now ctx.txHash).vecConsensusVotes ++ [ctx] }) := by
  simp only [isComplete, addSignature, update_self]

theorem processVote_outcome (env : SwiftEnv) (now : Int) (ctx : CConsensusVote)
    (maps : TransactionLocks) : VoteOutcome env now ctx maps (processVote env now ctx maps).2 := by
  change VoteOutcome env now ctx maps (if env.isOff then _ else _ : Bool × TransactionLocks).2
  by_cases off : env.isOff = true
  · rw [if_pos off]
    exact .dropped
  have running : env.isOff = false := Bool.eq_false_iff.mpr off
  rw [if_neg off]
  cases known : maps.mapTxLockVote ctx.getHash with
  | some vote => exact .dropped
  | none =>
    change VoteOutcome env now ctx maps
      (processConsensusVote env now ctx (maps.recordVote ctx)).2
    by_cases passes : env.passes ctx = true
    · obtain ⟨⟨ranked, high⟩, signed⟩ : (env.getMasternodeRank ctx.vinMasternode.prevout
          ctx.nBlockHeight ≠ -1 ∧ env.getMasternodeRank ctx.vinMasternode.prevout
          ctx.nBlockHeight ≤ swiftTxSignaturesTotal) ∧ env.checkSignature ctx = true := by
        simpa [SwiftEnv.passes] using passes
      have complete := isComplete_addSignature now ctx (maps.recordVote ctx)
      unfold processConsensusVote
      simp only [ranked, signed, Int.not_lt.mpr high, Bool.not_true, Bool.false_eq_true, ↓reduceIte]
      split_ifs with enough
      · exact .completed running known passes (complete.trans (decide_eq_true enough))
      · exact .counted running known passes (complete.trans (decide_eq_false enough))
    · have dropped : processConsensusVote env now ctx (maps.recordVote ctx) =
          (false, maps.recordVote ctx) := by
        unfold processConsensusVote
        simp only [SwiftEnv.passes, Bool.and_eq_true, decide_eq_true_eq] at passes ⊢
        by_cases unranked : env.getMasternodeRank ctx.vinMasternode.prevout ctx.nBlockHeight = -1
        · rw [if_pos unranked]
        by_cases low : swiftTxSignaturesTotal <
            env.getMasternodeRank ctx.vinMasternode.prevout ctx.nBlockHeight
        · rw [if_neg unranked, if_pos low]
        have unsigned : env.checkSignature ctx = false := by
          rw [Bool.eq_false_iff]
          exact fun signed => passes ⟨⟨unranked, Int.not_lt.mp low⟩, signed⟩
        rw [if_neg unranked, if_neg low, unsigned, Bool.not_false, if_pos rfl]
      rw [dropped]
      exact .recorded known

theorem addSignature_grows (now : Int) (ctx : CConsensusVote) (maps : TransactionLocks) :
    GrowsAt ctx.txHash maps ((maps.recordVote ctx).addSignature now ctx) :=
  .of_update _ rfl

theorem processVote_grows (env : SwiftEnv) (now : Int) (ctx : CConsensusVote)
    (maps : TransactionLocks) : GrowsAt ctx.txHash maps (processVote env now ctx maps).2 := by
  have outcome := processVote_outcome env now ctx maps
  generalize (processVote env now ctx maps).2 = after at outcome
  cases outcome with
  | dropped => exact .of_eq rfl
  | recorded fresh => exact .of_eq rfl
  | counted running fresh passes incomplete => exact maps.addSignature_grows now ctx
  | completed running fresh passes complete =>
    exact (maps.addSignature_grows now ctx).trans (completeLock_grows now ctx.txHash _)

end Growth

theorem createNewLock_grows (now : Int) (tx : CTransaction) (maps : TransactionLocks) :
    GrowsAt tx.hash maps (maps.createNewLock env now tx).2 := by
  unfold createNewLock
  split_ifs
  · exact GrowsAt.of_eq rfl
  · exact GrowsAt.of_update _ rfl

theorem doConsensusVote_locks (tx : CTransaction) (nBlockHeight : Int) (maps : TransactionLocks) :
    (maps.doConsensusVote env tx nBlockHeight).mapTxLocks = maps.mapTxLocks := by
  unfold doConsensusVote
  split <;> rfl

theorem doConsensusVote_kept (tx : CTransaction) (nBlockHeight : Int) (maps : TransactionLocks) :
    (maps.doConsensusVote env tx nBlockHeight).mapTxLockReq = maps.mapTxLockReq ∧
      (maps.doConsensusVote env tx nBlockHeight).mapLockedInputs = maps.mapLockedInputs := by
  unfold doConsensusVote
  split <;> exact ⟨rfl, rfl⟩

theorem rejectIx_grows (now : Int) (tx : CTransaction) (maps : TransactionLocks) :
    GrowsAt tx.hash maps (maps.rejectIx now tx) := by
  have locked : GrowsAt tx.hash maps (tx.vin.foldl (lockInputs tx.hash) maps) := by
    rw [foldl_lockInputs]
    exact GrowsAt.of_eq rfl
  have checked := locked.trans (checkForConflictingLocks_grows now tx.hash tx.vin _)
  unfold rejectIx
  simp only
  split_ifs
  · split
    · rename_i conflict
      rw [conflict] at checked
      exact checked
    · rename_i free
      rw [free] at checked
      exact checked.trans (GrowsAt.of_eq rfl)
  · exact locked

end TransactionLocks

/-- The tables of `swifttx.cpp`, with the transactions among which the locks are: the keys
that the loop over `mapTxLocks` goes through. -/
structure LockTables where
  maps : TransactionLocks
  mapTxLockReqRejected : UInt256 → Option CTransaction
  txHashes : List UInt256
  listed : maps.LocksAmong txHashes

/-- What changes the tables, with what the rest of the node says at that time. -/
inductive LockAction where
  | ix (env : IxEnv) (now : Int) (tx : CTransaction)
  | txlvote (env : SwiftEnv) (now : Int) (ctx : CConsensusVote)
  | doConsensusVote (env : IxEnv) (tx : CTransaction) (nBlockHeight : Int)
  | cleanTransactionLocksList (hasTip : Bool) (now : Int)

namespace LockTables

def initial : LockTables where
  maps := ⟨fun _ => none, fun _ => none, fun _ => none, fun _ => none⟩
  mapTxLockReqRejected := fun _ => none
  txHashes := []
  listed := by
    intro txHash present
    cases present

/-- Other maps with at most one more lock. -/
def withMaps (tables : LockTables) (txHash : UInt256) (maps : TransactionLocks)
    (grows : TransactionLocks.GrowsAt txHash tables.maps maps) : LockTables where
  maps := maps
  mapTxLockReqRejected := tables.mapTxLockReqRejected
  txHashes := tables.txHashes.insert txHash
  listed := tables.listed.grows grows

def isRequested (tables : LockTables) (txHash : UInt256) : Bool :=
  (tables.maps.mapTxLockReq txHash).isSome || (tables.mapTxLockReqRejected txHash).isSome

def isLockable (out : CTxOut) : Bool :=
  out.scriptPubKey.isNormalPaymentScript || out.scriptPubKey.isUnspendable

def acceptIx (env : IxEnv) (tx : CTransaction) (nBlockHeight : Int) (tables : LockTables) :
    LockTables :=
  tables.withMaps tx.hash ((tables.maps.doConsensusVote env tx nBlockHeight).insertRequest tx)
    (.of_eq (TransactionLocks.doConsensusVote_locks env tx nBlockHeight tables.maps))

def rejectIx (now : Int) (tx : CTransaction) (tables : LockTables) : LockTables :=
  { tables.withMaps tx.hash (tables.maps.rejectIx now tx)
      (TransactionLocks.rejectIx_grows now tx tables.maps) with
    mapTxLockReqRejected := update tables.mapTxLockReqRejected tx.hash (some tx) }

def createNewLock (env : IxEnv) (now : Int) (tx : CTransaction) (tables : LockTables) :
    LockTables :=
  tables.withMaps tx.hash (tables.maps.createNewLock env now tx).2
    (TransactionLocks.createNewLock_grows env now tx tables.maps)

def looksAt (env : IxEnv) (tx : CTransaction) (tables : LockTables) : Bool :=
  !env.isOff && !tables.isRequested tx.hash && env.isIXTXValid tx && tx.vout.all isLockable

/-- The handler of `ix`. -/
def processIx (env : IxEnv) (now : Int) (tx : CTransaction) (tables : LockTables) : LockTables :=
  if !tables.looksAt env tx then tables
  else
    let nBlockHeight := (tables.maps.createNewLock env now tx).1
    let created := tables.createNewLock env now tx
    if created.maps.acceptToMemoryPool env tx then created.acceptIx env tx nBlockHeight
    else created.rejectIx now tx

/-- The handler of `txlvote`. -/
def processVote (env : SwiftEnv) (now : Int) (ctx : CConsensusVote) (tables : LockTables) :
    LockTables :=
  tables.withMaps ctx.txHash (tables.maps.processVote env now ctx).2
    (TransactionLocks.processVote_grows env now ctx tables.maps)

def doConsensusVote (env : IxEnv) (tx : CTransaction) (nBlockHeight : Int) (tables : LockTables) :
    LockTables :=
  tables.withMaps tx.hash (tables.maps.doConsensusVote env tx nBlockHeight)
    (.of_eq (TransactionLocks.doConsensusVote_locks env tx nBlockHeight tables.maps))

/-- Erase the locked inputs, the request and the votes of a lock whose request is entered. -/
def releaseLock (txHash : UInt256) (lock : CTransactionLock) (tables : LockTables) : LockTables :=
  match tables.maps.mapTxLockReq txHash with
  | none => tables
  | some tx =>
    { tables with
      maps := { tables.maps with
        mapLockedInputs := eraseAll (tx.vin.map CTxIn.prevout) tables.maps.mapLockedInputs
        mapTxLockReq := update tables.maps.mapTxLockReq txHash none
        mapTxLockVote := eraseAll (lock.vecConsensusVotes.map CConsensusVote.getHash)
          tables.maps.mapTxLockVote }
      mapTxLockReqRejected := update tables.mapTxLockReqRejected txHash none }

def eraseLock (txHash : UInt256) (tables : LockTables) : LockTables where
  maps := { tables.maps with mapTxLocks := update tables.maps.mapTxLocks txHash none }
  mapTxLockReqRejected := tables.mapTxLockReqRejected
  txHashes := tables.txHashes
  listed := by
    intro other present
    by_cases same : other = txHash
    · simp [same] at present
    · simp only [update_of_ne same] at present
      exact tables.listed other present

/-- One round of the loop of `CleanTransactionLocksList`. -/
def cleanLock (now : Int) (tables : LockTables) (txHash : UInt256) : LockTables :=
  match tables.maps.mapTxLocks txHash with
  | none => tables
  | some lock =>
    if lock.nExpiration < now then (tables.releaseLock txHash lock).eraseLock txHash
    else tables

def cleanTransactionLocksList (hasTip : Bool) (now : Int) (tables : LockTables) : LockTables :=
  if hasTip then tables.txHashes.foldl (cleanLock now) tables else tables

def step : LockAction → LockTables → LockTables
  | .ix env now tx, tables => tables.processIx env now tx
  | .txlvote env now ctx, tables => tables.processVote env now ctx
  | .doConsensusVote env tx nBlockHeight, tables => tables.doConsensusVote env tx nBlockHeight
  | .cleanTransactionLocksList hasTip now, tables => tables.cleanTransactionLocksList hasTip now

/-! ## Cleaning -/

variable (now : Int) (txHash : UInt256) (tables : LockTables)

theorem cleanLock_cases :
    (tables.cleanLock now txHash = tables ∧
        ∀ lock, tables.maps.mapTxLocks txHash = some lock → now ≤ lock.nExpiration) ∨
      ∃ lock, tables.maps.mapTxLocks txHash = some lock ∧ lock.nExpiration < now ∧
        tables.cleanLock now txHash = (tables.releaseLock txHash lock).eraseLock txHash := by
  cases held : tables.maps.mapTxLocks txHash with
  | none => exact Or.inl ⟨by rw [cleanLock, held], fun lock present => by cases present⟩
  | some lock =>
    by_cases ended : lock.nExpiration < now
    · exact Or.inr ⟨lock, rfl, ended, by simp only [cleanLock, held, if_pos ended]⟩
    · refine Or.inl ⟨by simp only [cleanLock, held, if_neg ended], fun other present => ?_⟩
      cases present
      exact Int.not_lt.mp ended

theorem releaseLock_maps {tx : CTransaction} (lock : CTransactionLock)
    (requested : tables.maps.mapTxLockReq txHash = some tx) :
    (tables.releaseLock txHash lock).maps =
      { mapTxLockVote := eraseAll (lock.vecConsensusVotes.map CConsensusVote.getHash)
          tables.maps.mapTxLockVote
        mapTxLocks := tables.maps.mapTxLocks
        mapTxLockReq := update tables.maps.mapTxLockReq txHash none
        mapLockedInputs := eraseAll (tx.vin.map CTxIn.prevout) tables.maps.mapLockedInputs } := by
  simp only [releaseLock, requested]

theorem releaseLock_mapTxLocks (lock : CTransactionLock) :
    (tables.releaseLock txHash lock).maps.mapTxLocks = tables.maps.mapTxLocks := by
  unfold releaseLock
  split <;> rfl

theorem cleanLock_mapTxLocks (other : UInt256) :
    (tables.cleanLock now txHash).maps.mapTxLocks other =
      if other = txHash then
        (tables.maps.mapTxLocks other).filter fun lock => now ≤ lock.nExpiration
      else tables.maps.mapTxLocks other := by
  rcases tables.cleanLock_cases now txHash with ⟨same, alive⟩ | ⟨lock, held, ended, erased⟩
  · rw [same]
    split_ifs with here
    · subst here
      cases held : tables.maps.mapTxLocks other with
      | none => rfl
      | some lock => rw [Option.filter_some, if_pos (decide_eq_true (alive lock held))]
    · rfl
  · rw [erased]
    change update (tables.releaseLock txHash lock).maps.mapTxLocks txHash none other = _
    rw [releaseLock_mapTxLocks]
    split_ifs with here
    · subst here
      rw [update_self, held, Option.filter_some, if_neg]
      simpa using ended
    · rw [update_of_ne here]

theorem foldl_cleanLock_mapTxLocks (txHashes : List UInt256) (other : UInt256) :
    (txHashes.foldl (cleanLock now) tables).maps.mapTxLocks other =
      if other ∈ txHashes then
        (tables.maps.mapTxLocks other).filter fun lock => now ≤ lock.nExpiration
      else tables.maps.mapTxLocks other := by
  induction txHashes generalizing tables with
  | nil => rw [List.foldl_nil, if_neg List.not_mem_nil]
  | cons txHash rest ih =>
    rw [List.foldl_cons, ih, cleanLock_mapTxLocks]
    by_cases here : other = txHash
    · simp only [here, ↓reduceIte, List.mem_cons, true_or]
      split_ifs
      · simp
      · rfl
    · simp [here]

theorem cleanTransactionLocksList_mapTxLocks (other : UInt256) :
    (tables.cleanTransactionLocksList true now).maps.mapTxLocks other =
      (tables.maps.mapTxLocks other).filter fun lock => now ≤ lock.nExpiration := by
  rw [cleanTransactionLocksList, if_pos rfl, foldl_cleanLock_mapTxLocks]
  split_ifs with listed
  · rfl
  · have absent : tables.maps.mapTxLocks other = none := by
      rw [← Option.not_isSome_iff_eq_none]
      exact fun present => listed (tables.listed other present)
    rw [absent, Option.filter_none]

theorem processIx_cases (env : IxEnv) (tx : CTransaction) :
    tables.processIx env now tx = tables ∨
      tables.looksAt env tx = true ∧
        (tables.maps.acceptToMemoryPool env tx = true ∧ tables.processIx env now tx =
            (tables.createNewLock env now tx).acceptIx env tx
              (tables.maps.createNewLock env now tx).1 ∨
          tables.maps.acceptToMemoryPool env tx = false ∧ tables.processIx env now tx =
            (tables.createNewLock env now tx).rejectIx now tx) := by
  unfold processIx
  cases looks : tables.looksAt env tx with
  | false => exact Or.inl rfl
  | true =>
    have sameInputs : (tables.createNewLock env now tx).maps.acceptToMemoryPool env tx =
        tables.maps.acceptToMemoryPool env tx := by
      have kept : (tables.createNewLock env now tx).maps.mapLockedInputs =
          tables.maps.mapLockedInputs := by
        change (tables.maps.createNewLock env now tx).2.mapLockedInputs = _
        unfold TransactionLocks.createNewLock
        split_ifs <;> rfl
      simp only [TransactionLocks.acceptToMemoryPool, kept]
    refine Or.inr ⟨rfl, ?_⟩
    simp only [Bool.not_true, Bool.false_eq_true, ↓reduceIte, sameInputs]
    cases accepted : tables.maps.acceptToMemoryPool env tx with
    | true => exact Or.inl ⟨rfl, rfl⟩
    | false => exact Or.inr ⟨rfl, rfl⟩

end LockTables

end DogeCash
