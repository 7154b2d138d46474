import DogeCash.Masternode.LockTables

/-! # Which inputs stay locked

An entry of `mapLockedInputs` is erased only with the lock and the request of a transaction
that spends the outpoint. An entry stays with its lock as long as inputs are locked only for
complete locks, and only where no other request spends them. A rejected request locks its
inputs without any of that.
-/

namespace DogeCash

open Function (update update_of_ne update_self)
open Option (none_or some_inj some_or)

/-- When an action takes place, if it looks at the clock. -/
def LockAction.time : LockAction → Option Int
  | .ix _ now _ => some now
  | .txlvote _ now _ => some now
  | .doConsensusVote _ _ _ => none
  | .cleanTransactionLocksList _ now => some now

def LockAction.InOrder (actions : List LockAction) : Prop :=
  (actions.filterMap LockAction.time).Pairwise (· ≤ ·)

namespace TransactionLocks

/-- No input is locked for another transaction. -/
def NoConflict (maps : TransactionLocks) (txHash : UInt256) (tx : CTransaction) : Prop :=
  ∀ txin ∈ tx.vin, ∀ other, maps.mapLockedInputs txin.prevout = some other → other = txHash

/-- No other known request spends an input that is still free. -/
def OnlySpender (maps : TransactionLocks) (txHash : UInt256) (tx : CTransaction) : Prop :=
  ∀ txin ∈ tx.vin, maps.mapLockedInputs txin.prevout = none →
    ∀ other request, maps.mapTxLockReq other = some request → request.Spends txin.prevout →
      other = txHash

def HasFreeInput (maps : TransactionLocks) (tx : CTransaction) : Prop :=
  ∃ txin ∈ tx.vin, maps.mapLockedInputs txin.prevout = none

/-- The lock of the transaction has enough votes at the height that it gets. -/
def IsVoted (env : IxEnv) (tx : CTransaction) (maps : TransactionLocks) : Prop :=
  ∃ lock, maps.mapTxLocks tx.hash = some lock ∧
    swiftTxSignaturesRequired ≤ CTransactionLock.countSignatures
      (if env.isTooNew tx then lock else { lock with nBlockHeight := env.lockHeight tx })

/-- A vote completes a lock: it is taken, it is new, it passes, and it is enough. -/
structure Completes (env : SwiftEnv) (now : Int) (ctx : CConsensusVote) (maps : TransactionLocks) :
    Prop where
  running : env.isOff = false
  fresh : maps.mapTxLockVote ctx.getHash = none
  passes : env.passes ctx = true
  enough : (maps.addSignature now ctx).isComplete ctx.txHash = true

end TransactionLocks

namespace LockTables

def Knows (tables : LockTables) (tx : CTransaction) : Prop :=
  tables.maps.mapTxLockReq tx.hash = some tx ∨ tables.mapTxLockReqRejected tx.hash = some tx

def IsUnexpired (now : Int) (tables : LockTables) (txHash : UInt256) : Prop :=
  ∃ lock, tables.maps.mapTxLocks txHash = some lock ∧ now ≤ lock.nExpiration

/-- After a cleaning every locked input belongs to a known transaction that spends it and has
an unexpired lock, and the inputs of the unexpired locks are still locked. -/
def CleansWell (tables : LockTables) : LockAction → Prop
  | .ix _ _ _ => True
  | .txlvote _ _ _ => True
  | .doConsensusVote _ _ _ => True
  | .cleanTransactionLocksList hasTip now =>
    let after := tables.cleanTransactionLocksList hasTip now
    (∀ outpoint txHash, after.maps.mapLockedInputs outpoint = some txHash →
      (∃ tx, after.Knows tx ∧ tx.hash = txHash ∧ tx.Spends outpoint) ∧
        after.IsUnexpired now txHash) ∧
    ∀ outpoint txHash, tables.maps.mapLockedInputs outpoint = some txHash →
      tables.IsUnexpired now txHash → after.maps.mapLockedInputs outpoint = some txHash

/-- An action locks inputs only for a transaction with enough votes that no locked input and
no other request is in the way of, and cleaning does not come too early to do anything. -/
def LocksWell (tables : LockTables) : LockAction → Prop
  | .ix env _ tx =>
    tables.looksAt env tx = true → tables.maps.acceptToMemoryPool env tx = false →
      tables.maps.HasFreeInput tx →
        tables.maps.IsVoted env tx ∧ tables.maps.NoConflict tx.hash tx ∧
          tables.maps.OnlySpender tx.hash tx
  | .txlvote env now ctx =>
    tables.maps.Completes env now ctx →
      tables.maps.NoConflict ctx.txHash (tables.maps.requestOf ctx.txHash) →
        tables.maps.OnlySpender ctx.txHash (tables.maps.requestOf ctx.txHash)
  | .doConsensusVote _ _ _ => True
  | .cleanTransactionLocksList hasTip now =>
    hasTip = true ∨ ∀ outpoint txHash, tables.maps.mapLockedInputs outpoint = some txHash →
      tables.IsUnexpired now txHash

end LockTables

/-! ## Entries with a lock and a request -/

namespace TransactionLocks

/-- Every locked input has the lock and the request of its transaction, which is the only
request that spends it. -/
structure Backed (maps : TransactionLocks) : Prop where
  held : ∀ outpoint txHash, maps.mapLockedInputs outpoint = some txHash →
    (maps.mapTxLocks txHash).isSome = true
  requested : ∀ outpoint txHash, maps.mapLockedInputs outpoint = some txHash →
    ∃ tx, maps.mapTxLockReq txHash = some tx ∧ tx.Spends outpoint
  alone : ∀ outpoint txHash, maps.mapLockedInputs outpoint = some txHash →
    ∀ other request, maps.mapTxLockReq other = some request → request.Spends outpoint →
      other = txHash
  keyed : ∀ txHash tx, maps.mapTxLockReq txHash = some tx → tx.vin = [] ∨ tx.hash = txHash

variable {maps after : TransactionLocks} {txHash : UInt256} {tx : CTransaction}

section

variable (backed : maps.Backed)
include backed

theorem Backed.of_grows (grows : GrowsAt txHash maps after)
    (requests : after.mapTxLockReq = maps.mapTxLockReq)
    (inputs : after.mapLockedInputs = maps.mapLockedInputs) : after.Backed where
  held := by
    intro outpoint other locked
    rw [inputs] at locked
    exact grows.kept other (backed.held outpoint other locked)
  requested := by
    rw [inputs, requests]
    exact backed.requested
  alone := by
    rw [inputs, requests]
    exact backed.alone
  keyed := by
    rw [requests]
    exact backed.keyed

theorem Backed.update_request (missing : maps.mapTxLockReq txHash = none)
    (free : ∀ outpoint, tx.Spends outpoint → maps.mapLockedInputs outpoint = none)
    (keyed : tx.vin = [] ∨ tx.hash = txHash)
    (requests : after.mapTxLockReq = update maps.mapTxLockReq txHash (some tx))
    (inputs : after.mapLockedInputs = maps.mapLockedInputs)
    (locks : after.mapTxLocks = maps.mapTxLocks) : after.Backed where
  held := by
    rw [inputs, locks]
    exact backed.held
  requested := by
    intro outpoint other locked
    rw [inputs] at locked
    obtain ⟨request, present, spends⟩ := backed.requested outpoint other locked
    have differ : other ≠ txHash := by
      rintro rfl
      rw [missing] at present
      cases present
    exact ⟨request, by rw [requests, update_of_ne differ, present], spends⟩
  alone := by
    intro outpoint owner locked other request present spends
    rw [inputs] at locked
    rw [requests] at present
    by_cases same : other = txHash
    · rw [same, update_self, some_inj] at present
      subst present
      rw [free outpoint spends] at locked
      cases locked
    · rw [update_of_ne same] at present
      exact backed.alone outpoint owner locked other request present spends
  keyed := by
    rw [requests]
    exact forall_update_some keyed fun other request _ => backed.keyed other request

theorem Backed.lockInputs (held : (maps.mapTxLocks txHash).isSome = true)
    (present : maps.mapTxLockReq txHash = some tx) (only : maps.OnlySpender txHash tx) :
    (tx.vin.foldl (TransactionLocks.lockInputs txHash) maps).Backed := by
  rw [foldl_lockInputs]
  have entries : ∀ outpoint owner, (maps.mapLockedInputs outpoint).or
        (if ∃ txin ∈ tx.vin, txin.prevout = outpoint then some txHash else none) = some owner →
      maps.mapLockedInputs outpoint = some owner ∨
        maps.mapLockedInputs outpoint = none ∧ owner = txHash ∧ tx.Spends outpoint := by
    intro outpoint owner locked
    cases before : maps.mapLockedInputs outpoint with
    | some other =>
      rw [before, some_or] at locked
      exact Or.inl locked
    | none =>
      rw [before, none_or] at locked
      split_ifs at locked with spends
      cases locked
      exact Or.inr ⟨rfl, rfl, spends⟩
  refine ⟨fun outpoint owner locked => ?_, fun outpoint owner locked => ?_,
    fun outpoint owner locked => ?_, backed.keyed⟩
  · rcases entries outpoint owner locked with before | ⟨_, rfl, _⟩
    · exact backed.held outpoint owner before
    · exact held
  · rcases entries outpoint owner locked with before | ⟨_, rfl, spends⟩
    · exact backed.requested outpoint owner before
    · exact ⟨tx, present, spends⟩
  · rcases entries outpoint owner locked with before | ⟨free, rfl, txin, mem, rfl⟩
    · exact backed.alone outpoint owner before
    · exact only txin mem free

theorem Backed.enterRequest (txHash : UInt256) : (maps.enterRequest txHash).Backed := by
  cases present : maps.mapTxLockReq txHash with
  | none =>
    have empty : maps.requestOf txHash = CTransaction.empty := by
      rw [requestOf, present, Option.getD_none]
    have free : ∀ outpoint, CTransaction.empty.Spends outpoint →
        maps.mapLockedInputs outpoint = none := by
      rintro outpoint ⟨txin, mem, _⟩
      cases mem
    refine backed.update_request present free (Or.inl rfl) ?_ rfl rfl
    rw [TransactionLocks.enterRequest, empty]
  | some tx =>
    have same : maps.enterRequest txHash = maps := by
      rw [TransactionLocks.enterRequest, requestOf, present, Option.getD_some, ← present,
        Function.update_eq_self]
    rw [same]
    exact backed

theorem Backed.expire (now : Int) (txHash : UInt256) : (maps.expire now txHash).Backed := by
  have grows : GrowsAt txHash maps (maps.expire now txHash) :=
    .of_isSome_eq fun other => isSome_expire now txHash other maps
  exact backed.of_grows grows rfl rfl

theorem Backed.completeLock (now : Int) (held : (maps.mapTxLocks txHash).isSome = true)
    (only : maps.NoConflict txHash (maps.requestOf txHash) →
      maps.OnlySpender txHash (maps.requestOf txHash)) :
    (maps.completeLock now txHash).Backed := by
  have entered := backed.enterRequest txHash
  have present : (maps.enterRequest txHash).mapTxLockReq txHash = some (maps.requestOf txHash) :=
    update_self ..
  rcases maps.completeLock_cases now txHash with ⟨locked, free⟩ | ⟨other, ended⟩
  · rw [locked]
    refine entered.lockInputs held present fun txin mem unlocked other request listed => ?_
    by_cases same : other = txHash
    · exact fun _ => same
    · have before : maps.mapTxLockReq other = some request :=
        (update_of_ne same _ _).symm.trans listed
      exact only free txin mem unlocked other request before
  · rw [ended]
    exact (entered.expire now txHash).expire now other

theorem Backed.free (missing : maps.mapTxLockReq tx.hash = none) (free : maps.NoConflict tx.hash tx)
    (outpoint : COutPoint) (spends : tx.Spends outpoint) :
    maps.mapLockedInputs outpoint = none := by
  obtain ⟨txin, mem, rfl⟩ := spends
  cases locked : maps.mapLockedInputs txin.prevout with
  | none => rfl
  | some owner =>
    obtain ⟨request, present, _⟩ := backed.requested txin.prevout owner locked
    rw [free txin mem owner locked, missing] at present
    cases present

end

theorem noConflict_of_accepted {env : IxEnv} (accepted : maps.acceptToMemoryPool env tx = true) :
    maps.NoConflict tx.hash tx := by
  intro txin mem other locked
  have passes := List.all_eq_true.mp (Bool.and_eq_true_iff.mp accepted).1 txin mem
  simpa [locked] using passes

theorem rejectIx_cases (now : Int) (tx : CTransaction) (maps : TransactionLocks) :
    let locked := tx.vin.foldl (TransactionLocks.lockInputs tx.hash) maps
    maps.isComplete tx.hash = false ∧ maps.rejectIx now tx = locked ∨
      ¬maps.NoConflict tx.hash tx ∧
          (∃ other, maps.rejectIx now tx = (locked.expire now tx.hash).expire now other) ∨
        maps.isComplete tx.hash = true ∧ maps.NoConflict tx.hash tx ∧
          maps.rejectIx now tx = locked.insertRequest tx := by
  intro locked
  have sameLocks : locked.isComplete tx.hash = maps.isComplete tx.hash := by
    simp only [locked, foldl_lockInputs, isComplete]
  have kept : ∀ outpoint other, maps.mapLockedInputs outpoint = some other →
      locked.mapLockedInputs outpoint = some other := by
    intro outpoint other before
    simp only [locked, foldl_lockInputs, before, some_or]
  cases complete : maps.isComplete tx.hash with
  | false =>
    refine Or.inl ⟨rfl, ?_⟩
    change (if locked.isComplete tx.hash then _ else locked) = locked
    rw [sameLocks, complete, if_neg Bool.false_ne_true]
  | true =>
    have unfolded : ∀ found after,
        locked.checkForConflictingLocks now tx.hash tx.vin = (found, after) →
          maps.rejectIx now tx = if found then after else after.insertRequest tx := by
      intro found after conflict
      change (if locked.isComplete tx.hash then _ else locked) = _
      rw [if_pos (sameLocks.trans complete), conflict]
      cases found <;> rfl
    refine Or.inr ?_
    rcases locked.checkForConflictingLocks_spec now tx.hash tx.vin with
      ⟨none, free⟩ | ⟨txin, mem, other, held, differ, conflict⟩
    · refine Or.inr ⟨rfl, fun txin mem other before => ?_, ?_⟩
      · exact free txin mem other (kept txin.prevout other before)
      · exact unfolded false _ none
    · refine Or.inl ⟨fun free => ?_, other, ?_⟩
      · cases before : maps.mapLockedInputs txin.prevout with
        | some owner =>
          have same := kept txin.prevout owner before
          rw [held, some_inj] at same
          exact differ (same.trans (free txin mem owner before))
        | none =>
          simp only [locked, foldl_lockInputs, before, none_or] at held
          split_ifs at held
          exact differ (some_inj.mp held).symm
      · exact unfolded true _ conflict

theorem foldl_lockInputs_of_not_hasFreeInput (full : ¬maps.HasFreeInput tx) (txHash : UInt256) :
    tx.vin.foldl (TransactionLocks.lockInputs txHash) maps = maps := by
  rw [foldl_lockInputs]
  suffices same : (fun outpoint => (maps.mapLockedInputs outpoint).or
      (if ∃ txin ∈ tx.vin, txin.prevout = outpoint then some txHash else none)) =
        maps.mapLockedInputs by rw [same]
  funext outpoint
  cases before : maps.mapLockedInputs outpoint with
  | some other => rw [some_or]
  | none =>
    rw [none_or, if_neg]
    rintro ⟨txin, mem, rfl⟩
    exact full ⟨txin, mem, before⟩

theorem Backed.rejectIx (backed : maps.Backed) (now : Int)
    (missing : maps.mapTxLockReq tx.hash = none)
    (well : maps.HasFreeInput tx → maps.isComplete tx.hash = true ∧
      maps.NoConflict tx.hash tx ∧ maps.OnlySpender tx.hash tx) :
    (maps.rejectIx now tx).Backed := by
  rcases rejectIx_cases now tx maps with
    ⟨incomplete, rejected⟩ | ⟨conflict, other, rejected⟩ | ⟨complete, free, rejected⟩
  · have full : ¬maps.HasFreeInput tx := by
      intro found
      rw [(well found).1] at incomplete
      cases incomplete
    rw [rejected, foldl_lockInputs_of_not_hasFreeInput full]
    exact backed
  · have full : ¬maps.HasFreeInput tx := fun found => conflict (well found).2.1
    rw [rejected, foldl_lockInputs_of_not_hasFreeInput full]
    exact (backed.expire now tx.hash).expire now other
  · have held : (maps.mapTxLocks tx.hash).isSome = true := by
      unfold isComplete at complete
      cases present : maps.mapTxLocks tx.hash with
      | none => simp [present] at complete
      | some lock => rfl
    have commutes : (tx.vin.foldl (TransactionLocks.lockInputs tx.hash) maps).insertRequest tx =
        tx.vin.foldl (TransactionLocks.lockInputs tx.hash) (maps.insertRequest tx) := by
      rw [foldl_lockInputs, foldl_lockInputs]
      rfl
    have inserted : (maps.insertRequest tx).Backed :=
      backed.update_request missing (backed.free missing free) (Or.inr rfl) rfl rfl rfl
    rw [rejected, commutes]
    refine inserted.lockInputs held (update_self ..) ?_
    intro txin mem unlocked other request listed spends
    by_cases same : other = tx.hash
    · exact same
    · have before : maps.mapTxLockReq other = some request :=
        (update_of_ne same _ _).symm.trans listed
      exact (well ⟨txin, mem, unlocked⟩).2.2 txin mem unlocked other request before spends

theorem isComplete_createNewLock (env : IxEnv) (now : Int) (voted : maps.IsVoted env tx) :
    (maps.createNewLock env now tx).2.isComplete tx.hash = true := by
  obtain ⟨lock, present, enough⟩ := voted
  unfold createNewLock
  split_ifs at enough ⊢ with tooNew
  · simpa only [isComplete, present, decide_eq_true_eq] using enough
  · simpa only [isComplete, present, update_self, decide_eq_true_eq] using enough

theorem Backed.processVote (backed : maps.Backed) (env : SwiftEnv) (now : Int)
    (ctx : CConsensusVote)
    (well : maps.Completes env now ctx → maps.NoConflict ctx.txHash (maps.requestOf ctx.txHash) →
      maps.OnlySpender ctx.txHash (maps.requestOf ctx.txHash)) :
    (TransactionLocks.processVote env now ctx maps).2.Backed := by
  have outcome := processVote_outcome env now ctx maps
  generalize returned : (TransactionLocks.processVote env now ctx maps).2 = after at outcome
  have signed : ((maps.recordVote ctx).addSignature now ctx).Backed :=
    backed.of_grows (maps.addSignature_grows now ctx) rfl rfl
  cases outcome with
  | dropped => exact backed
  | recorded fresh =>
    have grows : GrowsAt ctx.txHash maps (maps.recordVote ctx) := .of_eq rfl
    exact backed.of_grows grows rfl rfl
  | counted running fresh passes incomplete => exact signed
  | completed running fresh passes complete =>
    refine signed.completeLock now ?_ (well ⟨running, fresh, passes, complete⟩)
    exact congrArg Option.isSome (update_self ctx.txHash _ maps.mapTxLocks)

theorem Backed.eraseLock (backed : maps.Backed) (missing : maps.mapTxLockReq txHash = none) :
    Backed { maps with mapTxLocks := update maps.mapTxLocks txHash none } where
  held := by
    intro outpoint owner locked
    have differ : owner ≠ txHash := by
      rintro rfl
      obtain ⟨tx, present, _⟩ := backed.requested outpoint owner locked
      rw [missing] at present
      cases present
    exact (congrArg Option.isSome (update_of_ne differ _ _)).trans
      (backed.held outpoint owner locked)
  requested := backed.requested
  alone := backed.alone
  keyed := backed.keyed

variable {outpoint : COutPoint} {owner : UInt256}

theorem Backed.ne_of_eraseAll (backed : maps.Backed) (present : maps.mapTxLockReq txHash = some tx)
    (left : eraseAll (tx.vin.map CTxIn.prevout) maps.mapLockedInputs outpoint = some owner) :
    maps.mapLockedInputs outpoint = some owner ∧ owner ≠ txHash := by
  obtain ⟨unspent, locked⟩ := eraseAll_eq_some.mp left
  refine ⟨locked, ?_⟩
  rintro rfl
  obtain ⟨request, requested, txin, mem, same⟩ := backed.requested outpoint owner locked
  rw [present] at requested
  cases requested
  exact unspent (List.mem_map.mpr ⟨txin, mem, same⟩)

theorem Backed.eraseRequest (backed : maps.Backed) (present : maps.mapTxLockReq txHash = some tx)
    (votes : UInt256 → Option CConsensusVote) :
    Backed {
      mapTxLockVote := votes
      mapTxLocks := update maps.mapTxLocks txHash none
      mapTxLockReq := update maps.mapTxLockReq txHash none
      mapLockedInputs := eraseAll (tx.vin.map CTxIn.prevout) maps.mapLockedInputs } where
  held := by
    intro outpoint owner left
    obtain ⟨locked, differ⟩ := backed.ne_of_eraseAll present left
    exact (congrArg Option.isSome (update_of_ne differ _ _)).trans
      (backed.held outpoint owner locked)
  requested := by
    intro outpoint owner left
    obtain ⟨locked, differ⟩ := backed.ne_of_eraseAll present left
    obtain ⟨request, requested, spends⟩ := backed.requested outpoint owner locked
    exact ⟨request, update_none_eq_some.mpr ⟨differ, requested⟩, spends⟩
  alone := by
    intro outpoint owner left other request requested
    exact backed.alone outpoint owner (backed.ne_of_eraseAll present left).1 other request
      (update_none_eq_some.mp requested).2
  keyed := by
    intro other request requested
    exact backed.keyed other request (update_none_eq_some.mp requested).2

theorem Backed.eraseAll_of_ne (backed : maps.Backed) (present : maps.mapTxLockReq txHash = some tx)
    (locked : maps.mapLockedInputs outpoint = some owner) (differ : owner ≠ txHash) :
    eraseAll (tx.vin.map CTxIn.prevout) maps.mapLockedInputs outpoint = some owner := by
  refine eraseAll_eq_some.mpr ⟨fun spent => ?_, locked⟩
  obtain ⟨txin, mem, same⟩ := List.mem_map.mp spent
  exact differ (backed.alone outpoint owner locked txHash tx present ⟨txin, mem, same⟩).symm

end TransactionLocks

/-! ## Runs -/

namespace LockTables

open TransactionLocks

variable {tables : LockTables}

theorem createNewLock_kept (env : IxEnv) (now : Int) (tx : CTransaction) (tables : LockTables) :
    (tables.createNewLock env now tx).maps.mapTxLockReq = tables.maps.mapTxLockReq ∧
      (tables.createNewLock env now tx).maps.mapLockedInputs = tables.maps.mapLockedInputs := by
  change (tables.maps.createNewLock env now tx).2.mapTxLockReq = _ ∧
    (tables.maps.createNewLock env now tx).2.mapLockedInputs = _
  unfold TransactionLocks.createNewLock
  split_ifs <;> exact ⟨rfl, rfl⟩

theorem backed_processIx (backed : tables.maps.Backed) (env : IxEnv) (now : Int)
    (tx : CTransaction) (well : tables.LocksWell (.ix env now tx)) :
    (tables.processIx env now tx).maps.Backed := by
  rcases tables.processIx_cases now env tx with same | ⟨looks, outcome⟩
  · rw [same]
    exact backed
  obtain ⟨requests, inputs⟩ := tables.createNewLock_kept env now tx
  have created : (tables.createNewLock env now tx).maps.Backed :=
    backed.of_grows (createNewLock_grows env now tx tables.maps) requests inputs
  have missing : (tables.createNewLock env now tx).maps.mapTxLockReq tx.hash = none := by
    rw [requests]
    simp only [looksAt, isRequested, Bool.and_eq_true, Bool.not_eq_true', Bool.or_eq_false_iff,
      Option.isSome_eq_false_iff, Option.isNone_iff_eq_none] at looks
    exact looks.1.1.2.1
  rcases outcome with ⟨accepted, result⟩ | ⟨rejected, result⟩
  · have free : (tables.createNewLock env now tx).maps.NoConflict tx.hash tx := by
      unfold NoConflict
      rw [inputs]
      exact noConflict_of_accepted accepted
    rw [result]
    obtain ⟨sameRequests, sameInputs⟩ := doConsensusVote_kept env tx
      (tables.maps.createNewLock env now tx).1 (tables.createNewLock env now tx).maps
    refine created.update_request missing (created.free missing free) (Or.inr rfl) ?_ sameInputs
      (doConsensusVote_locks env tx _ _)
    exact congrArg (fun requests => update requests tx.hash (some tx)) sameRequests
  · rw [result]
    refine created.rejectIx now missing fun found => ?_
    have before : tables.maps.HasFreeInput tx := by
      unfold HasFreeInput at found ⊢
      rw [inputs] at found
      exact found
    obtain ⟨voted, free, only⟩ := well looks rejected before
    refine ⟨isComplete_createNewLock env now voted, ?_, ?_⟩
    · unfold NoConflict
      rw [inputs]
      exact free
    · unfold OnlySpender
      rw [inputs, requests]
      exact only

theorem backed_cleanLock (backed : tables.maps.Backed) (now : Int) (txHash : UInt256) :
    (tables.cleanLock now txHash).maps.Backed ∧
      ∀ outpoint owner, tables.maps.mapLockedInputs outpoint = some owner →
        tables.IsUnexpired now owner →
          (tables.cleanLock now txHash).maps.mapLockedInputs outpoint = some owner := by
  rcases tables.cleanLock_cases now txHash with ⟨same, _⟩ | ⟨lock, held, ended, erased⟩
  · rw [same]
    exact ⟨backed, fun _ _ locked _ => locked⟩
  cases requested : tables.maps.mapTxLockReq txHash with
  | none =>
    have maps : (tables.cleanLock now txHash).maps = { tables.maps with
        mapTxLocks := update tables.maps.mapTxLocks txHash none } := by
      rw [erased]
      simp only [eraseLock, releaseLock, requested]
    rw [maps]
    exact ⟨backed.eraseLock requested, fun _ _ locked _ => locked⟩
  | some tx =>
    have maps : (tables.cleanLock now txHash).maps =
        { mapTxLockVote := eraseAll (lock.vecConsensusVotes.map CConsensusVote.getHash)
            tables.maps.mapTxLockVote
          mapTxLocks := update tables.maps.mapTxLocks txHash none
          mapTxLockReq := update tables.maps.mapTxLockReq txHash none
          mapLockedInputs := eraseAll (tx.vin.map CTxIn.prevout) tables.maps.mapLockedInputs } := by
      rw [erased]
      simp only [eraseLock, releaseLock_maps txHash tables lock requested]
    rw [maps]
    refine ⟨backed.eraseRequest requested _, fun outpoint owner locked unexpired => ?_⟩
    refine backed.eraseAll_of_ne requested locked ?_
    obtain ⟨other, present, alive⟩ := unexpired
    rintro rfl
    rw [held] at present
    cases present
    omega

theorem IsUnexpired.cleanLock {now : Int} {owner : UInt256}
    (unexpired : tables.IsUnexpired now owner)
    (txHash : UInt256) : (tables.cleanLock now txHash).IsUnexpired now owner := by
  obtain ⟨lock, present, alive⟩ := unexpired
  refine ⟨lock, ?_, alive⟩
  rw [cleanLock_mapTxLocks]
  split_ifs
  · rw [present, Option.filter_some, if_pos (decide_eq_true alive)]
  · exact present

section

variable (backed : tables.maps.Backed)
include backed

theorem backed_foldl_cleanLock (now : Int) (txHashes : List UInt256) :
    (txHashes.foldl (cleanLock now) tables).maps.Backed ∧
      ∀ outpoint owner, tables.maps.mapLockedInputs outpoint = some owner →
        tables.IsUnexpired now owner →
          (txHashes.foldl (cleanLock now) tables).maps.mapLockedInputs outpoint = some owner := by
  induction txHashes generalizing tables with
  | nil => exact ⟨backed, fun _ _ locked _ => locked⟩
  | cons txHash rest ih =>
    obtain ⟨here, kept⟩ := backed_cleanLock backed now txHash
    obtain ⟨there, later⟩ := ih here
    exact ⟨there, fun outpoint owner locked unexpired =>
      later outpoint owner (kept outpoint owner locked unexpired) (unexpired.cleanLock txHash)⟩

theorem known_of_backed {outpoint : COutPoint} {txHash : UInt256}
    (locked : tables.maps.mapLockedInputs outpoint = some txHash) :
    ∃ tx, tables.Knows tx ∧ tx.hash = txHash ∧ tx.Spends outpoint := by
  obtain ⟨tx, present, txin, mem, same⟩ := backed.requested outpoint txHash locked
  have keyed : tx.hash = txHash := by
    rcases backed.keyed txHash tx present with empty | keyed
    · rw [empty] at mem
      cases mem
    · exact keyed
  exact ⟨tx, Or.inl (by rw [keyed, present]), keyed, txin, mem, same⟩

theorem backed_step (action : LockAction) (well : tables.LocksWell action) :
    (step action tables).maps.Backed ∧ tables.CleansWell action := by
  cases action with
  | ix env now tx => exact ⟨backed_processIx backed env now tx well, trivial⟩
  | txlvote env now ctx => exact ⟨backed.processVote env now ctx well, trivial⟩
  | doConsensusVote env tx nBlockHeight =>
    have grows : GrowsAt tx.hash tables.maps
        (TransactionLocks.doConsensusVote env tx nBlockHeight tables.maps) :=
      .of_eq (doConsensusVote_locks env tx nBlockHeight tables.maps)
    obtain ⟨requests, inputs⟩ := doConsensusVote_kept env tx nBlockHeight tables.maps
    exact ⟨backed.of_grows grows requests inputs, trivial⟩
  | cleanTransactionLocksList hasTip now =>
    cases hasTip with
    | false =>
      have early := well.resolve_left Bool.false_ne_true
      exact ⟨backed, fun outpoint txHash locked =>
        ⟨known_of_backed backed locked, early outpoint txHash locked⟩,
        fun _ _ locked _ => locked⟩
    | true =>
      obtain ⟨cleaned, kept⟩ := backed_foldl_cleanLock backed now tables.txHashes
      refine ⟨cleaned, fun outpoint txHash locked => ⟨known_of_backed cleaned locked, ?_⟩, kept⟩
      obtain ⟨lock, present⟩ := Option.isSome_iff_exists.mp
        (cleaned.held outpoint txHash locked)
      refine ⟨lock, present, ?_⟩
      have filtered := tables.cleanTransactionLocksList_mapTxLocks now txHash
      exact of_decide_eq_true (Option.filter_eq_some_iff.mp (filtered.symm.trans present)).2

end

theorem backed_initial : initial.maps.Backed where
  held := by
    intro _ _ locked
    cases locked
  requested := by
    intro _ _ locked
    cases locked
  alone := by
    intro _ _ locked
    cases locked
  keyed := by
    intro _ _ present
    cases present

theorem cleansWell_run (actions : List LockAction) (backed : tables.maps.Backed)
    (well : RunMeets (total step) LocksWell actions tables) :
    RunMeets (total step) CleansWell actions tables := by
  induction actions generalizing tables with
  | nil => trivial
  | cons action rest ih =>
    obtain ⟨here, later⟩ := well
    obtain ⟨kept, cleans⟩ := backed_step backed action here
    exact ⟨cleans, ih kept later⟩

/-- **Locked inputs.** In every run from empty tables whose actions lock inputs only for
transactions with a complete lock, where no other request spends them, every cleaning leaves
exactly the entries of known transactions with unexpired locks. -/
theorem lockedInputs_backed (actions : List LockAction)
    (well : RunMeets (total step) LocksWell actions initial) :
    RunMeets (total step) CleansWell actions initial :=
  cleansWell_run actions backed_initial well

/-- A node that knows no transactions and, of its memory pool, only whether it accepts. -/
def sampleEnv (age : Int) (accepts : Bool) : IxEnv where
  fLiteMode := false
  isSwiftTxActive := true
  isBlockchainSynced := true
  getMasternodeRank := fun _ _ => 1
  checkSignature := fun _ => true
  getTransaction := fun _ => none
  maxValue := 1000
  getInputAge := fun _ => age
  tipHeight := 100
  acceptToMemoryPool := fun _ => accepts
  activeMasternode := none
  sign := fun _ => none

def sampleTx : CTransaction := ⟨7, 1, [⟨⟨5, 0⟩, [], 0⟩], [.of 1 [Op.OP_RETURN]], 0⟩

/-- An accepted request, a vote for it and a cleaning after its lock ended. -/
theorem lockedInputs_backed_sample :
    RunMeets (total step) CleansWell
      [.ix (sampleEnv 10 true) 0 sampleTx,
        .txlvote (sampleEnv 10 true).toSwiftEnv 1 ⟨⟨⟨1, 0⟩, [], 0⟩, 7, 94, [], 1⟩,
        .cleanTransactionLocksList true 4000] initial := by
  refine lockedInputs_backed _ ⟨fun _ rejected => ?_, fun completes => ?_, Or.inl rfl, trivial⟩
  · exact absurd rejected (by decide)
  · exact absurd completes.enough (by decide)

/-- A request whose input is too new, for a transaction that is already in the memory pool,
locks the input without a lock. -/
theorem not_lockedInputs_backed_tooNew :
    ¬∀ actions, LockAction.InOrder actions → RunMeets (total step) CleansWell actions initial := by
  intro every
  obtain ⟨-, ⟨entries, -⟩, -⟩ := every [.ix (sampleEnv 2 false) 0 sampleTx,
    .cleanTransactionLocksList true 4000] (by simp [LockAction.InOrder, LockAction.time])
  obtain ⟨-, lock, present, -⟩ := entries ⟨5, 0⟩ 7 (by decide)
  cases present

end LockTables

end DogeCash
