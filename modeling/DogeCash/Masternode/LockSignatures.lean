import DogeCash.Masternode.LockTables

/-! # The votes in a lock

A lock takes every vote that is handed to it. It has no two votes of one masternode because
`mapTxLockVote` refuses the second one, and its entries live as long as the lock: they are
erased only with it.
-/

namespace DogeCash

/-- A vote came in a `txlvote` message and passed the checks at that time. -/
def LockAction.Received (actions : List LockAction) (vote : CConsensusVote) : Prop :=
  ∃ env now, LockAction.txlvote env now vote ∈ actions ∧ env.passes vote = true

/-- The votes of the `txlvote` messages. -/
def LockAction.votes (actions : List LockAction) : List CConsensusVote :=
  actions.filterMap fun
    | .txlvote _ _ ctx => some ctx
    | .ix _ _ _ => none
    | .doConsensusVote _ _ _ => none
    | .cleanTransactionLocksList _ _ => none

/-- The masternodes that validly voted for a transaction. -/
def LockAction.voters (txHash : UInt256) (actions : List LockAction) : Finset COutPoint :=
  (actions.filterMap fun
    | .txlvote env _ ctx =>
      if ctx.txHash = txHash && env.passes ctx then some ctx.vinMasternode.prevout else none
    | .ix _ _ _ => none
    | .doConsensusVote _ _ _ => none
    | .cleanTransactionLocksList _ _ => none).toFinset

/-- Votes with equal hashes are by one masternode on one transaction. -/
def NoCollision (votes : List CConsensusVote) : Prop :=
  ∀ first ∈ votes, ∀ second ∈ votes, first.getHash = second.getHash →
    first.vinMasternode.prevout = second.vinMasternode.prevout ∧ first.txHash = second.txHash

instance (votes : List CConsensusVote) : Decidable (NoCollision votes) :=
  inferInstanceAs (Decidable (∀ first ∈ votes, ∀ second ∈ votes, _))

theorem CConsensusVote.getHash_eq {first second : CConsensusVote}
    (masternode : first.vinMasternode.prevout = second.vinMasternode.prevout)
    (transaction : first.txHash = second.txHash) : first.getHash = second.getHash := by
  rw [getHash, getHash, masternode, transaction]

theorem CTransactionLock.countSignatures_le (lock : CTransactionLock) :
    lock.countSignatures ≤ lock.vecConsensusVotes.length := by
  unfold countSignatures
  split_ifs
  · omega
  · exact_mod_cast List.countP_le_length

namespace TransactionLocks

def votesOf (maps : TransactionLocks) (txHash : UInt256) : List CConsensusVote :=
  ((maps.mapTxLocks txHash).map CTransactionLock.vecConsensusVotes).getD []

/-- The votes in the locks are received votes for their transactions, each stored under its
hash, and no lock has two of one masternode. -/
structure Filed (received : CConsensusVote → Prop) (maps : TransactionLocks) : Prop where
  received : ∀ txHash, ∀ vote ∈ maps.votesOf txHash, vote.txHash = txHash ∧ received vote
  stored : ∀ txHash, ∀ vote ∈ maps.votesOf txHash, (maps.mapTxLockVote vote.getHash).isSome = true
  distinct : ∀ txHash, (maps.votesOf txHash).Pairwise fun first second =>
    first.vinMasternode.prevout ≠ second.vinMasternode.prevout

variable {received : CConsensusVote → Prop} {maps after : TransactionLocks}

/-- The votes in the locks are left alone and no stored vote is erased. -/
structure KeepsVotes (maps after : TransactionLocks) : Prop where
  votes : ∀ txHash, after.votesOf txHash = maps.votesOf txHash
  stored : ∀ hash, (maps.mapTxLockVote hash).isSome = true →
    (after.mapTxLockVote hash).isSome = true

theorem KeepsVotes.of_eq (locks : after.mapTxLocks = maps.mapTxLocks)
    (votes : after.mapTxLockVote = maps.mapTxLockVote) : KeepsVotes maps after := by
  refine ⟨fun txHash => ?_, fun hash present => ?_⟩
  · rw [votesOf, votesOf, locks]
  · rw [votes]
    exact present

theorem KeepsVotes.trans {next : TransactionLocks} (first : KeepsVotes maps next)
    (second : KeepsVotes next after) : KeepsVotes maps after :=
  ⟨fun txHash => (second.votes txHash).trans (first.votes txHash),
    fun hash present => second.stored hash (first.stored hash present)⟩

theorem Filed.keeps (filed : maps.Filed received) (keeps : KeepsVotes maps after) :
    after.Filed received where
  received := by
    intro txHash vote mem
    rw [keeps.votes] at mem
    exact filed.received txHash vote mem
  stored := by
    intro txHash vote mem
    rw [keeps.votes] at mem
    exact keeps.stored vote.getHash (filed.stored txHash vote mem)
  distinct := by
    intro txHash
    rw [keeps.votes]
    exact filed.distinct txHash

/-! ## What keeps the votes -/

theorem keepsVotes_expire (now : Int) (txHash : UInt256) (maps : TransactionLocks) :
    KeepsVotes maps (maps.expire now txHash) := by
  refine ⟨fun other => ?_, fun hash present => present⟩
  by_cases same : other = txHash
  · subst same
    cases held : maps.mapTxLocks other <;> simp [votesOf, expire, held]
  · simp [votesOf, expire, same]

theorem keepsVotes_foldl_lockInputs (txHash : UInt256) (vin : List CTxIn)
    (maps : TransactionLocks) : KeepsVotes maps (vin.foldl (lockInputs txHash) maps) := by
  rw [foldl_lockInputs]
  exact .of_eq rfl rfl

theorem keepsVotes_checkForConflictingLocks (now : Int) (txHash : UInt256) (vin : List CTxIn)
    (maps : TransactionLocks) :
    KeepsVotes maps (maps.checkForConflictingLocks now txHash vin).2 := by
  rcases maps.checkForConflictingLocks_spec now txHash vin with
    ⟨none, _⟩ | ⟨_, _, other, _, _, conflict⟩
  · rw [none]
    exact .of_eq rfl rfl
  · rw [conflict]
    exact (keepsVotes_expire now txHash maps).trans (keepsVotes_expire now other _)

theorem keepsVotes_completeLock (now : Int) (txHash : UInt256) (maps : TransactionLocks) :
    KeepsVotes maps (maps.completeLock now txHash) := by
  have entered : KeepsVotes maps (maps.enterRequest txHash) := .of_eq rfl rfl
  rcases maps.completeLock_cases now txHash with ⟨locked, _⟩ | ⟨other, ended⟩
  · rw [locked]
    exact entered.trans (keepsVotes_foldl_lockInputs txHash _ _)
  · rw [ended]
    exact (entered.trans (keepsVotes_expire now txHash _)).trans (keepsVotes_expire now other _)

theorem keepsVotes_createNewLock (env : IxEnv) (now : Int) (tx : CTransaction)
    (maps : TransactionLocks) : KeepsVotes maps (maps.createNewLock env now tx).2 := by
  unfold createNewLock
  split_ifs
  · exact .of_eq rfl rfl
  · refine ⟨fun other => ?_, fun hash present => present⟩
    by_cases same : other = tx.hash
    · subst same
      cases held : maps.mapTxLocks tx.hash <;> simp [votesOf, held]
    · simp [votesOf, same]

theorem keepsVotes_rejectIx (now : Int) (tx : CTransaction) (maps : TransactionLocks) :
    KeepsVotes maps (maps.rejectIx now tx) := by
  have locked := keepsVotes_foldl_lockInputs tx.hash tx.vin maps
  have checked := locked.trans (keepsVotes_checkForConflictingLocks now tx.hash tx.vin _)
  unfold rejectIx
  simp only
  split_ifs
  · split
    · rename_i conflict
      rw [conflict] at checked
      exact checked
    · rename_i free
      rw [free] at checked
      exact checked.trans (.of_eq rfl rfl)
  · exact locked

theorem keepsVotes_recordVote (ctx : CConsensusVote) (maps : TransactionLocks) :
    KeepsVotes maps (maps.recordVote ctx) := by
  refine ⟨fun txHash => rfl, fun hash present => ?_⟩
  change (Function.update maps.mapTxLockVote ctx.getHash (some ctx) hash).isSome = true
  by_cases same : hash = ctx.getHash
  · rw [same, Function.update_self, Option.isSome_some]
  · rw [Function.update_of_ne same]
    exact present

theorem keepsVotes_doConsensusVote (env : IxEnv) (tx : CTransaction) (nBlockHeight : Int)
    (maps : TransactionLocks) : KeepsVotes maps (maps.doConsensusVote env tx nBlockHeight) := by
  unfold doConsensusVote
  split
  · exact .of_eq rfl rfl
  · exact keepsVotes_recordVote _ maps

/-! ## A vote that is counted -/

theorem votesOf_addSignature (now : Int) (ctx : CConsensusVote) (maps : TransactionLocks)
    (txHash : UInt256) :
    (maps.addSignature now ctx).votesOf txHash =
      if txHash = ctx.txHash then maps.votesOf txHash ++ [ctx] else maps.votesOf txHash := by
  split_ifs with same
  · subst same
    cases held : maps.mapTxLocks ctx.txHash <;> simp [votesOf, addSignature, lockOf, held]
  · simp [votesOf, addSignature, same]

theorem Filed.addSignature (filed : maps.Filed received) (now : Int) {ctx : CConsensusVote}
    (fresh : maps.mapTxLockVote ctx.getHash = none) (passed : received ctx) :
    ((maps.recordVote ctx).addSignature now ctx).Filed received := by
  have recorded := filed.keeps (keepsVotes_recordVote ctx maps)
  have members : ∀ txHash, ∀ vote ∈ ((maps.recordVote ctx).addSignature now ctx).votesOf txHash,
      vote ∈ maps.votesOf txHash ∨ vote = ctx ∧ txHash = ctx.txHash := by
    intro txHash vote mem
    rw [votesOf_addSignature] at mem
    split_ifs at mem with same
    · rcases List.mem_append.mp mem with before | here
      · exact Or.inl before
      · exact Or.inr ⟨List.mem_singleton.mp here, same⟩
    · exact Or.inl mem
  refine ⟨fun txHash vote mem => ?_, fun txHash vote mem => ?_, fun txHash => ?_⟩
  · rcases members txHash vote mem with before | ⟨rfl, rfl⟩
    · exact filed.received txHash vote before
    · exact ⟨rfl, passed⟩
  · rcases members txHash vote mem with before | ⟨rfl, rfl⟩
    · exact recorded.stored txHash vote before
    · exact congrArg Option.isSome (Function.update_self vote.getHash _ maps.mapTxLockVote)
  · rw [votesOf_addSignature]
    split_ifs with same
    · subst same
      refine List.pairwise_append.mpr ⟨filed.distinct ctx.txHash, List.pairwise_singleton _ _, ?_⟩
      intro vote before other here masternode
      rw [List.mem_singleton] at here
      subst here
      have stored := filed.stored other.txHash vote before
      rw [CConsensusVote.getHash_eq masternode (filed.received other.txHash vote before).1,
        fresh] at stored
      cases stored
    · exact filed.distinct txHash

theorem Filed.processVote (filed : maps.Filed received) (env : SwiftEnv) (now : Int)
    (ctx : CConsensusVote) (passed : env.passes ctx = true → received ctx) :
    (TransactionLocks.processVote env now ctx maps).2.Filed received := by
  have outcome := processVote_outcome env now ctx maps
  generalize (TransactionLocks.processVote env now ctx maps).2 = after at outcome
  cases outcome with
  | dropped => exact filed
  | recorded fresh => exact filed.keeps (keepsVotes_recordVote ctx maps)
  | counted running fresh passes incomplete => exact filed.addSignature now fresh (passed passes)
  | completed running fresh passes complete =>
    exact (filed.addSignature now fresh (passed passes)).keeps
      (keepsVotes_completeLock now ctx.txHash _)

end TransactionLocks

/-! ## Runs -/

namespace LockTables

open TransactionLocks

variable {received : CConsensusVote → Prop} {tables : LockTables}

section

variable (filed : tables.maps.Filed received)
include filed

theorem filed_processIx (env : IxEnv) (now : Int) (tx : CTransaction) :
    (tables.processIx env now tx).maps.Filed received := by
  have created : (tables.createNewLock env now tx).maps.Filed received :=
    filed.keeps (keepsVotes_createNewLock env now tx tables.maps)
  rcases tables.processIx_cases now env tx with same | ⟨_, ⟨_, accepted⟩ | ⟨_, rejected⟩⟩
  · rw [same]
    exact filed
  · rw [accepted]
    have voted := created.keeps (keepsVotes_doConsensusVote env tx
      (tables.maps.createNewLock env now tx).1 _)
    exact voted.keeps (.of_eq rfl rfl)
  · rw [rejected]
    exact created.keeps (keepsVotes_rejectIx now tx _)

theorem filed_cleanLock (noCollision : ∀ first second, received first → received second →
      first.getHash = second.getHash → first.txHash = second.txHash) (now : Int) (txHash : UInt256) :
    (tables.cleanLock now txHash).maps.Filed received := by
  rcases tables.cleanLock_cases now txHash with ⟨same, _⟩ | ⟨lock, held, ended, erased⟩
  · rw [same]
    exact filed
  have votesHere : tables.maps.votesOf txHash = lock.vecConsensusVotes := by
    rw [votesOf, held, Option.map_some, Option.getD_some]
  have votes : ∀ other, (tables.cleanLock now txHash).maps.votesOf other =
      if other = txHash then [] else tables.maps.votesOf other := by
    intro other
    rw [votesOf, cleanLock_mapTxLocks]
    split_ifs with same
    · rw [same, held, Option.filter_some, if_neg (by simpa using ended)]
      rfl
    · rfl
  have kept : ∀ other ≠ txHash, ∀ vote ∈ tables.maps.votesOf other,
      ((tables.cleanLock now txHash).maps.mapTxLockVote vote.getHash).isSome = true := by
    intro other differ vote mem
    have stored := filed.stored other vote mem
    rw [erased]
    change ((tables.releaseLock txHash lock).maps.mapTxLockVote vote.getHash).isSome = true
    cases requested : tables.maps.mapTxLockReq txHash with
    | none =>
      simp only [releaseLock, requested]
      exact stored
    | some tx =>
      rw [releaseLock_maps txHash tables lock requested]
      change (eraseAll _ _ _).isSome = true
      rw [eraseAll_apply, if_neg]
      · exact stored
      · intro collides
        obtain ⟨removed, inside, sameHash⟩ := List.mem_map.mp collides
        rw [← votesHere] at inside
        obtain ⟨removedHash, removedReceived⟩ := filed.received txHash removed inside
        obtain ⟨voteHash, voteReceived⟩ := filed.received other vote mem
        apply differ
        rw [← voteHash, ← removedHash]
        exact (noCollision removed vote removedReceived voteReceived sameHash).symm
  refine ⟨fun other vote mem => ?_, fun other vote mem => ?_, fun other => ?_⟩
  · rw [votes] at mem
    split_ifs at mem
    · cases mem
    · exact filed.received other vote mem
  · rw [votes] at mem
    split_ifs at mem with same
    · cases mem
    · exact kept other same vote mem
  · rw [votes]
    split_ifs
    · exact List.Pairwise.nil
    · exact filed.distinct other

theorem filed_step (noCollision : ∀ first second, received first → received second →
      first.getHash = second.getHash → first.txHash = second.txHash) (action : LockAction)
    (passed : ∀ env now ctx, action = .txlvote env now ctx → env.passes ctx = true → received ctx) :
    (step action tables).maps.Filed received := by
  cases action with
  | ix env now tx => exact filed_processIx filed env now tx
  | txlvote env now ctx => exact filed.processVote env now ctx (passed env now ctx rfl)
  | doConsensusVote env tx nBlockHeight =>
    exact filed.keeps (keepsVotes_doConsensusVote env tx nBlockHeight tables.maps)
  | cleanTransactionLocksList hasTip now =>
    change (tables.cleanTransactionLocksList hasTip now).maps.Filed received
    unfold cleanTransactionLocksList
    split_ifs
    · refine List.foldlRecOn (motive := fun cleaned => cleaned.maps.Filed received)
        tables.txHashes (cleanLock now) filed ?_
      exact fun cleaned before txHash _ => filed_cleanLock before noCollision now txHash
    · exact filed

end

theorem filed_initial : initial.maps.Filed received where
  received := by
    intro _ _ mem
    cases mem
  stored := by
    intro _ _ mem
    cases mem
  distinct := fun _ => List.Pairwise.nil

def after (actions : List LockAction) : LockTables :=
  actions.foldl (fun tables action => step action tables) initial

theorem filed_after {actions : List LockAction}
    (noCollision : NoCollision (LockAction.votes actions)) :
    (after actions).maps.Filed (LockAction.Received actions) := by
  have listed : ∀ {vote}, LockAction.Received actions vote → vote ∈ LockAction.votes actions := by
    rintro vote ⟨env, now, mem, _⟩
    exact List.mem_filterMap.mpr ⟨_, mem, rfl⟩
  refine run_invariant (fun tables => tables.maps.Filed (LockAction.Received actions))
    (fun action mem before next filed stepped => ?_) (run_total step actions initial)
    filed_initial
  cases stepped
  refine filed_step filed (fun first second received others sameHash => ?_) action ?_
  · exact (noCollision first (listed received) second (listed others) sameHash).2
  · rintro env now ctx rfl passes
    exact ⟨env, now, mem, passes⟩

/-- **The votes of a lock.** As long as no two votes collide, a lock has no two votes of one
masternode, all of them were received and passed the checks, and it counts no more signatures
than masternodes that validly voted for its transaction. -/
theorem lock_votes_distinct (actions : List LockAction)
    (noCollision : NoCollision (LockAction.votes actions)) (txHash : UInt256)
    (lock : CTransactionLock) (present : (after actions).maps.mapTxLocks txHash = some lock) :
    (lock.vecConsensusVotes.Pairwise fun first second =>
        first.vinMasternode.prevout ≠ second.vinMasternode.prevout) ∧
      (∀ vote ∈ lock.vecConsensusVotes, vote.txHash = txHash ∧ LockAction.Received actions vote) ∧
        lock.countSignatures ≤ (LockAction.voters txHash actions).card := by
  have filed := filed_after noCollision
  have votes : (after actions).maps.votesOf txHash = lock.vecConsensusVotes := by
    rw [votesOf, present, Option.map_some, Option.getD_some]
  have distinct := filed.distinct txHash
  have passed := filed.received txHash
  rw [votes] at distinct passed
  refine ⟨distinct, passed, lock.countSignatures_le.trans ?_⟩
  have nodup : (lock.vecConsensusVotes.map fun vote => vote.vinMasternode.prevout).Nodup :=
    List.pairwise_map.mpr distinct
  have voted : (lock.vecConsensusVotes.map fun vote => vote.vinMasternode.prevout).toFinset ⊆
      LockAction.voters txHash actions := by
    intro outpoint mem
    obtain ⟨vote, inside, rfl⟩ := List.mem_map.mp (List.mem_toFinset.mp mem)
    obtain ⟨sameHash, env, now, received, passes⟩ := passed vote inside
    refine List.mem_toFinset.mpr (List.mem_filterMap.mpr ⟨_, received, ?_⟩)
    simp [sameHash, passes]
  have enough := Finset.card_le_card voted
  rw [List.toFinset_card_of_nodup nodup, List.length_map] at enough
  exact_mod_cast enough

/-- A node that finds every masternode in the second place. -/
def votingEnv : SwiftEnv where
  fLiteMode := false
  isSwiftTxActive := true
  isBlockchainSynced := true
  getMasternodeRank := fun _ _ => 2
  checkSignature := fun _ => true

def sampleVote (masternode : UInt256) : CConsensusVote := ⟨⟨⟨masternode, 0⟩, [], 0⟩, 7, 94, [], 1⟩

/-- A masternode votes twice and another one once. -/
theorem lock_votes_distinct_sample :
    ([sampleVote 1, sampleVote 2].Pairwise fun first second =>
        first.vinMasternode.prevout ≠ second.vinMasternode.prevout) ∧
      (∀ vote ∈ [sampleVote 1, sampleVote 2], vote.txHash = 7 ∧ LockAction.Received
        ([sampleVote 1, sampleVote 1, sampleVote 2].map (.txlvote votingEnv 0)) vote) ∧
        CTransactionLock.countSignatures ⟨0, [sampleVote 1, sampleVote 2], 3600, 300⟩ ≤
          (LockAction.voters 7
            ([sampleVote 1, sampleVote 1, sampleVote 2].map (.txlvote votingEnv 0))).card :=
  lock_votes_distinct _ (by decide) 7 ⟨0, [sampleVote 1, sampleVote 2], 3600, 300⟩
    (by decide)

end LockTables

end DogeCash
