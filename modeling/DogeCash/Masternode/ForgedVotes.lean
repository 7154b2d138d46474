import DogeCash.Masternode.BudgetVotes
import DogeCash.Masternode.LockVotes

/-! # Forged votes

The identity of a vote does not cover its signature, and each of the four handlers records
a vote before it checks the signature. A forgery therefore takes the place of the vote it
imitates: the vote is then dropped as one that was seen (`counted_after_forgery_iff`).

A vote counts for a node if its message changes the votes that the node holds.
-/

namespace DogeCash

namespace VoteBook

variable {env : BudgetEnv} {Vote : Type} {kind : VoteKind Vote} {now : Int}

variable {book : VoteBook kind}

theorem processVote_of_seen {vote : Vote} (seen : (book.seenVotes (kind.getHash vote)).isSome) :
    book.processVote env now vote = (false, book) := by
  unfold processVote
  rw [if_pos seen]

theorem processVote_of_forged {forged : Vote} (unseen : book.seenVotes (kind.getHash forged) = none)
    (known : env.find (kind.prevout forged) = true) (unsigned : kind.checkSignature forged = false)
    :
    book.processVote env now forged = (false, book.markSeen forged) := by
  simp [processVote, unseen, known, unsigned]

theorem mapVotes_after_forgery (later : Int) {vote forged : Vote}
    (unseen : book.seenVotes (kind.getHash vote) = none)
    (same : kind.getHash forged = kind.getHash vote) (known : env.find (kind.prevout forged) = true)
    (unsigned : kind.checkSignature forged = false) :
    ((book.processVote env now forged).2.processVote env later vote).2.mapVotes =
      book.mapVotes := by
  rw [processVote_of_forged (same ▸ unseen) known unsigned, processVote_of_seen]
  · rfl
  · simp [markSeen, same]

theorem unseen_of_counted {vote : Vote}
    (counted : (book.processVote env now vote).2.mapVotes ≠ book.mapVotes) :
    book.seenVotes (kind.getHash vote) = none := by
  by_contra seen
  apply counted
  rw [processVote_of_seen (Option.isSome_iff_ne_none.mpr seen)]

theorem mapVotes_ne_after_forgery {before : Int} {vote forged : Vote}
    (same : kind.getHash forged = kind.getHash vote) (known : env.find (kind.prevout forged) = true)
    (unsigned : kind.checkSignature forged = false)
    (counted : (book.processVote env now vote).2.mapVotes ≠ book.mapVotes) :
    ((book.processVote env before forged).2.processVote env now vote).2.mapVotes ≠
      (book.processVote env now vote).2.mapVotes := by
  rw [mapVotes_after_forgery now (unseen_of_counted counted) same known unsigned]
  exact counted.symm

end VoteBook

namespace BudgetManager

variable {env : BudgetEnv} {manager : BudgetManager env}

theorem enabled_of_processMessage_ne {message : Int × BudgetMessage}
    (changed : processMessage manager message ≠ manager) :
    (env.fLiteMode || !env.isBlockchainSynced) = false := by
  by_contra disabled
  apply changed
  unfold processMessage
  rw [if_pos (Bool.eq_true_of_not_eq_false disabled)]

theorem proposals_ne_after_forgery {vote forged : CBudgetVote} {before now : Int}
    (same : env.mvote.getHash forged = env.mvote.getHash vote)
    (known : env.find forged.vin.prevout = true) (unsigned : env.checkBudgetVote forged = false)
    (counted : (manager.processMessage (now, .mvote vote)).proposals.mapVotes ≠
      manager.proposals.mapVotes) :
    ((manager.processMessage (before, .mvote forged)).processMessage
        (now, .mvote vote)).proposals.mapVotes ≠
      (manager.processMessage (now, .mvote vote)).proposals.mapVotes := by
  have enabled : (env.fLiteMode || !env.isBlockchainSynced) = false := by
    apply enabled_of_processMessage_ne
    intro unchanged
    exact counted (congrArg (·.proposals.mapVotes) unchanged)
  simp only [processMessage, enabled, Bool.false_eq_true, ↓reduceIte] at counted ⊢
  exact VoteBook.mapVotes_ne_after_forgery same known unsigned counted

theorem finalizedBudgets_ne_after_forgery {vote forged : CFinalizedBudgetVote} {before now : Int}
    (same : env.fbvote.getHash forged = env.fbvote.getHash vote)
    (known : env.find forged.vin.prevout = true)
    (unsigned : env.checkFinalizedBudgetVote forged = false)
    (counted : (manager.processMessage (now, .fbvote vote)).finalizedBudgets.mapVotes ≠
      manager.finalizedBudgets.mapVotes) :
    ((manager.processMessage (before, .fbvote forged)).processMessage
        (now, .fbvote vote)).finalizedBudgets.mapVotes ≠
      (manager.processMessage (now, .fbvote vote)).finalizedBudgets.mapVotes := by
  have enabled : (env.fLiteMode || !env.isBlockchainSynced) = false := by
    apply enabled_of_processMessage_ne
    intro unchanged
    exact counted (congrArg (·.finalizedBudgets.mapVotes) unchanged)
  simp only [processMessage, enabled, Bool.false_eq_true, ↓reduceIte] at counted ⊢
  exact VoteBook.mapVotes_ne_after_forgery same known unsigned counted

end BudgetManager

namespace MasternodePayments

variable {env : PaymentEnv} {state : MasternodePayments}

def tally (state : MasternodePayments) :
    (UInt256 → Option CMasternodePaymentWinner) × (Int → Option (List (CScript × Int))) :=
  (state.mapMasternodePayeeVotes, state.mapMasternodeBlocks)

/-- The state after `CanVote` recorded a vote. -/
def recordVote (state : MasternodePayments) (outMasternode : COutPoint) (nBlockHeight : Int) :
    MasternodePayments :=
  { state with
    mapMasternodesLastVote :=
      Function.update state.mapMasternodesLastVote outMasternode.sum (some nBlockHeight) }

/-- The handler of `mnw` leaves a vote alone before it comes to `CanVote`. -/
def droppedEarly (env : PaymentEnv) (nVersion : Int) (winner : CMasternodePaymentWinner)
    (state : MasternodePayments) : Prop :=
  nVersion < env.activeProtocol ∨ (state.mapMasternodePayeeVotes (winner.getHash env)).isSome ∨
    winner.isOutdated env

variable {nVersion : Int} {winner : CMasternodePaymentWinner}

theorem not_droppedEarly_iff :
    ¬droppedEarly env nVersion winner state ↔ ¬nVersion < env.activeProtocol ∧
      (state.mapMasternodePayeeVotes (winner.getHash env)).isSome = false ∧
      winner.isOutdated env = false := by
  unfold droppedEarly
  rw [not_or, not_or, Bool.not_eq_true, Bool.not_eq_true]

theorem processWinner_of_droppedEarly (early : droppedEarly env nVersion winner state) :
    state.processWinner env nVersion winner = (false, state) := by
  unfold processWinner
  rcases early with old | seen | outdated
  · split_ifs <;> rfl
  · split_ifs
    · rfl
    · rfl
    · cases env.tipHeight with
      | none => rfl
      | some nHeight => rfl
  · cases env.tipHeight with
    | none => split_ifs <;> rfl
    | some nHeight =>
      simp only
      split_ifs <;> rfl

/-- What holds of a vote that comes to `CanVote`, and passes it. -/
structure Admitted (env : PaymentEnv) (state : MasternodePayments) (nVersion : Int)
    (winner : CMasternodePaymentWinner) (nHeight : Int) : Prop where
  synced : env.isBlockchainSynced = true
  full : env.fLiteMode = false
  tip : env.tipHeight = some nHeight
  inRange : winner.inRange env nHeight = true
  valid : winner.isValid env = true
  first : state.mapMasternodesLastVote winner.vinMasternode.prevout.sum ≠ some winner.nBlockHeight
  early : ¬droppedEarly env nVersion winner state

theorem admitted_of_counted (counted : (state.processWinner env nVersion winner).1 = true ∨
      (state.processWinner env nVersion winner).2.tally ≠ state.tally) :
    ∃ nHeight, Admitted env state nVersion winner nHeight := by
  cases synced : env.isBlockchainSynced with
  | false => simp [processWinner, synced] at counted
  | true =>
  cases lite : env.fLiteMode with
  | true => simp [processWinner, lite] at counted
  | false =>
  by_cases early : droppedEarly env nVersion winner state
  · simp [processWinner_of_droppedEarly early] at counted
  cases tip : env.tipHeight with
  | none => simp [processWinner, tip] at counted
  | some nHeight =>
  cases near : winner.inRange env nHeight with
  | false => simp [processWinner, tip, near] at counted
  | true =>
  cases valid : winner.isValid env with
  | false => simp [processWinner, tip, near, valid] at counted
  | true =>
    refine ⟨nHeight, synced, lite, tip, near, valid, ?_, early⟩
    intro voted
    simp [processWinner, tip, near, valid, canVote, voted] at counted

theorem Admitted.processWinner_eq {nVersion nHeight : Int}
    (admitted : Admitted env state nVersion winner nHeight) :
    state.processWinner env nVersion winner =
      if !env.checkSignature winner then
        (false, state.recordVote winner.vinMasternode.prevout winner.nBlockHeight)
      else
        (state.recordVote winner.vinMasternode.prevout
          winner.nBlockHeight).addWinningMasternode env winner := by
  obtain ⟨current, unseen, fresh⟩ := not_droppedEarly_iff.mp admitted.early
  simp [processWinner, admitted.synced, admitted.full, current, admitted.tip, unseen,
    admitted.inRange, fresh, admitted.valid, canVote, admitted.first, recordVote]

theorem processWinner_of_voted
    (voted : state.mapMasternodesLastVote winner.vinMasternode.prevout.sum =
      some winner.nBlockHeight) :
    (state.processWinner env nVersion winner).2.tally = state.tally := by
  by_contra counted
  obtain ⟨nHeight, admitted⟩ := admitted_of_counted (.inr counted)
  exact admitted.first voted

/-- For `mnw` a forgery suppresses the vote unless the handler leaves it alone before it
comes to `CanVote`. -/
theorem tally_after_forgery_iff {version otherVersion : Int}
    {winner forged : CMasternodePaymentWinner}
    (samePrevout : forged.vinMasternode.prevout = winner.vinMasternode.prevout)
    (sameHeight : forged.nBlockHeight = winner.nBlockHeight)
    (unsigned : env.checkSignature forged = false)
    (counted : (state.processWinner env version winner).2.tally ≠ state.tally) :
    ((state.processWinner env otherVersion forged).2.processWinner env version winner).2.tally =
        (state.processWinner env version winner).2.tally ↔
      droppedEarly env otherVersion forged state := by
  obtain ⟨nHeight, admitted⟩ := admitted_of_counted (.inr counted)
  constructor
  · intro alike
    by_contra late
    -- The forgery has the masternode and the height of the vote, so it is admitted like it.
    have forgedAdmitted : Admitted env state otherVersion forged nHeight :=
      { synced := admitted.synced
        full := admitted.full
        tip := admitted.tip
        inRange := by
          rw [← admitted.inRange]
          simp only [CMasternodePaymentWinner.inRange, sameHeight]
        valid := by
          rw [← admitted.valid]
          simp only [CMasternodePaymentWinner.isValid, samePrevout, sameHeight]
        first := by
          rw [samePrevout, sameHeight]
          exact admitted.first
        early := late }
    apply counted
    rw [← alike, forgedAdmitted.processWinner_eq, unsigned, processWinner_of_voted]
    · rfl
    · simp [recordVote, samePrevout, sameHeight]
  · intro early
    rw [processWinner_of_droppedEarly early]

end MasternodePayments

namespace TransactionLocks

variable {env : SwiftEnv} {state : TransactionLocks}

theorem processVote_of_seen {now : Int} {ctx : CConsensusVote}
    (seen : (state.mapTxLockVote ctx.getHash).isSome) :
    (state.processVote env now ctx).2 = state := by
  unfold processVote
  split_ifs <;> rfl

theorem processVote_of_forged {now : Int} {forged : CConsensusVote}
    (enabled : (env.fLiteMode || !env.isSwiftTxActive || !env.isBlockchainSynced) = false)
    (unseen : state.mapTxLockVote forged.getHash = none)
    (unsigned : env.checkSignature forged = false) :
    (state.processVote env now forged).2 = { state with
      mapTxLockVote := Function.update state.mapTxLockVote forged.getHash (some forged) } := by
  simp only [processVote, enabled, Bool.false_eq_true, ↓reduceIte, unseen, Option.isSome_none,
    processConsensusVote, unsigned, Bool.not_false]
  split_ifs <;> rfl

theorem mapTxLocks_ne_after_forgery {before now : Int} {ctx forged : CConsensusVote}
    (same : forged.getHash = ctx.getHash) (unsigned : env.checkSignature forged = false)
    (counted : (state.processVote env now ctx).2.mapTxLocks ≠ state.mapTxLocks) :
    ((state.processVote env before forged).2.processVote env now ctx).2.mapTxLocks ≠
      (state.processVote env now ctx).2.mapTxLocks := by
  have enabled : (env.fLiteMode || !env.isSwiftTxActive || !env.isBlockchainSynced) = false := by
    by_contra disabled
    apply counted
    unfold processVote
    rw [if_pos (Bool.eq_true_of_not_eq_false disabled)]
  have unseen : state.mapTxLockVote ctx.getHash = none := by
    by_contra seen
    apply counted
    rw [processVote_of_seen (Option.isSome_iff_ne_none.mpr seen)]
  rw [processVote_of_forged enabled (same ▸ unseen) unsigned, processVote_of_seen]
  · exact counted.symm
  · simp [same]

end TransactionLocks

/-! ## The four kinds together -/

/-- The parts of a node that handle votes. -/
structure VoteNode where
  budgetEnv : BudgetEnv
  manager : BudgetManager budgetEnv
  paymentEnv : PaymentEnv
  payments : MasternodePayments
  swiftEnv : SwiftEnv
  locks : TransactionLocks

/-- A message with a vote, with the time or the protocol version of the peer where the
handler asks for it. -/
inductive VoteMessage where
  | mvote (now : Int) (vote : CBudgetVote)
  | fbvote (now : Int) (vote : CFinalizedBudgetVote)
  | mnw (nVersion : Int) (winner : CMasternodePaymentWinner)
  | txlvote (now : Int) (ctx : CConsensusVote)

structure HeldVotes where
  proposals : UInt256 → Option (UInt256 → Option CBudgetVote)
  finalizedBudgets : UInt256 → Option (UInt256 → Option CFinalizedBudgetVote)
  payees : (UInt256 → Option CMasternodePaymentWinner) × (Int → Option (List (CScript × Int)))
  locks : UInt256 → Option CTransactionLock

namespace VoteNode

variable (node : VoteNode)

def process : VoteMessage → VoteNode
  | .mvote now vote => { node with manager := node.manager.processMessage (now, .mvote vote) }
  | .fbvote now vote => { node with manager := node.manager.processMessage (now, .fbvote vote) }
  | .mnw nVersion winner =>
    { node with payments := (node.payments.processWinner node.paymentEnv nVersion winner).2 }
  | .txlvote now ctx => { node with locks := (node.locks.processVote node.swiftEnv now ctx).2 }

def votes : HeldVotes where
  proposals := node.manager.proposals.mapVotes
  finalizedBudgets := node.manager.finalizedBudgets.mapVotes
  payees := node.payments.tally
  locks := node.locks.mapTxLocks

def checkSignature : VoteMessage → Bool
  | .mvote _ vote => node.budgetEnv.checkBudgetVote vote
  | .fbvote _ vote => node.budgetEnv.checkFinalizedBudgetVote vote
  | .mnw _ winner => node.paymentEnv.checkSignature winner
  | .txlvote _ ctx => node.swiftEnv.checkSignature ctx

/-- The masternode of a vote is known. For `mnw` and `txlvote` this is part of what a vote
has to pass in order to count. -/
def VoterKnown : VoteMessage → Prop
  | .mvote _ vote => node.budgetEnv.find vote.vin.prevout = true
  | .fbvote _ vote => node.budgetEnv.find vote.vin.prevout = true
  | .mnw _ _ => True
  | .txlvote _ _ => True

/-- Two messages of one kind carry votes with the same hash or, for `mnw`, of the same
masternode for the same height. -/
def SameIdentity : VoteMessage → VoteMessage → Prop
  | .mvote _ first, .mvote _ second =>
    node.budgetEnv.mvote.getHash first = node.budgetEnv.mvote.getHash second
  | .fbvote _ first, .fbvote _ second =>
    node.budgetEnv.fbvote.getHash first = node.budgetEnv.fbvote.getHash second
  | .mnw _ first, .mnw _ second =>
    first.vinMasternode.prevout = second.vinMasternode.prevout ∧
      first.nBlockHeight = second.nBlockHeight
  | .txlvote _ first, .txlvote _ second => first.getHash = second.getHash
  | _, _ => False

/-- The handler leaves the message alone before it records anything of it. Only that of `mnw`
does so with a vote whose like it would count. -/
def LeavesAlone : VoteMessage → Prop
  | .mnw nVersion winner =>
    MasternodePayments.droppedEarly node.paymentEnv nVersion winner node.payments
  | _ => False

/-! The votes after a message: those of the other kinds are as before. -/

variable {node}

theorem votes_mvote {now : Int} {vote : CBudgetVote} :
    (node.process (.mvote now vote)).votes = { node.votes with
      proposals := (node.manager.processMessage (now, .mvote vote)).proposals.mapVotes } := by
  unfold process votes BudgetManager.processMessage
  dsimp only
  split_ifs
  · rfl
  · rfl

theorem votes_fbvote {now : Int} {vote : CFinalizedBudgetVote} :
    (node.process (.fbvote now vote)).votes = { node.votes with
      finalizedBudgets :=
        (node.manager.processMessage (now, .fbvote vote)).finalizedBudgets.mapVotes } := by
  unfold process votes BudgetManager.processMessage
  dsimp only
  split_ifs
  · rfl
  · rfl

theorem votes_mnw {nVersion : Int} {winner : CMasternodePaymentWinner} :
    (node.process (.mnw nVersion winner)).votes = { node.votes with
      payees := (node.payments.processWinner node.paymentEnv nVersion winner).2.tally } :=
  rfl

theorem votes_txlvote {now : Int} {ctx : CConsensusVote} :
    (node.process (.txlvote now ctx)).votes = { node.votes with
      locks := (node.locks.processVote node.swiftEnv now ctx).2.mapTxLocks } :=
  rfl

end VoteNode

/-- **A badly signed vote takes the place of a good one** with the same identity. For
`mvote`, `fbvote` and `txlvote` the good vote never counts as it does alone; for `mnw` it
does exactly if the forgery is left alone before `CanVote`. -/
theorem counted_after_forgery_iff (node : VoteNode) (vote forged : VoteMessage)
    (same : node.SameIdentity forged vote) (known : node.VoterKnown forged)
    (unsigned : node.checkSignature forged = false)
    (counted : (node.process vote).votes ≠ node.votes) :
    ((node.process forged).process vote).votes = (node.process vote).votes ↔
      node.LeavesAlone forged := by
  cases forged with
  | mvote before forged =>
    cases vote with
    | mvote now vote =>
      refine iff_of_false ?_ id
      rw [VoteNode.votes_mvote, ne_eq] at counted
      rw [VoteNode.votes_mvote, VoteNode.votes_mvote, VoteNode.votes_mvote, HeldVotes.mk.injEq]
      refine fun alike =>
        BudgetManager.proposals_ne_after_forgery same known unsigned ?_ alike.1
      intro unchanged
      rw [unchanged] at counted
      exact counted rfl
    | _ => cases same
  | fbvote before forged =>
    cases vote with
    | fbvote now vote =>
      refine iff_of_false ?_ id
      rw [VoteNode.votes_fbvote, ne_eq] at counted
      rw [VoteNode.votes_fbvote, VoteNode.votes_fbvote, VoteNode.votes_fbvote, HeldVotes.mk.injEq]
      refine fun alike =>
        BudgetManager.finalizedBudgets_ne_after_forgery same known unsigned ?_ alike.2.1
      intro unchanged
      rw [unchanged] at counted
      exact counted rfl
    | _ => cases same
  | mnw otherVersion forged =>
    cases vote with
    | mnw version winner =>
      have changed : (node.payments.processWinner node.paymentEnv version winner).2.tally ≠
          node.payments.tally := by
        intro unchanged
        rw [VoteNode.votes_mnw, unchanged] at counted
        exact counted rfl
      refine Iff.trans ?_
        (MasternodePayments.tally_after_forgery_iff same.1 same.2 unsigned changed)
      rw [VoteNode.votes_mnw, VoteNode.votes_mnw, VoteNode.votes_mnw, HeldVotes.mk.injEq]
      exact ⟨fun alike => alike.2.2.1, fun alike => ⟨rfl, rfl, alike, rfl⟩⟩
    | _ => cases same
  | txlvote before forged =>
    cases vote with
    | txlvote now ctx =>
      refine iff_of_false ?_ id
      rw [VoteNode.votes_txlvote, ne_eq] at counted
      rw [VoteNode.votes_txlvote, VoteNode.votes_txlvote, VoteNode.votes_txlvote,
        HeldVotes.mk.injEq]
      refine fun alike =>
        TransactionLocks.mapTxLocks_ne_after_forgery same unsigned ?_ alike.2.2.2
      intro unchanged
      rw [unchanged] at counted
      exact counted rfl
    | _ => cases same

/-! ## A forgery for each kind -/

def sampleVoter : CTxIn := ⟨⟨1, 0⟩, [], 0xffffffff⟩

def forgeryEnv : BudgetEnv :=
  { BudgetManager.sampleEnv with
    checkBudgetVote := fun vote => vote.vchSig = [1]
    checkFinalizedBudgetVote := fun vote => vote.vchSig = [1] }

/-- A manager that knows the item `500` of both kinds and holds no votes. -/
def forgeryManager : BudgetManager forgeryEnv where
  proposals := ⟨fun _ => none, fun _ => false, ∅,
    Function.update (fun _ => none) 500 (some fun _ => none), fun _ _ held => by cases held⟩
  finalizedBudgets := ⟨fun _ => none, fun _ => false, ∅,
    Function.update (fun _ => none) 500 (some fun _ => none), fun _ _ held => by cases held⟩

def sampleBudgetVote (vchSig : List UInt8) : CBudgetVote :=
  ⟨sampleVoter, 500, 1, 1600000000, vchSig, 1⟩

def sampleFinalizedVote (vchSig : List UInt8) : CFinalizedBudgetVote :=
  ⟨sampleVoter, 500, 1600000000, vchSig, 1⟩

/-- A node at height 1000 in which every masternode has rank 1. -/
def samplePaymentEnv : PaymentEnv where
  fLiteMode := false
  isBlockchainSynced := true
  activeProtocol := 70000
  tipHeight := some 1000
  countEnabled := 20
  newSigsActive _ := true
  findProtocol _ := some 70000
  getMasternodeRank _ _ := 1
  winnerHash _ nBlockHeight out := out.sum + BitVec.ofInt 256 nBlockHeight
  checkSignature winner := winner.vchSig = [1]
  hasBlockHash _ := true

def noPayments : MasternodePayments := ⟨fun _ => none, fun _ => none, fun _ => none⟩

def sampleWinner (vchSig : List UInt8) : CMasternodePaymentWinner :=
  ⟨sampleVoter, 1010, [], vchSig, 1⟩

def sampleSwiftEnv : SwiftEnv where
  fLiteMode := false
  isSwiftTxActive := true
  isBlockchainSynced := true
  getMasternodeRank _ _ := 1
  checkSignature ctx := ctx.vchSig = [1]

def noLocks : TransactionLocks := ⟨fun _ => none, fun _ => none, fun _ => none, fun _ => none⟩

def sampleConsensusVote (vchSig : List UInt8) : CConsensusVote := ⟨sampleVoter, 9, 1000, vchSig, 1⟩

/-- Each of the votes counts alone, and none of them does after its forgery. -/
theorem not_counted_after_forgery :
    (((forgeryManager.processMessage (1600000000, .mvote (sampleBudgetVote [1]))).proposals.mapVotes
          500).bind (· 1)).isSome = true ∧
      (((forgeryManager.processMessage (1600000000, .mvote (sampleBudgetVote []))).processMessage
          (1600000000, .mvote (sampleBudgetVote [1]))).proposals.mapVotes 500).bind (· 1) = none ∧
    (((forgeryManager.processMessage
          (1600000000, .fbvote (sampleFinalizedVote [1]))).finalizedBudgets.mapVotes
            500).bind (· 1)).isSome = true ∧
      (((forgeryManager.processMessage
          (1600000000, .fbvote (sampleFinalizedVote []))).processMessage
            (1600000000, .fbvote (sampleFinalizedVote [1]))).finalizedBudgets.mapVotes
              500).bind (· 1) = none ∧
    (noPayments.processWinner samplePaymentEnv 70000 (sampleWinner [1])).2.mapMasternodeBlocks
        1010 = some [([], 1)] ∧
      ((noPayments.processWinner samplePaymentEnv 70000 (sampleWinner [])).2.processWinner
          samplePaymentEnv 70000 (sampleWinner [1])).2.mapMasternodeBlocks 1010 = none ∧
    ((noLocks.processVote sampleSwiftEnv 0 (sampleConsensusVote [1])).2.mapTxLocks 9).map
        (·.vecConsensusVotes.length) = some 1 ∧
      ((noLocks.processVote sampleSwiftEnv 0 (sampleConsensusVote [])).2.processVote
          sampleSwiftEnv 0 (sampleConsensusVote [1])).2.mapTxLocks 9 = none := by
  decide

/-- A node that has not seen any of these votes. -/
def forgeryNode : VoteNode where
  budgetEnv := forgeryEnv
  manager := forgeryManager
  paymentEnv := samplePaymentEnv
  payments := noPayments
  swiftEnv := sampleSwiftEnv
  locks := noLocks

/-- A vote for a payee counts after a forgery that an old peer sends. -/
theorem counted_after_old_forgery :
    ((forgeryNode.process (.mnw 60000 (sampleWinner []))).process
        (.mnw 70000 (sampleWinner [1]))).votes =
      (forgeryNode.process (.mnw 70000 (sampleWinner [1]))).votes := by
  have counted : (forgeryNode.process (.mnw 70000 (sampleWinner [1]))).votes ≠
      forgeryNode.votes := by
    intro same
    have blocks := congrFun (congrArg (fun held => held.payees.2) same) 1010
    revert blocks
    decide
  apply (counted_after_forgery_iff forgeryNode (.mnw 70000 (sampleWinner [1]))
    (.mnw 60000 (sampleWinner [])) ⟨rfl, rfl⟩ trivial rfl counted).mpr
  exact .inl (by decide)

end DogeCash
