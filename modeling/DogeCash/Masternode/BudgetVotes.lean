import DogeCash.Foundation.FixedWidth
import DogeCash.Foundation.KeyedMap
import DogeCash.Primitives.Transaction

/-! # Votes on the budget

Masternodes vote on proposals (`mvote`) and on finalized budgets (`fbvote`). The budget
manager handles the two kinds alike: a vote that was seen before is dropped, a vote for
something it does not know yet waits among the orphans, and what arrives by `mprop` or
`fbs` takes up the orphans that wait for it.

The orphans are kept by what is voted on, so of several early votes only the last one
waits. No vote is lost exactly if at most one of them is early (`votesHeld_iff`).
-/

namespace DogeCash

open List (foldl_cons map_append map_cons map_map mem_cons mem_cons_of_mem mem_cons_self mem_map
  mem_map_of_mem nodup_cons)
open Function (update_of_ne update_self)
open Option (getD_some isSome_none map_some)
open Prod (snd)

/-- `BUDGET_VOTE_UPDATE_MIN` -/
def budgetVoteUpdateMin : Int := 60 * 60

structure CBudgetVote where
  vin : CTxIn
  nProposalHash : UInt256
  nVote : Int
  nTime : Int
  vchSig : List UInt8
  nMessVersion : Int
  deriving DecidableEq

structure CFinalizedBudgetVote where
  vin : CTxIn
  nBudgetHash : UInt256
  nTime : Int
  vchSig : List UInt8
  nMessVersion : Int
  deriving DecidableEq

/-- What the budget manager asks the rest of the node. -/
structure BudgetEnv where
  fLiteMode : Bool
  isBlockchainSynced : Bool
  isSynced : Bool
  /-- Whether `CMasternodeMan::Find` finds a masternode. -/
  find : COutPoint → Bool
  /-- `COutPoint::GetHash` -/
  outPointHash : COutPoint → UInt256
  budgetVoteHash : CTxIn → UInt256 → Int → Int → UInt256
  finalizedBudgetVoteHash : CTxIn → UInt256 → Int → UInt256
  /-- `CBudgetVote::CheckSignature` -/
  checkBudgetVote : CBudgetVote → Bool
  /-- `CFinalizedBudgetVote::CheckSignature` -/
  checkFinalizedBudgetVote : CFinalizedBudgetVote → Bool

/-- What the handlers read of a vote. -/
structure VoteKind (Vote : Type) where
  getHash : Vote → UInt256
  prevout : Vote → COutPoint
  subject : Vote → UInt256
  nTime : Vote → Int
  checkSignature : Vote → Bool

namespace BudgetEnv

def mvote (env : BudgetEnv) : VoteKind CBudgetVote where
  getHash vote := env.budgetVoteHash vote.vin vote.nProposalHash vote.nVote vote.nTime
  prevout vote := vote.vin.prevout
  subject vote := vote.nProposalHash
  nTime vote := vote.nTime
  checkSignature vote := env.checkBudgetVote vote

def fbvote (env : BudgetEnv) : VoteKind CFinalizedBudgetVote where
  getHash vote := env.finalizedBudgetVoteHash vote.vin vote.nBudgetHash vote.nTime
  prevout vote := vote.vin.prevout
  subject vote := vote.nBudgetHash
  nTime vote := vote.nTime
  checkSignature vote := env.checkFinalizedBudgetVote vote

end BudgetEnv

/-- A proposal or a finalized budget as it is received, with what `IsBudgetCollateralValid`
and `IsValid` say about it. -/
structure BudgetItem where
  hash : UInt256
  isCollateralValid : Bool
  isValid : Bool
  deriving DecidableEq

/-- The maps of the budget manager for one kind of votes: the votes and the items seen,
the orphans, and the votes of every item that is known. An orphan is kept under what it
votes on. -/
structure VoteBook {Vote : Type} (kind : VoteKind Vote) where
  seenVotes : UInt256 → Option Vote
  seenItems : UInt256 → Bool
  orphans : AList fun _ : UInt256 => Vote
  mapVotes : UInt256 → Option (UInt256 → Option Vote)
  keyed : ∀ key vote, orphans.lookup key = some vote → kind.subject vote = key

namespace VoteBook

variable (env : BudgetEnv) {Vote : Type} (kind : VoteKind Vote) (now : Int)

/-- `AddOrUpdateVote` of a proposal or a finalized budget. The times are of 64 bits, and their
difference wraps around. -/
def addOrUpdateVote (vote : Vote) (mapVotes : UInt256 → Option Vote) :
    Option (UInt256 → Option Vote) :=
  let hash := env.outPointHash (kind.prevout vote)
  let tooSoon := match mapVotes hash with
    | none => false
    | some previous =>
      decide (kind.nTime vote < kind.nTime previous) ||
        decide (subInt64 (kind.nTime vote) (kind.nTime previous) < budgetVoteUpdateMin)
  if tooSoon then none
  else if now + 60 * 60 < kind.nTime vote then none
  else some (Function.update mapVotes hash (some vote))

variable {kind} in
def addOrphan (book : VoteBook kind) (vote : Vote) : VoteBook kind :=
  { book with
    orphans := book.orphans.insert (kind.subject vote) vote
    keyed := KeyedMap.forall_insert rfl book.keyed }

variable {kind} in
def eraseOrphan (book : VoteBook kind) (hash : UInt256) : VoteBook kind :=
  { book with
    orphans := book.orphans.erase hash
    keyed := KeyedMap.forall_erase book.keyed }

variable {kind}

/-- `UpdateProposal` and `UpdateFinalizedBudget`, with the returned flag. Without a peer
the vote is one of the orphans. -/
def update (fromPeer : Bool) (vote : Vote) (book : VoteBook kind) : Bool × VoteBook kind :=
  match book.mapVotes (kind.subject vote) with
  | none => (false, if fromPeer && env.isSynced then book.addOrphan vote else book)
  | some mapVotes =>
    match addOrUpdateVote env kind now vote mapVotes with
    | none => (false, book)
    | some after =>
      (true, { book with
        mapVotes := Function.update book.mapVotes (kind.subject vote) (some after) })

def markSeen (book : VoteBook kind) (vote : Vote) : VoteBook kind :=
  { book with seenVotes := Function.update book.seenVotes (kind.getHash vote) (some vote) }

/-- The handler of `mvote` and `fbvote`, with whether the vote was counted. The vote is
recorded as seen before its signature is checked. -/
def processVote (vote : Vote) (book : VoteBook kind) : Bool × VoteBook kind :=
  if (book.seenVotes (kind.getHash vote)).isSome then (false, book)
  else if !env.find (kind.prevout vote) then (false, book)
  else if !kind.checkSignature vote then (false, book.markSeen vote)
  else (book.markSeen vote).update env now true vote

/-- One round of a loop of `CheckOrphanVotes`. -/
def checkOrphan (book : VoteBook kind) (orphan : Sigma fun _ : UInt256 => Vote) : VoteBook kind :=
  match book.update env now false orphan.2 with
  | (true, after) => after.eraseOrphan orphan.1
  | (false, after) => after

/-- The loop of `CheckOrphanVotes` for one kind of votes. -/
def checkOrphans (book : VoteBook kind) : VoteBook kind :=
  book.orphans.entries.foldl (checkOrphan env now) book

/-- The handler of `mprop` and `fbs` up to its call of `CheckOrphanVotes`, with whether it
comes to that. An item with a collateral that is not valid yet is left to `NewBlock`. -/
def processItem (item : BudgetItem) (book : VoteBook kind) : Bool × VoteBook kind :=
  if book.seenItems item.hash then (false, book)
  else if !item.isCollateralValid then (false, book)
  else
    let seen := { book with seenItems := Function.update book.seenItems item.hash true }
    if !item.isValid then (false, seen)
    else if (book.mapVotes item.hash).isSome then (true, seen)
    else
      (true, { seen with mapVotes := Function.update book.mapVotes item.hash (some fun _ => none) })

end VoteBook

/-- The maps of `CBudgetManager` that the messages change. -/
structure BudgetManager (env : BudgetEnv) where
  proposals : VoteBook env.mvote
  finalizedBudgets : VoteBook env.fbvote

/-- The messages of `CBudgetManager::ProcessMessage` that carry votes or what is voted
on. -/
inductive BudgetMessage where
  | mprop (proposal : BudgetItem)
  | mvote (vote : CBudgetVote)
  | fbs (finalizedBudget : BudgetItem)
  | fbvote (vote : CFinalizedBudgetVote)
  deriving DecidableEq

namespace BudgetManager

variable {env : BudgetEnv}

def checkOrphanVotes (now : Int) (manager : BudgetManager env) : BudgetManager env where
  proposals := manager.proposals.checkOrphans env now
  finalizedBudgets := manager.finalizedBudgets.checkOrphans env now

/-- `CBudgetManager::ProcessMessage`, at a time of `GetTime`. -/
def processMessage (manager : BudgetManager env) (message : Int × BudgetMessage) :
    BudgetManager env :=
  if env.fLiteMode || !env.isBlockchainSynced then manager
  else
    match message with
    | (now, .mprop item) =>
      let (accepted, proposals) := manager.proposals.processItem item
      let after := { manager with proposals }
      if accepted then after.checkOrphanVotes now else after
    | (now, .mvote vote) =>
      { manager with proposals := (manager.proposals.processVote env now vote).2 }
    | (now, .fbs item) =>
      let (accepted, finalizedBudgets) := manager.finalizedBudgets.processItem item
      let after := { manager with finalizedBudgets }
      if accepted then after.checkOrphanVotes now else after
    | (now, .fbvote vote) =>
      { manager with finalizedBudgets := (manager.finalizedBudgets.processVote env now vote).2 }

end BudgetManager

/-! ## What the handlers do to the votes of one item -/

namespace VoteBook

variable {env : BudgetEnv} {Vote : Type} {kind : VoteKind Vote} {now : Int}

def voter (env : BudgetEnv) (kind : VoteKind Vote) (vote : Vote) : UInt256 :=
  env.outPointHash (kind.prevout vote)

theorem addOrUpdateVote_of_none {vote : Vote} {votes : UInt256 → Option Vote}
    (absent : votes (voter env kind vote) = none) (past : kind.nTime vote ≤ now) :
    addOrUpdateVote env kind now vote votes =
      some (Function.update votes (voter env kind vote) (some vote)) := by
  unfold voter at absent
  simp only [addOrUpdateVote, absent, Bool.false_eq_true, ↓reduceIte]
  rw [if_neg (by omega)]
  rfl

theorem update_mapVotes (fromPeer : Bool) (vote : Vote) (book : VoteBook kind) (hash : UInt256) :
    (book.update env now fromPeer vote).2.mapVotes hash =
      if hash = kind.subject vote then
        (book.mapVotes hash).map fun votes => (addOrUpdateVote env kind now vote votes).getD votes
      else book.mapVotes hash := by
  unfold update
  by_cases same : hash = kind.subject vote
  · subst same
    rw [if_pos rfl]
    cases known : book.mapVotes (kind.subject vote) with
    | none =>
      split_ifs <;> exact known
    | some votes =>
      cases added : addOrUpdateVote env kind now vote votes with
      | none => simp only [known, map_some, added, Option.getD_none]
      | some after => simp [update_self, added]
  · rw [if_neg same]
    cases known : book.mapVotes (kind.subject vote) with
    | none =>
      split_ifs <;> rfl
    | some votes =>
      cases added : addOrUpdateVote env kind now vote votes with
      | none => simp only [added]
      | some after => simp only [added, update_of_ne same]

theorem checkOrphan_mapVotes (book : VoteBook kind) (orphan : Sigma fun _ : UInt256 => Vote)
    (hash : UInt256) :
    (book.checkOrphan env now orphan).mapVotes hash =
      (book.update env now false orphan.2).2.mapVotes hash := by
  unfold checkOrphan
  rcases book.update env now false orphan.2 with ⟨updated, -⟩
  cases updated with
  | true => rfl
  | false => rfl

theorem foldl_checkOrphan_mapVotes (orphans : List (Sigma fun _ : UInt256 => Vote))
    (nodup : orphans.NodupKeys) (keyed : ∀ orphan ∈ orphans, kind.subject orphan.2 = orphan.1)
    (book : VoteBook kind) (hash : UInt256) :
    (orphans.foldl (checkOrphan env now) book).mapVotes hash =
      match orphans.dlookup hash with
      | none => book.mapVotes hash
      | some vote => (book.mapVotes hash).map fun votes =>
        (addOrUpdateVote env kind now vote votes).getD votes := by
  induction orphans generalizing book with
  | nil => rfl
  | cons orphan rest ih =>
    obtain ⟨key, vote⟩ := orphan
    obtain ⟨absent, restNodup⟩ := List.nodupKeys_cons.mp nodup
    have here : kind.subject vote = key := keyed ⟨key, vote⟩ mem_cons_self
    rw [foldl_cons, ih restNodup fun other mem =>
      keyed other (mem_cons_of_mem _ mem), checkOrphan_mapVotes, update_mapVotes, here]
    by_cases same : hash = key
    · subst same
      rw [List.dlookup_eq_none.mpr absent, List.dlookup_cons_eq, if_pos rfl]
    · rw [List.dlookup_cons_ne _ _ same, if_neg same]

theorem checkOrphans_mapVotes (book : VoteBook kind) (hash : UInt256) :
    (book.checkOrphans env now).mapVotes hash =
      match book.orphans.lookup hash with
      | none => book.mapVotes hash
      | some vote => (book.mapVotes hash).map fun votes =>
        (addOrUpdateVote env kind now vote votes).getD votes := by
  apply foldl_checkOrphan_mapVotes book.orphans.entries book.orphans.nodupKeys
  intro orphan mem
  apply book.keyed
  exact (List.mem_dlookup_iff book.orphans.nodupKeys).mpr mem

theorem checkOrphan_seenVotes (book : VoteBook kind) (orphan : Sigma fun _ : UInt256 => Vote) :
    (book.checkOrphan env now orphan).seenVotes = book.seenVotes := by
  have kept : (book.update env now false orphan.2).2.seenVotes = book.seenVotes := by
    unfold update
    split
    · split_ifs <;> rfl
    · split <;> rfl
  unfold checkOrphan
  rcases updated : book.update env now false orphan.2 with ⟨ok, after⟩
  rw [updated] at kept
  cases ok with
  | true => exact kept
  | false => exact kept

theorem checkOrphans_seenVotes (book : VoteBook kind) :
    (book.checkOrphans env now).seenVotes = book.seenVotes := by
  unfold checkOrphans
  induction book.orphans.entries generalizing book with
  | nil => rfl
  | cons orphan rest ih => rw [foldl_cons, ih, checkOrphan_seenVotes]

theorem processVote_of_unseen (now : Int) {vote : Vote} {book : VoteBook kind}
    (unseen : book.seenVotes (kind.getHash vote) = none)
    (known : env.find (kind.prevout vote) = true) (signed : kind.checkSignature vote = true) :
    book.processVote env now vote = (book.markSeen vote).update env now true vote := by
  simp [processVote, unseen, known, signed]

end VoteBook

/-! ## Deliveries of an item and its votes -/

/-- Votes by distinct known masternodes for one item, with good signatures. -/
structure Ballots (env : BudgetEnv) {Vote : Type} (kind : VoteKind Vote) (hash : UInt256)
    (votes : List Vote) : Prop where
  subject : ∀ vote ∈ votes, kind.subject vote = hash
  known : ∀ vote ∈ votes, env.find (kind.prevout vote) = true
  signed : ∀ vote ∈ votes, kind.checkSignature vote = true
  distinctVoters : (votes.map (VoteBook.voter env kind)).Nodup
  distinctHashes : (votes.map kind.getHash).Nodup

namespace Ballots

variable {env : BudgetEnv} {Vote : Type} {kind : VoteKind Vote} {hash : UInt256}

variable {votes others : List Vote}

theorem sublist (part : others.Sublist votes) (ballots : Ballots env kind hash votes) :
    Ballots env kind hash others where
  subject vote mem := ballots.subject vote (part.subset mem)
  known vote mem := ballots.known vote (part.subset mem)
  signed vote mem := ballots.signed vote (part.subset mem)
  distinctVoters := ballots.distinctVoters.sublist (part.map _)
  distinctHashes := ballots.distinctHashes.sublist (part.map _)

theorem perm (same : votes.Perm others) (ballots : Ballots env kind hash votes) :
    Ballots env kind hash others where
  subject vote mem := ballots.subject vote (same.mem_iff.mpr mem)
  known vote mem := ballots.known vote (same.mem_iff.mpr mem)
  signed vote mem := ballots.signed vote (same.mem_iff.mpr mem)
  distinctVoters := (same.map _).nodup_iff.mp ballots.distinctVoters
  distinctHashes := (same.map _).nodup_iff.mp ballots.distinctHashes

end Ballots

namespace VoteBook

variable {env : BudgetEnv} {Vote : Type} {kind : VoteKind Vote} {hash : UInt256}

def Unseen (book : VoteBook kind) (votes : List Vote) : Prop :=
  ∀ vote ∈ votes, book.seenVotes (kind.getHash vote) = none

def deliver (env : BudgetEnv) (votes : List (Int × Vote)) (book : VoteBook kind) : VoteBook kind :=
  votes.foldl (fun book timed => (book.processVote env timed.1 timed.2).2) book

variable {book : VoteBook kind} {item : BudgetItem}

theorem unseen_markSeen {vote : Vote} {rest : List Vote}
    (distinct : ((vote :: rest).map kind.getHash).Nodup) (unseen : book.Unseen (vote :: rest)) :
    (book.markSeen vote).Unseen rest := by
  intro other mem
  have ne : kind.getHash other ≠ kind.getHash vote := by
    intro same
    apply (nodup_cons.mp distinct).1
    exact mem_map.mpr ⟨other, mem, same⟩
  simp only [markSeen, update_of_ne ne]
  exact unseen other (mem_cons_of_mem _ mem)

/-- Before the item is known the last vote waits for it and the others are lost. -/
theorem deliver_early (synced : env.isSynced = true) (early : List (Int × Vote))
    (late : List Vote) (book : VoteBook kind)
    (ballots : Ballots env kind hash (early.map snd ++ late))
    (unseen : book.Unseen (early.map snd ++ late)) (unknown : book.mapVotes hash = none) :
    (deliver env early book).mapVotes hash = none ∧
      (deliver env early book).seenItems = book.seenItems ∧
      (deliver env early book).Unseen late ∧
      (deliver env early book).orphans.lookup hash =
        ((early.map snd).getLast?).or (book.orphans.lookup hash) := by
  induction early generalizing book with
  | nil => exact ⟨unknown, rfl, unseen, rfl⟩
  | cons timed rest ih =>
    obtain ⟨now, vote⟩ := timed
    have mem : vote ∈ ((now, vote) :: rest).map snd ++ late := by simp
    have named := ballots.subject vote mem
    have stepped : (book.processVote env now vote).2 = (book.markSeen vote).addOrphan vote := by
      have still : (book.markSeen vote).mapVotes (kind.subject vote) = none := by
        rw [named]
        exact unknown
      rw [processVote_of_unseen now (unseen vote mem) (ballots.known vote mem)
        (ballots.signed vote mem), update, still]
      simp [synced]
    have waiting : ((book.markSeen vote).addOrphan vote).Unseen (rest.map snd ++ late) :=
      unseen_markSeen ballots.distinctHashes unseen
    obtain ⟨unknownLater, items, unseenLater, orphan⟩ :=
      ih ((book.markSeen vote).addOrphan vote) (ballots.sublist (List.sublist_cons_self _ _))
        waiting unknown
    have split : deliver env ((now, vote) :: rest) book =
        deliver env rest ((book.markSeen vote).addOrphan vote) := by
      rw [← stepped]
      rfl
    rw [split]
    refine ⟨unknownLater, items, unseenLater, ?_⟩
    have held : ((book.markSeen vote).addOrphan vote).orphans.lookup hash = some vote := by
      rw [← named]
      exact AList.lookup_insert _
    rw [orphan, held, map_cons, List.getLast?_cons]
    cases (rest.map snd).getLast? with
    | none => rfl
    | some last => rfl

/-- Once the item is known every vote is held, and no other entry changes. -/
theorem deliver_late (late : List (Int × Vote)) (book : VoteBook kind)
    (ballots : Ballots env kind hash (late.map snd))
    (unseen : book.Unseen (late.map snd))
    (past : ∀ timed ∈ late, kind.nTime timed.2 ≤ timed.1) {votes : UInt256 → Option Vote}
    (known : book.mapVotes hash = some votes)
    (absent : ∀ vote ∈ late.map snd, votes (voter env kind vote) = none) :
    ∃ after, (deliver env late book).mapVotes hash = some after ∧
      (∀ vote ∈ late.map snd, after (voter env kind vote) = some vote) ∧
      ∀ key, key ∉ (late.map snd).map (voter env kind) → after key = votes key := by
  induction late generalizing book votes with
  | nil => exact ⟨votes, known, by simp, fun _ _ => rfl⟩
  | cons timed rest ih =>
    obtain ⟨now, vote⟩ := timed
    have mem : vote ∈ ((now, vote) :: rest).map snd := by simp
    have named := ballots.subject vote mem
    have others : voter env kind vote ∉ (rest.map snd).map (voter env kind) :=
      (nodup_cons.mp ballots.distinctVoters).1
    have added : addOrUpdateVote env kind now vote votes =
        some (Function.update votes (voter env kind vote) (some vote)) :=
      addOrUpdateVote_of_none (absent vote mem) (past (now, vote) mem_cons_self)
    have processed := processVote_of_unseen now (unseen vote mem)
      (ballots.known vote mem) (ballots.signed vote mem)
    have present : (book.markSeen vote).mapVotes hash = some votes := known
    have knownNext : (book.processVote env now vote).2.mapVotes hash =
        some (Function.update votes (voter env kind vote) (some vote)) := by
      rw [processed, update_mapVotes, if_pos named.symm, present, map_some, added, getD_some]
    have seenNext : (book.processVote env now vote).2.seenVotes =
        (book.markSeen vote).seenVotes := by
      rw [processed, update, named, present]
      simp only [added]
    have unseenNext : (book.processVote env now vote).2.Unseen (rest.map snd) := by
      intro other inside
      rw [seenNext]
      exact unseen_markSeen ballots.distinctHashes unseen other inside
    obtain ⟨after, final, heldLater, kept⟩ := ih (book.processVote env now vote).2
      (ballots.sublist (List.sublist_cons_self _ _)) unseenNext
      (fun other inside => past other (mem_cons_of_mem _ inside)) knownNext (by
        intro other inside
        have ne : voter env kind other ≠ voter env kind vote := by
          intro same
          exact others (mem_map.mpr ⟨other, inside, same⟩)
        rw [update_of_ne ne]
        exact absent other (mem_cons_of_mem _ inside))
    refine ⟨after, final, ?_, ?_⟩
    · intro other inside
      rcases mem_cons.mp inside with rfl | later
      · rw [kept _ others, update_self]
      · exact heldLater other later
    · intro key outside
      simp only [map_cons, mem_cons, not_or] at outside
      rw [kept key outside.2, update_of_ne outside.1]

/-- The handler of `mprop` and `fbs` as far as it changes the book of its kind. -/
def receiveItem (env : BudgetEnv) (now : Int) (item : BudgetItem) (book : VoteBook kind) :
    VoteBook kind :=
  if (book.processItem item).1 then (book.processItem item).2.checkOrphans env now
  else (book.processItem item).2

/-- A good item that was not heard of takes up the orphan that waits for it. -/
theorem receiveItem_of_unknown (env : BudgetEnv) (now : Int)
    (collateral : item.isCollateralValid = true) (valid : item.isValid = true)
    (unheard : book.seenItems item.hash = false) (unknown : book.mapVotes item.hash = none) :
    (book.receiveItem env now item).seenVotes = book.seenVotes ∧
      (book.receiveItem env now item).mapVotes item.hash =
        match book.orphans.lookup item.hash with
        | none => some fun _ => none
        | some vote => some ((addOrUpdateVote env kind now vote fun _ => none).getD
            fun _ => none) := by
  have processed : book.processItem item = (true, { book with
      seenItems := Function.update book.seenItems item.hash true
      mapVotes := Function.update book.mapVotes item.hash (some fun _ => none) }) := by
    simp [processItem, unheard, collateral, valid, unknown]
  rw [receiveItem, processed, if_pos rfl]
  refine ⟨checkOrphans_seenVotes _, ?_⟩
  rw [checkOrphans_mapVotes]
  simp [update_self]

def VotesHeld (env : BudgetEnv) (book : VoteBook kind) (hash : UInt256) (votes : List Vote) :
    Prop :=
  ∃ mapVotes, book.mapVotes hash = some mapVotes ∧
    ∀ vote ∈ votes, mapVotes (voter env kind vote) = some vote

/-- A book that has not heard of an item or of the votes for it. -/
structure Campaign (env : BudgetEnv) (book : VoteBook kind) (item : BudgetItem)
    (votes : List Vote) : Prop where
  collateral : item.isCollateralValid = true
  valid : item.isValid = true
  ballots : Ballots env kind item.hash votes
  unheard : book.seenItems item.hash = false
  unknown : book.mapVotes item.hash = none
  noOrphan : book.orphans.lookup item.hash = none
  unseen : book.Unseen votes

def taken (env : BudgetEnv) (kind : VoteKind Vote) : Option Vote → UInt256 → Option Vote
  | none => fun _ => none
  | some last => Function.update (fun _ => none) (voter env kind last) (some last)

theorem taken_of_ne {last : Option Vote} {key : UInt256}
    (other : ∀ vote ∈ last, voter env kind vote ≠ key) : taken env kind last key = none := by
  cases last with
  | none => rfl
  | some vote => rw [taken, update_of_ne (other vote rfl).symm]

theorem receiveItem_early (synced : env.isSynced = true) {early : List (Int × Vote)}
    {late : List Vote} (now : Int) (campaign : Campaign env book item (early.map snd ++ late))
    (past : ∀ timed ∈ early, kind.nTime timed.2 ≤ now) :
    ((deliver env early book).receiveItem env now item).Unseen late ∧
      ((deliver env early book).receiveItem env now item).mapVotes item.hash =
        some (taken env kind (early.map snd).getLast?) := by
  obtain ⟨unknown, items, unseenLate, orphan⟩ := deliver_early synced early late book
    campaign.ballots campaign.unseen campaign.unknown
  rw [campaign.noOrphan, Option.or_none] at orphan
  have unheard : (deliver env early book).seenItems item.hash = false := by
    rw [items]
    exact campaign.unheard
  obtain ⟨seen, votes⟩ := receiveItem_of_unknown env now campaign.collateral
    campaign.valid unheard unknown
  refine ⟨fun vote mem => by rw [seen]; exact unseenLate vote mem, ?_⟩
  rw [votes, orphan]
  cases last : (early.map snd).getLast? with
  | none => rfl
  | some vote =>
    obtain ⟨timed, mem, rfl⟩ := mem_map.mp (List.mem_of_getLast? last)
    have added : addOrUpdateVote env kind now timed.2 (fun _ => none) =
        some (Function.update (fun _ => none) (voter env kind timed.2) (some timed.2)) :=
      addOrUpdateVote_of_none rfl (past timed mem)
    simp [added, taken]

theorem votesHeld_deliveries (synced : env.isSynced = true) {early late : List (Int × Vote)}
    (now : Int) (campaign : Campaign env book item (early.map snd ++ late.map snd))
    (pastItem : ∀ timed ∈ early, kind.nTime timed.2 ≤ now)
    (past : ∀ timed ∈ late, kind.nTime timed.2 ≤ timed.1) :
    VotesHeld env (deliver env late ((deliver env early book).receiveItem env now item)) item.hash
        (early.map snd ++ late.map snd) ↔ early.length ≤ 1 := by
  obtain ⟨unseenLate, known⟩ := receiveItem_early synced now campaign pastItem
  have voters := campaign.ballots.distinctVoters
  rw [map_append] at voters
  obtain ⟨earlyVoters, -, apart⟩ := List.nodup_append.mp voters
  have absent : ∀ vote ∈ late.map snd,
      taken env kind (early.map snd).getLast? (voter env kind vote) = none := by
    intro vote mem
    apply taken_of_ne
    intro last held
    exact apart _ (mem_map_of_mem (List.mem_of_getLast? held)) _
      (mem_map_of_mem mem)
  obtain ⟨after, final, heldLate, kept⟩ := deliver_late late
    ((deliver env early book).receiveItem env now item)
    (campaign.ballots.sublist (List.sublist_append_right _ _)) unseenLate past known absent
  have keptEarly : ∀ vote ∈ early.map snd, after (voter env kind vote) =
      taken env kind (early.map snd).getLast? (voter env kind vote) := by
    intro vote mem
    apply kept
    intro inside
    exact apart _ (mem_map_of_mem mem) _ inside rfl
  constructor
  · rintro ⟨votes, here, held⟩
    rw [final, Option.some.injEq] at here
    subst here
    -- The first of two early votes is not the last, so it is not held.
    match early with
    | [] => exact Nat.zero_le 1
    | [_] => exact Nat.le_refl 1
    | first :: second :: rest =>
      have mem : first.2 ∈ (first :: second :: rest).map snd := mem_cons_self
      have missing : taken env kind ((first :: second :: rest).map snd).getLast?
          (voter env kind first.2) = none := by
        apply taken_of_ne
        intro last isLast same
        apply (nodup_cons.mp earlyVoters).1
        exact mem_map.mpr ⟨last, List.mem_of_getLast? isLast, same⟩
      have present := held first.2 (List.mem_append_left _ mem)
      rw [keptEarly first.2 mem, missing] at present
      cases present
  · intro few
    refine ⟨after, final, fun vote mem => ?_⟩
    rcases List.mem_append.mp mem with inEarly | inLate
    · rw [keptEarly vote inEarly]
      match early with
      | [] => cases inEarly
      | [timed] =>
        cases List.mem_singleton.mp inEarly
        simp [taken, update_self]
      | _ :: _ :: _ => exact absurd few (by simp)
    · exact heldLate vote inLate

end VoteBook

/-! ## Messages in any order -/

section Deliveries

variable {Message Vote : Type} {wrap : Vote → Message} {announcement : Message}

theorem exists_timed (messages : List (Int × Message))
    (wrapped : ∀ message ∈ messages, ∃ vote, wrap vote = message.2) :
    ∃ votes : List (Int × Vote), messages = votes.map fun timed => (timed.1, wrap timed.2) := by
  induction messages with
  | nil => exact ⟨[], rfl⟩
  | cons message rest ih =>
    obtain ⟨vote, same⟩ := wrapped message mem_cons_self
    obtain ⟨votes, split⟩ := ih fun other mem => wrapped other (mem_cons_of_mem _ mem)
    refine ⟨(message.1, vote) :: votes, ?_⟩
    rw [map_cons, ← split, same]

variable {votes : List Vote} {messages : List (Int × Message)}

theorem exists_deliveries (injective : Function.Injective wrap)
    (distinct : ∀ vote, wrap vote ≠ announcement)
    (delivered : (messages.map snd).Perm (announcement :: votes.map wrap)) :
    ∃ early late : List (Int × Vote), ∃ now,
      messages = early.map (fun timed => (timed.1, wrap timed.2)) ++
        (now, announcement) :: late.map (fun timed => (timed.1, wrap timed.2)) ∧
      votes.Perm (early.map snd ++ late.map snd) := by
  have present : announcement ∈ messages.map snd := delivered.mem_iff.mpr mem_cons_self
  obtain ⟨⟨now, other⟩, mem, rfl⟩ := mem_map.mp present
  obtain ⟨before, after, rfl⟩ := List.append_of_mem mem
  have rest : (before.map snd ++ after.map snd).Perm (votes.map wrap) := by
    rw [map_append, map_cons] at delivered
    exact (List.perm_middle.symm.trans delivered).cons_inv
  have wrapped : ∀ message ∈ before ++ after, ∃ vote, wrap vote = message.2 := by
    intro message inside
    rw [← map_append] at rest
    obtain ⟨vote, -, same⟩ := mem_map.mp (rest.mem_iff.mp (mem_map_of_mem inside))
    exact ⟨vote, same⟩
  obtain ⟨early, rfl⟩ := exists_timed before fun message inside =>
    wrapped message (List.mem_append_left _ inside)
  obtain ⟨late, rfl⟩ := exists_timed after fun message inside =>
    wrapped message (List.mem_append_right _ inside)
  refine ⟨early, late, now, rfl, ?_⟩
  rw [map_map, map_map, ← map_append] at rest
  have same : (early ++ late).map (snd ∘ fun timed : Int × Vote => (timed.1, wrap timed.2)) =
      ((early ++ late).map snd).map wrap := by
    rw [map_map]
    rfl
  rw [same] at rest
  rw [← map_append]
  exact ((List.map_perm_map_iff injective).mp rest).symm

def earlyVotes [DecidableEq Message] (announcement : Message) (messages : List (Int × Message)) :
    List (Int × Message) :=
  messages.takeWhile fun message => message.2 ≠ announcement

variable {env : BudgetEnv} {kind : VoteKind Vote} {State : Type}
  {process : State → Int × Message → State} {book : State → VoteBook kind} {item : BudgetItem}

/-- Where messages act on a book as the handlers of its kind do, no vote is lost exactly if
at most one is early. -/
theorem votesHeld_messages [DecidableEq Message] (synced : env.isSynced = true)
    (injective : Function.Injective wrap) (distinct : ∀ vote, wrap vote ≠ announcement)
    (voteStep : ∀ state now vote,
      book (process state (now, wrap vote)) = ((book state).processVote env now vote).2)
    (itemStep : ∀ state now,
      book (process state (now, announcement)) = (book state).receiveItem env now item)
    {state : State} (campaign : (book state).Campaign env item votes)
    (delivered : (messages.map snd).Perm (announcement :: votes.map wrap))
    (past : ∀ message ∈ messages, ∀ vote ∈ votes, kind.nTime vote ≤ message.1) :
    (book (messages.foldl process state)).VotesHeld env item.hash votes ↔
      (earlyVotes announcement messages).length ≤ 1 := by
  obtain ⟨early, late, now, rfl, perm⟩ := exists_deliveries injective distinct delivered
  have votesRun : ∀ (timed : List (Int × Vote)) (start : State),
      book ((timed.map fun timed => (timed.1, wrap timed.2)).foldl process start) =
        VoteBook.deliver env timed (book start) := by
    intro timed
    induction timed with
    | nil => exact fun start => rfl
    | cons first rest ih =>
      intro start
      rw [map_cons, foldl_cons, ih, voteStep]
      rfl
  have counted : (earlyVotes announcement (early.map (fun timed => (timed.1, wrap timed.2)) ++
      (now, announcement) :: late.map fun timed => (timed.1, wrap timed.2))).length =
      early.length := by
    rw [earlyVotes, List.takeWhile_append_of_pos]
    · simp
    · intro message mem
      obtain ⟨timed, -, rfl⟩ := mem_map.mp mem
      exact decide_eq_true (distinct timed.2)
  have inside : ∀ timed ∈ early ++ late, timed.2 ∈ votes := by
    intro timed mem
    rw [perm.mem_iff, ← map_append]
    exact mem_map_of_mem mem
  have split : (book state).Campaign env item (early.map snd ++ late.map snd) :=
    { campaign with
      ballots := campaign.ballots.perm perm
      unseen := fun vote mem => campaign.unseen vote (perm.mem_iff.mpr mem) }
  have held := VoteBook.votesHeld_deliveries synced now split
    (fun timed mem => past (now, announcement) (by simp) timed.2
      (inside timed (List.mem_append_left _ mem)))
    (fun timed mem => past (timed.1, wrap timed.2) (by
        rw [List.mem_append, mem_cons]
        exact .inr (.inr (mem_map.mpr ⟨timed, mem, rfl⟩)))
      timed.2 (inside timed (List.mem_append_right _ mem)))
  rw [counted, ← held, List.foldl_append, foldl_cons, votesRun, itemStep, votesRun]
  apply exists_congr
  intro mapVotes
  apply and_congr_right
  intro _
  simp only [perm.mem_iff]

end Deliveries

namespace BudgetManager

variable {env : BudgetEnv}

/-- A node on which the messages are processed. -/
structure Ready (env : BudgetEnv) : Prop where
  fullMode : env.fLiteMode = false
  blockchain : env.isBlockchainSynced = true
  synced : env.isSynced = true

/-- **No vote is lost to the order of messages**, for proposals and for finalized budgets,
exactly if at most one vote comes before what it votes on. -/
theorem votesHeld_iff (ready : Ready env) (manager : BudgetManager env) :
    (∀ (proposal : BudgetItem) (votes : List CBudgetVote) (messages : List (Int × BudgetMessage)),
      manager.proposals.Campaign env proposal votes →
      (messages.map snd).Perm (.mprop proposal :: votes.map .mvote) →
      (∀ message ∈ messages, ∀ vote ∈ votes, vote.nTime ≤ message.1) →
      ((messages.foldl processMessage manager).proposals.VotesHeld env proposal.hash votes ↔
        (earlyVotes (.mprop proposal) messages).length ≤ 1)) ∧
    (∀ (finalizedBudget : BudgetItem) (votes : List CFinalizedBudgetVote)
        (messages : List (Int × BudgetMessage)),
      manager.finalizedBudgets.Campaign env finalizedBudget votes →
      (messages.map snd).Perm (.fbs finalizedBudget :: votes.map .fbvote) →
      (∀ message ∈ messages, ∀ vote ∈ votes, vote.nTime ≤ message.1) →
      ((messages.foldl processMessage manager).finalizedBudgets.VotesHeld env finalizedBudget.hash
          votes ↔ (earlyVotes (.fbs finalizedBudget) messages).length ≤ 1)) := by
  have enabled : (env.fLiteMode || !env.isBlockchainSynced) = false := by
    rw [ready.fullMode, ready.blockchain]
    rfl
  constructor
  · intro proposal votes messages campaign delivered past
    apply votesHeld_messages ready.synced ?_ ?_ ?_ ?_ campaign delivered past
    · intro first second same
      exact BudgetMessage.mvote.inj same
    · intro vote same
      cases same
    · intro state now vote
      simp [processMessage, enabled]
    · intro state now
      simp only [processMessage, enabled, Bool.false_eq_true, ↓reduceIte, VoteBook.receiveItem]
      split_ifs <;> rfl
  · intro finalizedBudget votes messages campaign delivered past
    apply votesHeld_messages ready.synced ?_ ?_ ?_ ?_ campaign delivered past
    · intro first second same
      exact BudgetMessage.fbvote.inj same
    · intro vote same
      cases same
    · intro state now vote
      simp [processMessage, enabled]
    · intro state now
      simp only [processMessage, enabled, Bool.false_eq_true, ↓reduceIte, VoteBook.receiveItem]
      split_ifs <;> rfl

/-- A synced node that knows every masternode. -/
def sampleEnv : BudgetEnv where
  fLiteMode := false
  isBlockchainSynced := true
  isSynced := true
  find _ := true
  outPointHash out := out.hash + BitVec.ofNat 256 out.n.toNat
  budgetVoteHash vin nProposalHash nVote nTime :=
    vin.prevout.hash + nProposalHash + BitVec.ofInt 256 (nVote + nTime)
  finalizedBudgetVoteHash vin nBudgetHash nTime :=
    vin.prevout.hash + nBudgetHash + BitVec.ofInt 256 nTime
  checkBudgetVote _ := true
  checkFinalizedBudgetVote _ := true

def empty : BudgetManager sampleEnv where
  proposals := ⟨fun _ => none, fun _ => false, ∅, fun _ => none, fun _ _ held => by cases held⟩
  finalizedBudgets :=
    ⟨fun _ => none, fun _ => false, ∅, fun _ => none, fun _ _ held => by cases held⟩

def sampleProposal : BudgetItem := ⟨500, true, true⟩

def sampleVotes : List CBudgetVote :=
  [⟨⟨⟨1, 0⟩, [], 0xffffffff⟩, 500, 1, 1600000000, [], 1⟩,
   ⟨⟨⟨2, 0⟩, [], 0xffffffff⟩, 500, 1, 1600000000, [], 1⟩]

theorem campaign_sample : empty.proposals.Campaign sampleEnv sampleProposal sampleVotes where
  collateral := rfl
  valid := rfl
  ballots :=
    { subject := by decide
      known := by decide
      signed := by decide
      distinctVoters := by decide
      distinctHashes := by decide }
  unheard := rfl
  unknown := rfl
  noOrphan := rfl
  unseen _ _ := rfl

theorem votesHeld_one_early :
    ([(1600000000, .mvote sampleVotes[0]), (1600000000, .mprop sampleProposal),
      (1600000000, .mvote sampleVotes[1])].foldl processMessage empty).proposals.VotesHeld
        sampleEnv 500 sampleVotes := by
  apply ((votesHeld_iff ⟨rfl, rfl, rfl⟩ empty).1 sampleProposal sampleVotes _ campaign_sample
    (by decide) (by decide)).mpr
  decide

/-- With both votes ahead of the proposal the first one is lost. -/
theorem not_votesHeld_two_early :
    ([BudgetMessage.mvote sampleVotes[0], .mvote sampleVotes[1], .mprop sampleProposal].Perm
        (.mprop sampleProposal :: sampleVotes.map .mvote)) ∧
      ¬([(1600000000, .mvote sampleVotes[0]), (1600000000, .mvote sampleVotes[1]),
        (1600000000, .mprop sampleProposal)].foldl processMessage empty).proposals.VotesHeld
          sampleEnv 500 sampleVotes := by
  refine ⟨by decide, ?_⟩
  rintro ⟨mapVotes, known, held⟩
  have missing : (([(1600000000, .mvote sampleVotes[0]), (1600000000, .mvote sampleVotes[1]),
      (1600000000, .mprop sampleProposal)].foldl processMessage empty).proposals.mapVotes 500).map
        (fun votes => votes 1) = some none := by
    decide
  have first : mapVotes 1 = some sampleVotes[0] := held sampleVotes[0] mem_cons_self
  rw [known, map_some, first] at missing
  cases missing

end BudgetManager

end DogeCash
