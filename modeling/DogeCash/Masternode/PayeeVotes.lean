import DogeCash.Foundation.Run
import DogeCash.Masternode.ForgedVotes

/-! # Counting the votes for payees

`mapMasternodePayeeVotes` holds the votes for payees, and `mapMasternodeBlocks` counts them
by height and payee. The two agree in every run. A masternode can still have two votes for
one height: `CanVote` remembers only the height of its last vote, and
`AddWinningMasternode` does not look for another vote of the masternode at all.
-/

namespace DogeCash

open MasternodePayments (addPayee admitted_of_counted)

/-- The tables of `CMasternodePayments` with the votes in the order of their map. -/
structure PaymentTables where
  mapMasternodePayeeVotes : AList fun _ : UInt256 => CMasternodePaymentWinner
  mapMasternodesLastVote : UInt256 → Option Int
  mapMasternodeBlocks : Int → Option (List (CScript × Int))

/-- What changes the tables, with what the rest of the node says at that time. -/
inductive PaymentAction where
  | mnw (env : PaymentEnv) (nVersion : Int) (winner : CMasternodePaymentWinner)
  | addWinningMasternode (env : PaymentEnv) (winner : CMasternodePaymentWinner)
  | cleanPaymentList (tipHeight : Option Int) (masternodes : Int)
  | clear

namespace PaymentTables

def initial : PaymentTables := ⟨∅, fun _ => none, fun _ => none⟩

def maps (tables : PaymentTables) : MasternodePayments :=
  ⟨tables.mapMasternodePayeeVotes.lookup, tables.mapMasternodesLastVote, tables.mapMasternodeBlocks⟩

/-- The tables after a handler, which stores its vote if it counts it. -/
def store (env : PaymentEnv) (winner : CMasternodePaymentWinner) (tables : PaymentTables)
    (outcome : Bool × MasternodePayments) : PaymentTables where
  mapMasternodePayeeVotes :=
    if outcome.1 then tables.mapMasternodePayeeVotes.insert (winner.getHash env) winner
    else tables.mapMasternodePayeeVotes
  mapMasternodesLastVote := outcome.2.mapMasternodesLastVote
  mapMasternodeBlocks := outcome.2.mapMasternodeBlocks

/-- `CMasternodePayments::Clear`, which keeps the last votes. -/
def clear (tables : PaymentTables) : PaymentTables :=
  { tables with mapMasternodePayeeVotes := ∅, mapMasternodeBlocks := fun _ => none }

def isOld (nHeight masternodes : Int) (winner : CMasternodePaymentWinner) : Bool :=
  max (Int.tdiv (masternodes * 5) 4) 1000 < nHeight - winner.nBlockHeight

/-- One round of the loop of `CleanPaymentList`. -/
def cleanVote (nHeight masternodes : Int) (tables : PaymentTables)
    (entry : Sigma fun _ : UInt256 => CMasternodePaymentWinner) : PaymentTables :=
  if isOld nHeight masternodes entry.2 then
    { tables with
      mapMasternodePayeeVotes := tables.mapMasternodePayeeVotes.erase entry.1
      mapMasternodeBlocks := Function.update tables.mapMasternodeBlocks entry.2.nBlockHeight none }
  else tables

def cleanPaymentList (tipHeight : Option Int) (masternodes : Int) (tables : PaymentTables) :
    PaymentTables :=
  match tipHeight with
  | none => tables
  | some nHeight =>
    tables.mapMasternodePayeeVotes.entries.foldl (cleanVote nHeight masternodes) tables

/-- Perform an action. All votes are hashed alike. -/
def step (winnerHash : CScript → Int → COutPoint → UInt256) :
    PaymentAction → PaymentTables → PaymentTables
  | .mnw env nVersion winner, tables =>
    let env := { env with winnerHash }
    tables.store env winner (tables.maps.processWinner env nVersion winner)
  | .addWinningMasternode env winner, tables =>
    let env := { env with winnerHash }
    tables.store env winner (tables.maps.addWinningMasternode env winner)
  | .cleanPaymentList tipHeight masternodes, tables => tables.cleanPaymentList tipHeight masternodes
  | .clear, tables => tables.clear

/-- The `nVotes` of a payee in a list of payees. -/
def votesFor (payee : CScript) : List (CScript × Int) → Int
  | [] => 0
  | (other, nVotes) :: rest => if other = payee then nVotes else votesFor payee rest

/-- The `nVotes` of a payee at a height. -/
def nVotes (tables : PaymentTables) (nBlockHeight : Int) (payee : CScript) : Int :=
  votesFor payee ((tables.mapMasternodeBlocks nBlockHeight).getD [])

def countVotes (tables : PaymentTables) (nBlockHeight : Int) (payee : CScript) : ℕ :=
  tables.mapMasternodePayeeVotes.entries.countP fun entry =>
    entry.2.nBlockHeight = nBlockHeight && entry.2.payee = payee

/-- Each payee is listed once, with as many votes as are counted for it. -/
def Counted (tables : PaymentTables) : Prop :=
  ∀ nBlockHeight,
    (((tables.mapMasternodeBlocks nBlockHeight).getD []).map Prod.fst).Nodup ∧
      ∀ payee, tables.nVotes nBlockHeight payee = tables.countVotes nBlockHeight payee

/-- Two votes of one masternode for one height. -/
def SameBallot (first second : CMasternodePaymentWinner) : Prop :=
  first.vinMasternode.prevout = second.vinMasternode.prevout ∧
    first.nBlockHeight = second.nBlockHeight

instance (first second : CMasternodePaymentWinner) : Decidable (SameBallot first second) :=
  inferInstanceAs (Decidable (_ ∧ _))

def OneVoteEach (tables : PaymentTables) : Prop :=
  tables.mapMasternodePayeeVotes.entries.Pairwise fun first second => ¬SameBallot first.2 second.2

def HasVoted (tables : PaymentTables) (winner : CMasternodePaymentWinner) : Prop :=
  ∃ entry ∈ tables.mapMasternodePayeeVotes.entries, SameBallot winner entry.2

/-- `AddWinningMasternode` takes a vote. -/
def Takes (env : PaymentEnv) (winner : CMasternodePaymentWinner) (tables : PaymentTables) : Prop :=
  env.hasBlockHash (winner.nBlockHeight - 100) = true ∧
    tables.mapMasternodePayeeVotes.lookup (winner.getHash env) = none

/-- The handler of `mnw` takes a vote: it passes the checks and the guard of `CanVote`, and
has a good signature. -/
def TakesFromPeer (env : PaymentEnv) (nVersion : Int) (winner : CMasternodePaymentWinner)
    (tables : PaymentTables) : Prop :=
  (∃ nHeight, MasternodePayments.Admitted env tables.maps nVersion winner nHeight) ∧
    env.checkSignature winner = true ∧ Takes env winner tables

/-- An action takes a vote while another one of the same masternode for the same height is
stored. -/
def TakesSecondVote (winnerHash : CScript → Int → COutPoint → UInt256) (tables : PaymentTables) :
    PaymentAction → Prop
  | .mnw env nVersion winner =>
    TakesFromPeer { env with winnerHash } nVersion winner tables ∧ tables.HasVoted winner
  | .addWinningMasternode env winner =>
    Takes { env with winnerHash } winner tables ∧ tables.HasVoted winner
  | .cleanPaymentList _ _ => False
  | .clear => False

/-! ## What one action does -/

variable {tables after : PaymentTables} {winner : CMasternodePaymentWinner}

/-- The votes and their counts are left alone. -/
structure Kept (tables after : PaymentTables) : Prop where
  votes : after.mapMasternodePayeeVotes = tables.mapMasternodePayeeVotes
  blocks : after.mapMasternodeBlocks = tables.mapMasternodeBlocks

/-- One vote is stored and counted. -/
structure Added (winner : CMasternodePaymentWinner) (tables after : PaymentTables) : Prop where
  votes : ∃ hash, after.mapMasternodePayeeVotes.entries =
    ⟨hash, winner⟩ :: tables.mapMasternodePayeeVotes.entries
  blocks : after.mapMasternodeBlocks =
    Function.update tables.mapMasternodeBlocks winner.nBlockHeight
      (some (addPayee winner.payee
        ((tables.mapMasternodeBlocks winner.nBlockHeight).getD [])))

/-- Storing what `AddWinningMasternode` returns in a state with the same votes. -/
theorem store_addWinningMasternode (env : PaymentEnv) (winner : CMasternodePaymentWinner)
    {state : MasternodePayments}
    (same : state.tally = tables.maps.tally) :
    (Takes env winner tables ∧
        Added winner tables (tables.store env winner (state.addWinningMasternode env winner))) ∨
      ¬Takes env winner tables ∧
        Kept tables (tables.store env winner (state.addWinningMasternode env winner)) := by
  have sameVotes : state.mapMasternodePayeeVotes = tables.mapMasternodePayeeVotes.lookup :=
    congrArg Prod.fst same
  have sameBlocks : state.mapMasternodeBlocks = tables.mapMasternodeBlocks := congrArg Prod.snd same
  by_cases takes : Takes env winner tables
  · obtain ⟨found, absent⟩ := takes
    refine Or.inl ⟨⟨found, absent⟩, ⟨winner.getHash env, ?_⟩, ?_⟩
    · simp only [store, MasternodePayments.addWinningMasternode, found, sameVotes, absent,
        Bool.not_true, Option.isSome_none, Bool.false_eq_true, ↓reduceIte]
      exact AList.entries_insert_of_notMem (AList.lookup_eq_none.mp absent)
    · simp only [store, MasternodePayments.addWinningMasternode, found, sameVotes, absent,
        sameBlocks, Bool.not_true, Option.isSome_none, Bool.false_eq_true, ↓reduceIte]
  · have refused : state.addWinningMasternode env winner = (false, state) := by
      unfold MasternodePayments.addWinningMasternode
      cases found : env.hasBlockHash (winner.nBlockHeight - 100) with
      | false => rfl
      | true =>
        have present : (tables.mapMasternodePayeeVotes.lookup (winner.getHash env)).isSome =
            true := by
          rw [Option.isSome_iff_ne_none]
          exact fun absent => takes ⟨found, absent⟩
        simp only [sameVotes, present, Bool.not_true, Bool.false_eq_true, ↓reduceIte]
    refine Or.inr ⟨takes, ?_, ?_⟩
    · rw [refused, store, if_neg Bool.false_ne_true]
    · rw [refused, store, sameBlocks]

/-- Storing what the handler of `mnw` returns. -/
theorem store_processWinner (env : PaymentEnv) (nVersion : Int) (tables : PaymentTables)
    (winner : CMasternodePaymentWinner) :
    (TakesFromPeer env nVersion winner tables ∧ Added winner tables
        (tables.store env winner (tables.maps.processWinner env nVersion winner))) ∨
      ¬TakesFromPeer env nVersion winner tables ∧
        Kept tables (tables.store env winner (tables.maps.processWinner env nVersion winner)) := by
  by_cases admitted : ∃ nHeight, MasternodePayments.Admitted env tables.maps nVersion winner nHeight
  · obtain ⟨nHeight, here⟩ := admitted
    rw [here.processWinner_eq]
    cases signed : env.checkSignature winner with
    | false =>
      refine Or.inr ⟨fun takes => ?_, rfl, rfl⟩
      rw [takes.2.1] at signed
      cases signed
    | true =>
      have sameTally : (tables.maps.recordVote winner.vinMasternode.prevout
          winner.nBlockHeight).tally = tables.maps.tally := rfl
      rcases store_addWinningMasternode env winner sameTally with ⟨takes, added⟩ | ⟨refuses, kept⟩
      · exact Or.inl ⟨⟨⟨nHeight, here⟩, signed, takes⟩, added⟩
      · exact Or.inr ⟨fun taken => refuses taken.2.2, kept⟩
  · have refused : (tables.maps.processWinner env nVersion winner).1 = false := by
      by_contra taken
      exact admitted (admitted_of_counted
        (.inl (Bool.eq_true_of_not_eq_false taken)))
    have same : (tables.maps.processWinner env nVersion winner).2.tally = tables.maps.tally := by
      by_contra counted
      exact admitted (admitted_of_counted (.inr counted))
    refine Or.inr ⟨fun takes => admitted takes.1, ?_, congrArg Prod.snd same⟩
    rw [store, refused, if_neg Bool.false_ne_true]

/-! ## The counts -/

theorem votesFor_addPayee (payee other : CScript) (payees : List (CScript × Int)) :
    votesFor payee (addPayee other payees) =
      votesFor payee payees + if other = payee then 1 else 0 := by
  induction payees with
  | nil => simp [addPayee, votesFor]
  | cons entry rest ih =>
    obtain ⟨first, -⟩ := entry
    rw [addPayee]
    by_cases here : first = other
    · subst here
      by_cases same : first = payee
      · simp [votesFor, same]
      · simp [votesFor, same]
    · rw [if_neg here, votesFor, votesFor, ih]
      by_cases same : first = payee
      · subst same
        simp [Ne.symm here]
      · simp [same]

theorem nodup_addPayee (payee : CScript) {payees : List (CScript × Int)}
    (nodup : (payees.map Prod.fst).Nodup) :
    ((addPayee payee payees).map Prod.fst).Nodup ∧
      ∀ other ∈ (addPayee payee payees).map Prod.fst,
        other = payee ∨ other ∈ payees.map Prod.fst := by
  induction payees with
  | nil => simp [addPayee]
  | cons entry rest ih =>
    obtain ⟨first, nVotes⟩ := entry
    obtain ⟨absent, restNodup⟩ := List.nodup_cons.mp nodup
    obtain ⟨added, only⟩ := ih restNodup
    rw [addPayee]
    by_cases here : first = payee
    · rw [if_pos here]
      exact ⟨nodup, fun other mem => Or.inr mem⟩
    · rw [if_neg here, List.map_cons]
      constructor
      · refine List.nodup_cons.mpr ⟨fun mem => ?_, added⟩
        rcases only first mem with same | inside
        · exact here same
        · exact absent inside
      · intro other mem
        rcases List.mem_cons.mp mem with same | inside
        · exact Or.inr (same ▸ List.mem_cons_self)
        · exact (only other inside).imp_right (List.mem_cons_of_mem _)

theorem Kept.counted (kept : Kept tables after) (counted : tables.Counted) : after.Counted := by
  intro nBlockHeight
  simp only [nVotes, countVotes, kept.votes, kept.blocks]
  exact counted nBlockHeight

theorem Added.counted (added : Added winner tables after) (counted : tables.Counted) :
    after.Counted := by
  intro nBlockHeight
  obtain ⟨hash, votes⟩ := added.votes
  obtain ⟨nodup, counts⟩ := counted nBlockHeight
  simp only [nVotes, countVotes, votes, added.blocks, List.countP_cons]
  by_cases here : winner.nBlockHeight = nBlockHeight
  · subst here
    simp only [Function.update_self, Option.getD_some, decide_true, Bool.true_and]
    refine ⟨(nodup_addPayee winner.payee nodup).1, fun payee => ?_⟩
    have before := counts payee
    rw [nVotes, countVotes] at before
    rw [votesFor_addPayee, before]
    by_cases same : winner.payee = payee
    · simp [same]
    · simp [same]
  · simp only [Function.update_of_ne (Ne.symm here), here, decide_false, Bool.false_and,
      Bool.false_eq_true, ↓reduceIte, Nat.add_zero]
    exact ⟨nodup, counts⟩

theorem counted_clear (tables : PaymentTables) : tables.clear.Counted := by
  intro nBlockHeight
  exact ⟨List.nodup_nil, fun payee => rfl⟩

theorem cleanPaymentList_votes (nHeight masternodes : Int) (tables : PaymentTables) :
    (tables.cleanPaymentList (some nHeight) masternodes).mapMasternodePayeeVotes =
      KeyedMap.sweep (isOld nHeight masternodes) tables.mapMasternodePayeeVotes := by
  refine (List.foldl_hom PaymentTables.mapMasternodePayeeVotes fun before entry => ?_).symm
  unfold cleanVote
  split_ifs <;> rfl

theorem cleanVote_blocks (nHeight masternodes : Int) (tables : PaymentTables)
    (entry : Sigma fun _ : UInt256 => CMasternodePaymentWinner) (nBlockHeight : Int) :
    (cleanVote nHeight masternodes tables entry).mapMasternodeBlocks nBlockHeight =
      if isOld nHeight masternodes entry.2 && decide (entry.2.nBlockHeight = nBlockHeight) then none
      else tables.mapMasternodeBlocks nBlockHeight := by
  rw [cleanVote]
  cases isOld nHeight masternodes entry.2 with
  | false => rfl
  | true =>
    by_cases here : entry.2.nBlockHeight = nBlockHeight
    · simp [here]
    · simp [here, Function.update_of_ne (Ne.symm here)]

theorem cleanPaymentList_blocks (nHeight masternodes : Int) (tables : PaymentTables)
    (nBlockHeight : Int) :
    (tables.cleanPaymentList (some nHeight) masternodes).mapMasternodeBlocks nBlockHeight =
      if tables.mapMasternodePayeeVotes.entries.any fun entry =>
          isOld nHeight masternodes entry.2 && decide (entry.2.nBlockHeight = nBlockHeight)
      then none
      else tables.mapMasternodeBlocks nBlockHeight := by
  simp only [cleanPaymentList]
  generalize tables.mapMasternodePayeeVotes.entries = entries
  induction entries generalizing tables with
  | nil => rfl
  | cons entry rest ih =>
    rw [List.foldl_cons, ih, List.any_cons]
    rw [cleanVote_blocks]
    cases old : isOld nHeight masternodes entry.2 && decide (entry.2.nBlockHeight = nBlockHeight)
      with
    | false => rw [Bool.false_or, if_neg Bool.false_ne_true]
    | true => rw [Bool.true_or, if_pos rfl, ite_self]

theorem counted_cleanPaymentList (tipHeight : Option Int) (masternodes : Int)
    (counted : tables.Counted) : (tables.cleanPaymentList tipHeight masternodes).Counted := by
  cases tipHeight with
  | none => exact counted
  | some nHeight =>
    intro nBlockHeight
    obtain ⟨nodup, counts⟩ := counted nBlockHeight
    simp only [nVotes, countVotes, cleanPaymentList_votes, cleanPaymentList_blocks,
      KeyedMap.entries_sweep, List.countP_filter]
    split_ifs with swept
    · -- the height is old, so none of its votes is left
      refine ⟨List.nodup_nil, fun payee => ?_⟩
      obtain ⟨old, -, isOld⟩ := List.any_eq_true.mp swept
      rw [Bool.and_eq_true, decide_eq_true_eq] at isOld
      obtain ⟨far, same⟩ := isOld
      refine (congrArg Nat.cast (List.countP_eq_zero.mpr fun entry _ matching => ?_)).symm
      simp only [PaymentTables.isOld, Bool.and_eq_true, decide_eq_true_eq,
        Bool.not_eq_true', decide_eq_false_iff_not] at far matching
      omega
    · refine ⟨nodup, fun payee => (counts payee).trans (congrArg Nat.cast ?_)⟩
      refine List.countP_congr fun entry mem => ?_
      have stays : ¬(isOld nHeight masternodes entry.2 && decide (entry.2.nBlockHeight =
          nBlockHeight)) = true := fun old => swept (List.any_eq_true.mpr ⟨entry, mem, old⟩)
      cases old : isOld nHeight masternodes entry.2 with
      | false => simp
      | true =>
        have elsewhere : entry.2.nBlockHeight ≠ nBlockHeight := by simpa [old] using stays
        simp [elsewhere]

/-! ## One vote each -/

theorem Kept.oneVoteEach_iff (kept : Kept tables after) :
    after.OneVoteEach ↔ tables.OneVoteEach := by
  rw [OneVoteEach, OneVoteEach, kept.votes]

theorem Added.oneVoteEach_iff (added : Added winner tables after) :
    after.OneVoteEach ↔ ¬tables.HasVoted winner ∧ tables.OneVoteEach := by
  obtain ⟨hash, votes⟩ := added.votes
  rw [OneVoteEach, votes, List.pairwise_cons, HasVoted]
  simp only [not_exists, not_and, OneVoteEach]

theorem oneVoteEach_cleanPaymentList (tipHeight : Option Int) (masternodes : Int)
    (single : tables.OneVoteEach) :
    (tables.cleanPaymentList tipHeight masternodes).OneVoteEach := by
  cases tipHeight with
  | none => exact single
  | some nHeight =>
    rw [OneVoteEach, cleanPaymentList_votes, KeyedMap.entries_sweep]
    exact single.sublist List.filter_sublist

/-! ## Runs -/

theorem oneVoteEach_step_iff (winnerHash : CScript → Int → COutPoint → UInt256)
    (action : PaymentAction) (single : tables.OneVoteEach) :
    (step winnerHash action tables).OneVoteEach ↔ ¬TakesSecondVote winnerHash tables action := by
  cases action with
  | mnw env nVersion winner =>
    rw [TakesSecondVote, step]
    rcases store_processWinner { env with winnerHash } nVersion tables winner with
      ⟨takes, added⟩ | ⟨refuses, kept⟩
    · rw [added.oneVoteEach_iff]
      exact ⟨fun once second => once.1 second.2,
        fun once => ⟨fun has => once ⟨takes, has⟩, single⟩⟩
    · rw [kept.oneVoteEach_iff]
      exact ⟨fun _ second => refuses second.1, fun _ => single⟩
  | addWinningMasternode env winner =>
    rw [TakesSecondVote, step]
    rcases store_addWinningMasternode { env with winnerHash } winner
      (rfl : tables.maps.tally = tables.maps.tally) with ⟨takes, added⟩ | ⟨refuses, kept⟩
    · rw [added.oneVoteEach_iff]
      exact ⟨fun once second => once.1 second.2,
        fun once => ⟨fun has => once ⟨takes, has⟩, single⟩⟩
    · rw [kept.oneVoteEach_iff]
      exact ⟨fun _ second => refuses second.1, fun _ => single⟩
  | cleanPaymentList tipHeight masternodes =>
    exact iff_of_true (oneVoteEach_cleanPaymentList tipHeight masternodes single) id
  | clear => exact iff_of_true List.Pairwise.nil id

theorem counted_step (winnerHash : CScript → Int → COutPoint → UInt256) (action : PaymentAction)
    (counted : tables.Counted) : (step winnerHash action tables).Counted := by
  cases action with
  | mnw env nVersion winner =>
    rcases store_processWinner { env with winnerHash } nVersion tables winner with
      ⟨_, added⟩ | ⟨_, kept⟩
    · exact added.counted counted
    · exact kept.counted counted
  | addWinningMasternode env winner =>
    rcases store_addWinningMasternode { env with winnerHash } winner
      (rfl : tables.maps.tally = tables.maps.tally) with ⟨_, added⟩ | ⟨_, kept⟩
    · exact added.counted counted
    · exact kept.counted counted
  | cleanPaymentList tipHeight masternodes =>
    exact counted_cleanPaymentList tipHeight masternodes counted
  | clear => exact counted_clear tables

theorem counted_initial : initial.Counted := fun _ => ⟨List.nodup_nil, fun _ => rfl⟩

/-- **Counting the votes for payees.** In every run from empty tables the votes are counted
right in every state. No masternode has two votes for a height in any of the states exactly
if no action takes a vote while another one of its masternode for its height is stored. -/
theorem payeeVotes_counted_once_iff (winnerHash : CScript → Int → COutPoint → UInt256)
    (actions : List PaymentAction) :
    RunStays (total (step winnerHash)) Counted actions initial ∧
      (RunStays (total (step winnerHash)) OneVoteEach actions initial ↔
        RunMeets (total (step winnerHash))
          (fun tables action => ¬TakesSecondVote winnerHash tables action) actions initial) := by
  constructor
  · have free : RunMeets (total (step winnerHash)) (fun _ _ => True) actions initial :=
      RunMeets.of_forall (fun _ _ _ => trivial) initial
    refine free.stays Counted ?_ counted_initial
    intro action before after _ counted stepped
    rw [← Option.some.inj stepped]
    exact counted_step winnerHash action counted
  · exact runStays_total_iff
      (fun action _ tables single => oneVoteEach_step_iff winnerHash action single)
      List.Pairwise.nil

def sampleWinnerHash (payee : CScript) (nBlockHeight : Int) (out : COutPoint) : UInt256 :=
  out.sum + BitVec.ofInt 256 (nBlockHeight + 100000 * payee.length)

def secondThoughts : List PaymentAction :=
  [.mnw samplePaymentEnv 70000 (sampleWinner [1]),
   .mnw samplePaymentEnv 70000 { sampleWinner [1] with nBlockHeight := 1011 },
   .mnw samplePaymentEnv 70000 { sampleWinner [1] with payee := [Op.OP_RETURN] }]

/-- Both votes of the masternode for height 1010 are stored and counted. -/
theorem not_counted_once_secondThoughts :
    ¬RunStays (total (step sampleWinnerHash)) OneVoteEach secondThoughts initial ∧
      (secondThoughts.foldl (fun tables action => step sampleWinnerHash action tables)
        initial).mapMasternodeBlocks 1010 = some [([], 1), ([Op.OP_RETURN], 1)] := by
  refine ⟨fun stays => ?_, by decide⟩
  have single := stays.at_end (run_total _ _ _)
  revert single
  unfold OneVoteEach
  decide

end PaymentTables

end DogeCash
