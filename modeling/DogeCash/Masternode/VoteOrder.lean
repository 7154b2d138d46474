import Mathlib.Data.Finset.Max
import DogeCash.Masternode.BudgetVotes

/-! # The order of votes

A vote replaces an earlier one of the same masternode, but not within
`BUDGET_VOTE_UPDATE_MIN` of it. Of votes that are closer together the one that arrives
first stays, and so it does of votes so far apart that the difference of their times wraps
around. So the order of arrival is irrelevant exactly if the latest vote of every masternode
keeps the distance from its other votes, and no more than fits (`voteTallies_converge_iff`).
-/

namespace DogeCash.VoteBook

open Function (update_of_ne update_self)
open List (foldl_cons map_cons mem_cons_of_mem mem_cons_self mem_map)
open BudgetManager (sampleEnv)

section Votes

variable (env : BudgetEnv) {Vote : Type} (kind : VoteKind Vote)

/-- Apply votes to an item one after another, each at its time of `GetTime`. A vote that
is refused changes nothing. -/
def applyVotes (arrivals : List (Int × Vote)) (mapVotes : UInt256 → Option Vote) :
    UInt256 → Option Vote :=
  arrivals.foldl
    (fun votes arrival => (addOrUpdateVote env kind arrival.1 arrival.2 votes).getD votes) mapVotes

def DistinctTimes (votes : List Vote) : Prop :=
  votes.Pairwise fun first second =>
    voter env kind first = voter env kind second → kind.nTime first ≠ kind.nTime second

/-- An order in which votes arrive, each when its time is past. -/
structure ArrivesAs (votes : List Vote) (arrivals : List (Int × Vote)) : Prop where
  perm : (arrivals.map Prod.snd).Perm votes
  past : ∀ arrival ∈ arrivals, kind.nTime arrival.2 ≤ arrival.1

/-- Every order of the votes ends in the same `mapVotes`. -/
def VotesConverge (votes : List Vote) : Prop :=
  ∀ first second, ArrivesAs kind votes first → ArrivesAs kind votes second →
    applyVotes env kind first (fun _ => none) = applyVotes env kind second fun _ => none

/-- No vote of the same masternode is later. -/
def IsLatest (votes : List Vote) (vote : Vote) : Prop :=
  ∀ other ∈ votes, voter env kind other = voter env kind vote → kind.nTime other ≤ kind.nTime vote

/-- The latest vote of every masternode keeps the distance from its other votes, and is not so
far from them that the difference wraps around. -/
def LatestSpaced (votes : List Vote) : Prop :=
  ∀ vote ∈ votes, IsLatest env kind votes vote →
    ∀ other ∈ votes, voter env kind other = voter env kind vote →
      kind.nTime other ≠ kind.nTime vote →
        kind.nTime other + budgetVoteUpdateMin ≤ kind.nTime vote ∧
          kind.nTime vote < kind.nTime other + 2 ^ 63

/-- Whether `AddOrUpdateVote` puts a vote in the place of an earlier one. -/
def Replaces (previous vote : Vote) : Prop :=
  kind.nTime previous ≤ kind.nTime vote ∧
    budgetVoteUpdateMin ≤ subInt64 (kind.nTime vote) (kind.nTime previous)

instance (previous vote : Vote) : Decidable (Replaces kind previous vote) :=
  inferInstanceAs (Decidable (_ ∧ _))

/-- The votes in an order, each arriving at its own time. -/
def arrivalsIn (order : List Vote) : List (Int × Vote) :=
  order.map fun vote => (kind.nTime vote, vote)

end Votes

variable {env : BudgetEnv} {Vote : Type} {kind : VoteKind Vote}

variable {vote previous other : Vote} {key : UInt256} {arrivals : List (Int × Vote)}
  {votes : List Vote}

/-- For times of 64 bits: a vote replaces one that is long enough before it, and less than 2^63
seconds. -/
theorem replaces_iff (fits : FitsInt64 (kind.nTime previous))
    (voteFits : FitsInt64 (kind.nTime vote)) :
    Replaces kind previous vote ↔ kind.nTime previous + budgetVoteUpdateMin ≤ kind.nTime vote ∧
      kind.nTime vote < kind.nTime previous + 2 ^ 63 := by
  have interval : budgetVoteUpdateMin = 3600 := rfl
  obtain ⟨low, -⟩ := fits
  obtain ⟨-, high⟩ := voteFits
  rw [Replaces, subInt64, interval]
  by_cases far : kind.nTime previous + 2 ^ 63 ≤ kind.nTime vote
  · -- the difference is negative once wrapped
    have wraps : wrapInt64 (kind.nTime vote - kind.nTime previous) =
        kind.nTime vote - kind.nTime previous - 2 ^ 64 := by
      rw [wrapInt64, ← Int.sub_bmod_right]
      exact Int.bmod_eq_of_le (by omega) (by omega)
    omega
  · by_cases later : kind.nTime previous ≤ kind.nTime vote
    · rw [wrapInt64_of_fits ⟨by omega, by omega⟩]
      omega
    · omega

/-- A vote replaces none that is as late. -/
theorem not_replaces_of_le (late : kind.nTime vote ≤ kind.nTime previous) :
    ¬Replaces kind previous vote := by
  rintro ⟨notBefore, spaced⟩
  rw [le_antisymm late notBefore, subInt64, Int.sub_self] at spaced
  exact absurd spaced (by decide)

/-- What a vote whose time is past does to the votes of an item. -/
theorem addOrUpdateVote_getD {now : Int} (votes : UInt256 → Option Vote)
    (past : kind.nTime vote ≤ now) :
    (addOrUpdateVote env kind now vote votes).getD votes =
      match votes (voter env kind vote) with
      | none => Function.update votes (voter env kind vote) (some vote)
      | some previous =>
        if Replaces kind previous vote then
          Function.update votes (voter env kind vote) (some vote)
        else votes := by
  cases held : votes (voter env kind vote) with
  | none => rw [addOrUpdateVote_of_none held past, Option.getD_some]
  | some previous =>
    unfold voter at held
    have tooSoon : (decide (kind.nTime vote < kind.nTime previous) ||
        decide (subInt64 (kind.nTime vote) (kind.nTime previous) < budgetVoteUpdateMin)) =
          decide ¬Replaces kind previous vote := by
      rw [← Bool.decide_or]
      exact decide_eq_decide.mpr (by rw [Replaces, not_and_or, not_le, not_le])
    have current : ¬now + 60 * 60 < kind.nTime vote := by omega
    simp only [addOrUpdateVote, held, tooSoon, decide_eq_true_eq, if_neg current]
    by_cases replaces : Replaces kind previous vote
    · rw [if_neg (not_not.mpr replaces), if_pos replaces]
      rfl
    · rw [if_pos replaces, if_neg replaces]
      rfl

theorem addOrUpdateVote_of_ne {now : Int} (votes : UInt256 → Option Vote)
    (past : kind.nTime vote ≤ now) (other : key ≠ voter env kind vote) :
    ((addOrUpdateVote env kind now vote votes).getD votes) key = votes key := by
  rw [addOrUpdateVote_getD votes past]
  split
  · exact update_of_ne other _ _
  · split_ifs
    · exact update_of_ne other _ _
    · rfl

theorem applyVotes_of_held {votes : UInt256 → Option Vote} {held : Vote}
    (here : votes key = some held) (past : ∀ arrival ∈ arrivals, kind.nTime arrival.2 ≤ arrival.1)
    (final : ∀ arrival ∈ arrivals, voter env kind arrival.2 = key → ¬Replaces kind held arrival.2) :
    applyVotes env kind arrivals votes key = some held := by
  induction arrivals generalizing votes with
  | nil => exact here
  | cons arrival rest ih =>
    rw [applyVotes, foldl_cons]
    refine ih ?_ (fun later mem => past later (mem_cons_of_mem _ mem))
      (fun later mem => final later (mem_cons_of_mem _ mem))
    have arrived := past arrival mem_cons_self
    by_cases same : key = voter env kind arrival.2
    · have kept := final arrival mem_cons_self same.symm
      rw [addOrUpdateVote_getD votes arrived, ← same, here]
      simp only
      rw [if_neg kept, here]
    · rw [addOrUpdateVote_of_ne votes arrived same, here]

/-- What is stored in the end was stored before or has arrived. -/
theorem mem_of_applyVotes {votes : UInt256 → Option Vote}
    (past : ∀ arrival ∈ arrivals, kind.nTime arrival.2 ≤ arrival.1)
    (stored : applyVotes env kind arrivals votes key = some vote) :
    votes key = some vote ∨ vote ∈ arrivals.map Prod.snd := by
  induction arrivals generalizing votes with
  | nil => exact Or.inl stored
  | cons arrival rest ih =>
    have arrived := past arrival mem_cons_self
    rw [applyVotes, foldl_cons] at stored
    rcases ih (fun later mem => past later (mem_cons_of_mem _ mem)) stored with before | later
    · by_cases same : key = voter env kind arrival.2
      · rw [addOrUpdateVote_getD votes arrived, ← same] at before
        have taken : Function.update votes key (some arrival.2) key = some vote →
            vote ∈ (arrival :: rest).map Prod.snd := by
          intro equal
          rw [update_self, Option.some.injEq] at equal
          rw [map_cons, equal]
          exact mem_cons_self
        split at before
        · exact Or.inr (taken before)
        · split_ifs at before
          · exact Or.inr (taken before)
          · exact Or.inl before
      · exact Or.inl (addOrUpdateVote_of_ne votes arrived same ▸ before)
    · exact Or.inr (mem_cons_of_mem _ later)

theorem applyVotes_of_absent {votes : UInt256 → Option Vote}
    (past : ∀ arrival ∈ arrivals, kind.nTime arrival.2 ≤ arrival.1)
    (absent : ∀ arrival ∈ arrivals, voter env kind arrival.2 ≠ key) :
    applyVotes env kind arrivals votes key = votes key := by
  induction arrivals generalizing votes with
  | nil => rfl
  | cons arrival rest ih =>
    refine (ih (fun later mem => past later (mem_cons_of_mem _ mem))
      fun later mem => absent later (mem_cons_of_mem _ mem)).trans ?_
    exact addOrUpdateVote_of_ne votes (past arrival mem_cons_self)
      (absent arrival mem_cons_self).symm

theorem applyVotes_latest {votes : UInt256 → Option Vote} {latest : Vote}
    (past : ∀ arrival ∈ arrivals, kind.nTime arrival.2 ≤ arrival.1)
    (mem : latest ∈ arrivals.map Prod.snd)
    (spaced : ∀ arrival ∈ arrivals, voter env kind arrival.2 = voter env kind latest →
      arrival.2 = latest ∨ Replaces kind arrival.2 latest)
    (before : ∀ held, votes (voter env kind latest) = some held →
      held = latest ∨ Replaces kind held latest) :
    applyVotes env kind arrivals votes (voter env kind latest) = some latest := by
  induction arrivals generalizing votes with
  | nil => cases mem
  | cons arrival rest ih =>
    have arrived := past arrival mem_cons_self
    have restPast := fun later inside => past later (mem_cons_of_mem arrival inside)
    have restSpaced := fun later inside => spaced later (mem_cons_of_mem arrival inside)
    rw [applyVotes, foldl_cons]
    by_cases here : arrival.2 = latest
    · -- the latest vote is taken now, and what comes after it is too old to replace it
      refine applyVotes_of_held ?_ restPast ?_
      · rw [here] at arrived ⊢
        rw [addOrUpdateVote_getD votes arrived]
        cases held : votes (voter env kind latest) with
        | none => simp only [update_self]
        | some previous =>
          rcases before previous held with same | older
          · simp only
            split_ifs
            · rw [update_self]
            · rw [held, same]
          · simp [older, update_self]
      · intro later inside same
        rcases restSpaced later inside same with equal | older
        · rw [equal]
          exact not_replaces_of_le le_rfl
        · exact not_replaces_of_le older.1
    · have later : latest ∈ rest.map Prod.snd :=
        (List.mem_cons.mp (map_cons ▸ mem)).resolve_left (Ne.symm here)
      refine ih restPast later restSpaced fun held found => ?_
      by_cases same : voter env kind latest = voter env kind arrival.2
      · rw [addOrUpdateVote_getD votes arrived, ← same] at found
        have older := (spaced arrival mem_cons_self same.symm).resolve_left here
        cases stored : votes (voter env kind latest) with
        | none =>
          rw [stored] at found
          simp only [update_self, Option.some.injEq] at found
          exact Or.inr (found ▸ older)
        | some previous =>
          rw [stored] at found
          simp only at found
          split_ifs at found
          · rw [update_self, Option.some.injEq] at found
            exact Or.inr (found ▸ older)
          · exact before held found
      · rw [addOrUpdateVote_of_ne votes arrived same] at found
        exact before held found

theorem exists_latest (env : BudgetEnv) (kind : VoteKind Vote) (mem : vote ∈ votes) :
    ∃ latest ∈ votes, voter env kind latest = voter env kind vote ∧
      IsLatest env kind votes latest := by
  classical
  obtain ⟨latest, inside, greatest⟩ :=
    (votes.toFinset.filter fun other => voter env kind other = voter env kind vote).exists_max_image
      kind.nTime ⟨vote, by simp [mem]⟩
  rw [Finset.mem_filter, List.mem_toFinset] at inside
  refine ⟨latest, inside.1, inside.2, fun other present same => greatest other ?_⟩
  rw [Finset.mem_filter, List.mem_toFinset]
  exact ⟨present, same.trans inside.2⟩

theorem arrivesAs_arrivalsIn {order : List Vote} (perm : order.Perm votes) :
    ArrivesAs kind votes (arrivalsIn kind order) where
  perm := by
    have kept : (arrivalsIn kind order).map Prod.snd = order := by
      simp [arrivalsIn, Function.comp_def]
    rw [kept]
    exact perm
  past arrival arrived := by
    obtain ⟨-, -, rfl⟩ := mem_map.mp arrived
    exact le_rfl

/-- A vote that arrives first and is replaced by no other one stays. -/
theorem applyVotes_of_first {rest : List Vote}
    (final : ∀ other ∈ rest, voter env kind other = voter env kind vote →
      ¬Replaces kind vote other) :
    applyVotes env kind (arrivalsIn kind (vote :: rest)) (fun _ => none) (voter env kind vote) =
      some vote := by
  rw [applyVotes, arrivalsIn, map_cons, foldl_cons]
  apply applyVotes_of_held
  · rw [addOrUpdateVote_getD _ le_rfl]
    simp only [update_self]
  · exact (arrivesAs_arrivalsIn (List.Perm.refl rest)).past
  · intro arrival arrived same
    obtain ⟨other, inside, rfl⟩ := mem_map.mp arrived
    exact final other inside same

/-- A vote that arrives only once, right after one that it does not replace, is lost. -/
theorem applyVotes_of_second {rest : List Vote} (same : voter env kind other = voter env kind vote)
    (differ : other ≠ vote) (kept : ¬Replaces kind other vote) (once : vote ∉ rest) :
    applyVotes env kind (arrivalsIn kind (other :: vote :: rest)) (fun _ => none)
      (voter env kind vote) ≠ some vote := by
  intro stored
  have first : applyVotes env kind (arrivalsIn kind [other, vote]) (fun _ => none)
      (voter env kind other) = some other := by
    refine applyVotes_of_first fun third present _ => ?_
    rw [List.mem_singleton.mp present]
    exact kept
  rcases mem_of_applyVotes (arrivesAs_arrivalsIn (List.Perm.refl rest)).past stored with
    before | later
  · rw [← same] at before
    exact differ (Option.some.inj (first.symm.trans before))
  · obtain ⟨arrival, arrived, rfl⟩ := mem_map.mp later
    obtain ⟨third, present, rfl⟩ := mem_map.mp arrived
    exact once present

/-- Votes of one masternode that are among votes with distinct times differ in their times. -/
theorem DistinctTimes.differ (distinct : DistinctTimes env kind votes) (mem : vote ∈ votes)
    (inside : other ∈ votes) (ne : other ≠ vote)
    (same : voter env kind other = voter env kind vote) : kind.nTime other ≠ kind.nTime vote := by
  have symmetric : Std.Symm fun first second : Vote =>
      voter env kind first = voter env kind second → kind.nTime first ≠ kind.nTime second :=
    ⟨fun _ _ differ same => (differ same.symm).symm⟩
  exact List.Pairwise.forall distinct inside mem ne same

theorem applyVotes_of_latest {latest : Vote} (timed : ∀ vote ∈ votes, FitsInt64 (kind.nTime vote))
    (distinct : DistinctTimes env kind votes) (spaced : LatestSpaced env kind votes)
    (arrives : ArrivesAs kind votes arrivals) (mem : latest ∈ votes)
    (isLatest : IsLatest env kind votes latest) :
    applyVotes env kind arrivals (fun _ => none) (voter env kind latest) = some latest := by
  refine applyVotes_latest arrives.past (arrives.perm.mem_iff.mpr mem) ?_ fun held found => ?_
  · intro arrival arrived same
    have inside : arrival.2 ∈ votes := arrives.perm.mem_iff.mp (List.mem_map_of_mem arrived)
    by_cases equal : arrival.2 = latest
    · exact Or.inl equal
    · exact Or.inr ((replaces_iff (timed _ inside) (timed _ mem)).mpr
        (spaced latest mem isLatest arrival.2 inside same
          (distinct.differ mem inside equal same)))
  · cases found

theorem votesConverge_iff [DecidableEq Vote] (timed : ∀ vote ∈ votes, FitsInt64 (kind.nTime vote))
    (distinct : DistinctTimes env kind votes) :
    VotesConverge env kind votes ↔ LatestSpaced env kind votes := by
  constructor
  · intro converge vote mem isLatest other inside same differ
    rw [← replaces_iff (timed other inside) (timed vote mem)]
    by_contra kept
    have ne : other ≠ vote := fun equal => differ (congrArg kind.nTime equal)
    have nodup : votes.Nodup := distinct.imp fun apart equal => by subst equal; exact apart rfl rfl
    have order : (other :: vote :: (votes.erase other).erase vote).Perm votes :=
      ((List.perm_cons_erase ((List.mem_erase_of_ne ne.symm).mpr mem)).symm.cons
        other).trans (List.perm_cons_erase inside).symm
    -- first the latest vote, or right after the one that it does not replace
    have agree := congrFun (converge _ _
      (arrivesAs_arrivalsIn (List.perm_cons_erase mem).symm) (arrivesAs_arrivalsIn order))
      (voter env kind vote)
    rw [applyVotes_of_first fun third present equal =>
      not_replaces_of_le (isLatest third (List.mem_of_mem_erase present) equal)] at agree
    exact applyVotes_of_second same ne kept
      (fun again => (nodup.erase other).not_mem_erase again) agree.symm
  · intro spaced first second firstArrives secondArrives
    funext key
    by_cases voted : ∃ vote ∈ votes, voter env kind vote = key
    · obtain ⟨vote, mem, rfl⟩ := voted
      obtain ⟨latest, present, same, isLatest⟩ := exists_latest env kind mem
      rw [← same, applyVotes_of_latest timed distinct spaced firstArrives present isLatest,
        applyVotes_of_latest timed distinct spaced secondArrives present isLatest]
    · have absent : ∀ {arrivals}, ArrivesAs kind votes arrivals →
          applyVotes env kind arrivals (fun _ => none) key = none := by
        intro arrivals arrives
        refine applyVotes_of_absent arrives.past fun arrival arrived same => voted ?_
        exact ⟨arrival.2, arrives.perm.mem_iff.mp (List.mem_map_of_mem arrived), same⟩
      rw [absent firstArrives, absent secondArrives]

/-- **Order of votes.** For votes on a proposal, and for votes on a finalized budget, with
different times for each masternode: every order of arrival leaves the same votes exactly if
the latest vote of every masternode is at least `BUDGET_VOTE_UPDATE_MIN` and less than 2^63
seconds later than its other votes. -/
theorem voteTallies_converge_iff (env : BudgetEnv) :
    (∀ votes : List CBudgetVote, (∀ vote ∈ votes, FitsInt64 vote.nTime) →
      DistinctTimes env env.mvote votes →
      (VotesConverge env env.mvote votes ↔ LatestSpaced env env.mvote votes)) ∧
    ∀ votes : List CFinalizedBudgetVote, (∀ vote ∈ votes, FitsInt64 vote.nTime) →
      DistinctTimes env env.fbvote votes →
      (VotesConverge env env.fbvote votes ↔ LatestSpaced env env.fbvote votes) :=
  ⟨fun _ timed distinct => votesConverge_iff timed distinct,
    fun _ timed distinct => votesConverge_iff timed distinct⟩

/-- A masternode votes for a proposal and then changes its mind. -/
def changeOfMind (first second : Int) : List CBudgetVote :=
  [⟨⟨⟨1, 0⟩, [], 0xffffffff⟩, 500, 1, first, [], 1⟩,
   ⟨⟨⟨1, 0⟩, [], 0xffffffff⟩, 500, 2, second, [], 1⟩]

theorem votesConverge_changeOfMind :
    VotesConverge sampleEnv sampleEnv.mvote
      (changeOfMind 1600000000 1600003600) := by
  apply ((voteTallies_converge_iff sampleEnv).1
    (changeOfMind 1600000000 1600003600) ?_ ?_).mpr
  · unfold LatestSpaced IsLatest
    decide
  · decide
  · unfold DistinctTimes
    decide

/-- The two votes in this order and the other one, an hour after the last of them. -/
theorem arrivesAs_changeOfMind {first second : Int} (firstPast : first ≤ 1600003600)
    (secondPast : second ≤ 1600003600) :
    ArrivesAs sampleEnv.mvote (changeOfMind first second)
        ((changeOfMind first second).map fun vote => (1600003600, vote)) ∧
      ArrivesAs sampleEnv.mvote (changeOfMind first second)
        ((changeOfMind first second).reverse.map fun vote => (1600003600, vote)) := by
  refine ⟨⟨List.Perm.refl _, ?_⟩, ⟨List.Perm.swap _ _ _, ?_⟩⟩
  all_goals
    simp [changeOfMind, BudgetEnv.mvote, firstPast, secondPast]

theorem not_votesConverge_of_ne {first second : Int} (firstPast : first ≤ 1600003600)
    (secondPast : second ≤ 1600003600)
    (apart : applyVotes sampleEnv sampleEnv.mvote
        ((changeOfMind first second).map fun vote => (1600003600, vote)) (fun _ => none) 1 ≠
      applyVotes sampleEnv sampleEnv.mvote
        ((changeOfMind first second).reverse.map fun vote => (1600003600, vote))
        (fun _ => none) 1) :
    ¬VotesConverge sampleEnv sampleEnv.mvote (changeOfMind first second) := by
  intro converge
  obtain ⟨forward, backward⟩ := arrivesAs_changeOfMind firstPast secondPast
  exact apart (congrFun (converge _ _ forward backward) 1)

/-- After a hundred seconds the vote that arrives first stays, and so it does if the difference
of the times does not fit. -/
theorem not_votesConverge_changeOfMind :
    (DistinctTimes sampleEnv sampleEnv.mvote (changeOfMind 1600000000 1600000100) ∧
      ¬VotesConverge sampleEnv sampleEnv.mvote (changeOfMind 1600000000 1600000100)) ∧
    DistinctTimes sampleEnv sampleEnv.mvote (changeOfMind (-2 ^ 63) 1600000000) ∧
      ¬VotesConverge sampleEnv sampleEnv.mvote (changeOfMind (-2 ^ 63) 1600000000) := by
  refine ⟨⟨?_, ?_⟩, ?_, ?_⟩
  · unfold DistinctTimes
    decide
  · exact not_votesConverge_of_ne (by decide) (by decide) (by decide)
  · unfold DistinctTimes
    decide
  · exact not_votesConverge_of_ne (by decide) (by decide) (by decide)

end DogeCash.VoteBook
