import Mathlib.Data.Int.ConditionallyCompleteOrder
import Mathlib.Data.Prod.Lex
import DogeCash.Foundation.Greedy
import DogeCash.Foundation.Ranks
import DogeCash.Masternode.BudgetVotes
import DogeCash.Masternode.FinalizedBudget

/-! # The proposals that a budget pays

`GetBudget` sorts the proposals by their votes and the hashes of their fee transactions, and takes
each passing one that still fits in the budget of the next cycle. What it leaves alone is the
allotment of the proposals that do not pass: the amount of an earlier cycle stays there, or what
the memory held when the proposal was copied.
-/

namespace DogeCash

open Function (update update_of_ne update_self)
open List (foldl_cons map_id map_map mem_cons mem_cons_of_mem mem_cons_self mem_filter mem_map)

def ChainParams.nProposalEstablishmentTime (params : ChainParams) : Int :=
  match params.networkID with
  | .main => 60 * 60 * 24
  | .testnet | .regtest => 60 * 5

/-- `CBudgetProposal`, with the flag `fValid` of each vote. -/
structure CBudgetProposal where
  nAlloted : Int
  fValid : Bool
  nBlockStart : Int
  nBlockEnd : Int
  nAmount : Int
  nTime : Int
  nFeeTXHash : UInt256
  mapVotes : List (CBudgetVote × Bool)

namespace CBudgetProposal

variable (proposal : CBudgetProposal)

def cleanAndRemove (find : COutPoint → Bool) : CBudgetProposal :=
  { proposal with
    mapVotes := proposal.mapVotes.map fun entry => (entry.1, find entry.1.vin.prevout) }

def countVotes (nVote : Int) : ℕ :=
  proposal.mapVotes.countP fun entry => entry.1.nVote = nVote && entry.2

def getYeas : Int := proposal.countVotes 1

def getNays : Int := proposal.countVotes 2

def setAllotted (nAllotedIn : Int) : CBudgetProposal := { proposal with nAlloted := nAllotedIn }

def isEstablished (node : Node) : Bool :=
  proposal.nTime < node.getAdjustedTime - node.params.nProposalEstablishmentTime

def isPassing (node : Node) (pindexPrev : Option ChainTip)
    (nBlockStartBudget nBlockEndBudget mnCount : Int) : Bool :=
  if !proposal.fValid then false
  else if pindexPrev = none then false
  else if nBlockStartBudget < proposal.nBlockStart then false
  else if proposal.nBlockEnd < nBlockEndBudget then false
  else if proposal.getYeas - proposal.getNays ≤ Int.tdiv mnCount 10 then false
  else proposal.isEstablished node

end CBudgetProposal

/-- `mapProposals`: its keys in the order of iteration, and the proposals that they lead to. -/
structure ProposalMap where
  keys : List UInt256
  proposal : UInt256 → CBudgetProposal
  nodup : keys.Nodup

/-- What `GetBudget` asks the rest of the node. -/
structure GetBudgetEnv where
  node : Node
  /-- Whether `CMasternodeMan::Find` finds a masternode. -/
  find : COutPoint → Bool
  /-- `CMasternodeMan::CountEnabled` with the active protocol. -/
  countEnabled : Int

/-- The variables of the loop of `GetBudget`. -/
structure BudgetAllocation where
  nBudgetAllocated : Int
  vBudgetProposalsRet : List UInt256
  proposal : UInt256 → CBudgetProposal

namespace GetBudgetEnv

variable (env : GetBudgetEnv)

def nBlockStart : Int :=
  let cycle := env.node.params.nBudgetCycleBlocks
  env.node.chainHeight - Int.tmod env.node.chainHeight cycle + cycle

def nBlockEnd : Int := env.nBlockStart + env.node.params.nBudgetCycleBlocks - 1

def nTotalBudget : Int := env.node.getTotalBudget env.nBlockStart

theorem nTotalBudget_nonneg : 0 ≤ env.nTotalBudget := env.node.getTotalBudget_nonneg _

theorem nTotalBudget_lt : env.nTotalBudget < 2 ^ 62 := env.node.getTotalBudget_lt _

def passes (proposal : CBudgetProposal) : Bool :=
  proposal.isPassing env.node env.node.tip env.nBlockStart env.nBlockEnd env.countEnabled

/-- The body of the loop of `GetBudget`. -/
def allocate (state : BudgetAllocation) (key : UInt256) : BudgetAllocation :=
  let pbudgetProposal := state.proposal key
  if env.passes pbudgetProposal then
    if addInt64 pbudgetProposal.nAmount state.nBudgetAllocated ≤ env.nTotalBudget then
      { nBudgetAllocated := addInt64 state.nBudgetAllocated pbudgetProposal.nAmount
        vBudgetProposalsRet := state.vBudgetProposalsRet ++ [key]
        proposal := update state.proposal key
          (pbudgetProposal.setAllotted pbudgetProposal.nAmount) }
    else { state with proposal := update state.proposal key (pbudgetProposal.setAllotted 0) }
  else state

end GetBudgetEnv

namespace ProposalMap

/-- What `sortProposalsByVotes` compares: the votes, then the hash of the fee transaction. -/
def sortKey (proposal : UInt256 → CBudgetProposal) (entry : UInt256 × Int) : Int ×ₗ ℕ :=
  toLex (entry.2, (proposal entry.1).nFeeTXHash.toNat)

variable (env : GetBudgetEnv) (map : ProposalMap)

def cleaned (key : UInt256) : CBudgetProposal := (map.proposal key).cleanAndRemove env.find

/-- `CBudgetManager::GetBudget`: the proposals of the list that it returns, and the map
afterwards. -/
def getBudget (sorting : DescendingSort (sortKey map.proposal)) : List UInt256 × ProposalMap :=
  let cleaned := map.cleaned env
  let vBudgetPorposalsSort := sorting.sort
    (map.keys.map fun key => (key, (cleaned key).getYeas - (cleaned key).getNays))
  if env.node.tip = none then ([], { map with proposal := cleaned })
  else
    let last := (vBudgetPorposalsSort.map Prod.fst).foldl env.allocate ⟨0, [], cleaned⟩
    (last.vBudgetProposalsRet, { map with proposal := last.proposal })

def passing : List UInt256 := map.keys.filter fun key => env.passes (map.cleaned env key)

def rank (key : UInt256) : Int ×ₗ ℕ :=
  toLex ((map.cleaned env key).getYeas - (map.cleaned env key).getNays,
    (map.proposal key).nFeeTXHash.toNat)

def amount (key : UInt256) : Int := (map.proposal key).nAmount

end ProposalMap

/-! ## Greedy choices with sums of 64 bits -/

section

variable {α : Type} {amount : α → Int} {total allocated : Int} {item : α} {items rest : List α}

/-- The items that the loop takes, from what is allocated already. -/
def taken (amount : α → Int) (total : Int) (allocated : Int) : List α → List α
  | [] => []
  | item :: rest =>
    if addInt64 (amount item) allocated ≤ total then
      item :: taken amount total (addInt64 allocated (amount item)) rest
    else taken amount total allocated rest

theorem taken_sublist (amount : α → Int) (total allocated : Int) (items : List α) :
    (taken amount total allocated items).Sublist items := by
  induction items generalizing allocated with
  | nil => exact .slnil
  | cons item rest ih =>
    rw [taken]
    split
    · exact (ih _).cons_cons item
    · exact (ih _).cons item

def HasRoom (amount : α → Int) (total allocated : Int) (items : List α) : Prop :=
  ∀ front item back, items = front ++ item :: back →
    amount item + (allocated + spent amount (total - allocated) front) < 2 ^ 63

theorem hasRoom_cons_of_onward {later : Int}
    (onward : ∀ front, allocated + spent amount (total - allocated) (item :: front) =
      later + spent amount (total - later) front) :
    HasRoom amount total allocated (item :: rest) ↔
      amount item + allocated < 2 ^ 63 ∧ HasRoom amount total later rest := by
  have none : allocated + spent amount (total - allocated) [] = allocated := by
    rw [spent, greedy, List.map_nil, List.sum_nil, add_zero]
  constructor
  · intro room
    have first := room [] item rest rfl
    rw [none] at first
    refine ⟨first, fun front other back split => ?_⟩
    rw [← onward]
    exact room (item :: front) other back (by rw [split, List.cons_append])
  · intro both front other back split
    cases front with
    | nil =>
      cases split
      rw [none]
      exact both.1
    | cons head front =>
      cases split
      rw [onward]
      exact both.2 front other back rfl

theorem hasRoom_cons_of_fits (fits : amount item ≤ total - allocated) :
    HasRoom amount total allocated (item :: rest) ↔
      amount item + allocated < 2 ^ 63 ∧ HasRoom amount total (allocated + amount item) rest := by
  refine hasRoom_cons_of_onward fun front => ?_
  rw [spent_of_fits fits, add_assoc, Int.sub_sub]

theorem hasRoom_cons_of_exceeds (exceeds : total - allocated < amount item) :
    HasRoom amount total allocated (item :: rest) ↔
      amount item + allocated < 2 ^ 63 ∧ HasRoom amount total allocated rest := by
  refine hasRoom_cons_of_onward fun front => ?_
  rw [spent_of_exceeds exceeds]

theorem taken_of_hasRoom (positive : ∀ item ∈ items, 0 < amount item) (nonneg : 0 ≤ allocated)
    (within : allocated ≤ total) (small : total < 2 ^ 62)
    (room : HasRoom amount total allocated items) :
    taken amount total allocated items = greedy amount (total - allocated) items := by
  induction items generalizing allocated with
  | nil => rfl
  | cons item rest ih =>
    have first := positive item mem_cons_self
    have others := fun other mem => positive other (mem_cons_of_mem item mem)
    by_cases fits : amount item ≤ total - allocated
    · obtain ⟨-, later⟩ := (hasRoom_cons_of_fits fits).mp room
      rw [taken, addInt64_of_fits (by omega) (by omega), if_pos (by omega), greedy_of_fits fits,
        addInt64_of_fits (by omega) (by omega), ih others (by omega) (by omega) later, Int.sub_sub]
    · have exceeds := Int.not_le.mp fits
      obtain ⟨narrow, later⟩ := (hasRoom_cons_of_exceeds exceeds).mp room
      rw [taken, addInt64_of_fits (by omega) (by omega), if_neg (by omega),
        greedy_of_exceeds exceeds, ih others nonneg within later]

theorem hasRoom_of_taken (positive : ∀ item ∈ items, 0 < amount item ∧ amount item < 2 ^ 63)
    (nonneg : 0 ≤ allocated) (within : allocated ≤ total) (small : total < 2 ^ 62)
    (below : ∀ item ∈ taken amount total allocated items, amount item ≤ total) :
    HasRoom amount total allocated items := by
  induction items generalizing allocated with
  | nil =>
    intro front item back split
    have longer := List.append_ne_nil_of_right_ne_nil front (List.cons_ne_nil item back)
    exact absurd split longer.symm
  | cons item rest ih =>
    obtain ⟨first, narrow⟩ := positive item mem_cons_self
    have others := fun other mem => positive other (mem_cons_of_mem item mem)
    have room : amount item + allocated < 2 ^ 63 := by
      by_contra wide
      have wraps : addInt64 (amount item) allocated = amount item + allocated - 2 ^ 64 := by
        rw [addInt64, wrapInt64, ← Int.sub_bmod_right]
        exact Int.bmod_eq_of_le (by omega) (by omega)
      rw [taken, if_pos (by omega)] at below
      have := below item mem_cons_self
      omega
    by_cases fits : amount item ≤ total - allocated
    · rw [taken, addInt64_of_fits (by omega) (by omega), if_pos (by omega),
        addInt64_of_fits (by omega) (by omega)] at below
      refine (hasRoom_cons_of_fits fits).mpr ⟨room, ih others (by omega) (by omega) ?_⟩
      exact fun other mem => below other (mem_cons_of_mem item mem)
    · rw [taken, addInt64_of_fits (by omega) (by omega), if_neg (by omega)] at below
      exact (hasRoom_cons_of_exceeds (Int.not_le.mp fits)).mpr
        ⟨room, ih others nonneg within below⟩

end

/-! ## The loop -/

namespace GetBudgetEnv

variable {env : GetBudgetEnv}

/-- The loop takes from the passing proposals what `taken` takes, allots to each passing one its
amount or nothing, and leaves the others alone. -/
theorem foldl_allocate {base : UInt256 → CBudgetProposal} (sorted : List UInt256)
    (nodup : sorted.Nodup) (state : BudgetAllocation)
    (fresh : ∀ key ∈ sorted, state.proposal key = base key) :
    let passing := sorted.filter fun key => env.passes (base key)
    let chosen :=
      taken (fun key => (base key).nAmount) env.nTotalBudget state.nBudgetAllocated passing
    let last := sorted.foldl env.allocate state
    last.vBudgetProposalsRet = state.vBudgetProposalsRet ++ chosen ∧
      ∀ key, last.proposal key =
        if key ∈ passing then
          (base key).setAllotted (if key ∈ chosen then (base key).nAmount else 0)
        else state.proposal key := by
  induction sorted generalizing state with
  | nil => exact ⟨(List.append_nil _).symm, fun key => rfl⟩
  | cons first rest ih =>
    obtain ⟨absent, distinct⟩ := List.nodup_cons.mp nodup
    have here := fresh first mem_cons_self
    have untouched (value : CBudgetProposal) (key : UInt256) (mem : key ∈ rest) :
        update state.proposal first value key = base key := by
      rw [update_of_ne (ne_of_mem_of_not_mem mem absent)]
      exact fresh key (mem_cons_of_mem first mem)
    intro passing chosen last
    have notLater : first ∉ rest.filter fun key => env.passes (base key) :=
      fun mem => absent (List.mem_of_mem_filter mem)
    cases passes : env.passes (base first) with
    | false =>
      have step : env.allocate state first = state := by
        rw [allocate, here, passes]
        rfl
      have skipped : passing = rest.filter fun key => env.passes (base key) := by
        simp only [passing, List.filter_cons, passes, Bool.false_eq_true, if_false]
      have := ih distinct state fun key mem => fresh key (mem_cons_of_mem first mem)
      simp only [last, chosen, skipped, foldl_cons, step]
      exact this
    | true =>
      have kept : passing = first :: rest.filter fun key => env.passes (base key) := by
        simp only [passing, List.filter_cons, passes, if_true]
      by_cases fits : addInt64 (base first).nAmount state.nBudgetAllocated ≤ env.nTotalBudget
      · have step : env.allocate state first =
            { nBudgetAllocated := addInt64 state.nBudgetAllocated (base first).nAmount
              vBudgetProposalsRet := state.vBudgetProposalsRet ++ [first]
              proposal := update state.proposal first
                ((base first).setAllotted (base first).nAmount) } := by
          simp [allocate, here, passes, if_pos fits]
        have later : ∀ key ∈ rest, (env.allocate state first).proposal key = base key := by
          rw [step]
          exact untouched _
        obtain ⟨returned, allotted⟩ := ih distinct (env.allocate state first) later
        have both : chosen = first :: taken (fun key => (base key).nAmount) env.nTotalBudget
            (addInt64 state.nBudgetAllocated (base first).nAmount)
            (rest.filter fun key => env.passes (base key)) := by
          simp only [chosen, kept, taken, if_pos fits]
        simp only [step] at returned allotted
        simp only [last, both, kept, foldl_cons, step]
        refine ⟨?_, fun key => ?_⟩
        · rw [returned, List.append_assoc, List.singleton_append]
        · rw [allotted]
          by_cases same : key = first
          · subst same
            rw [if_neg notLater, update_self, if_pos mem_cons_self, if_pos mem_cons_self]
          · simp [same]
      · have step : env.allocate state first =
            { state with
              proposal := update state.proposal first ((base first).setAllotted 0) } := by
          simp [allocate, here, passes, if_neg fits]
        have later : ∀ key ∈ rest, (env.allocate state first).proposal key = base key := by
          rw [step]
          exact untouched _
        obtain ⟨returned, allotted⟩ := ih distinct (env.allocate state first) later
        have others : chosen = taken (fun key => (base key).nAmount) env.nTotalBudget
            state.nBudgetAllocated (rest.filter fun key => env.passes (base key)) := by
          simp only [chosen, kept, taken, if_neg fits]
        simp only [step] at returned allotted
        simp only [last, others, kept, foldl_cons, step]
        refine ⟨returned, fun key => ?_⟩
        rw [allotted]
        by_cases same : key = first
        · subst same
          rw [if_neg notLater, update_self, if_pos mem_cons_self, if_neg]
          exact fun mem => notLater ((taken_sublist _ _ _ _).subset mem)
        · simp [same]

end GetBudgetEnv

namespace ProposalMap

variable {env : GetBudgetEnv} {map : ProposalMap}

theorem passing_of_no_tip (absent : env.node.tip = none) : map.passing env = [] := by
  apply List.filter_eq_nil_iff.mpr
  intro key _ passes
  rw [GetBudgetEnv.passes, CBudgetProposal.isPassing, if_pos absent] at passes
  split at passes
  · cases passes
  · cases passes

def sorted (env : GetBudgetEnv) (map : ProposalMap)
    (sorting : DescendingSort (sortKey map.proposal)) : List UInt256 :=
  (sorting.sort (map.keys.map fun key =>
    (key, (map.cleaned env key).getYeas - (map.cleaned env key).getNays))).map Prod.fst

def visited (env : GetBudgetEnv) (map : ProposalMap)
    (sorting : DescendingSort (sortKey map.proposal)) : List UInt256 :=
  (map.sorted env sorting).filter fun key => env.passes (map.cleaned env key)

variable (env) (map)

section

variable (sorting : DescendingSort (sortKey map.proposal))
include sorting

theorem isOrdering_sorted : IsOrdering (map.rank env) map.keys (map.sorted env sorting) := by
  have perm := sorting.perm (map.keys.map fun key =>
    (key, (map.cleaned env key).getYeas - (map.cleaned env key).getNays))
  refine ⟨?_, List.pairwise_map.mpr ((sorting.sorted _).imp_of_mem ?_)⟩
  · have keys := perm.map Prod.fst
    rwa [map_map, show Prod.fst ∘ (fun key => (key, (map.cleaned env key).getYeas -
      (map.cleaned env key).getNays)) = id from rfl, map_id] at keys
  · intro a b first second lower
    obtain ⟨key, -, rfl⟩ := mem_map.mp (perm.mem_iff.mp first)
    obtain ⟨other, -, rfl⟩ := mem_map.mp (perm.mem_iff.mp second)
    exact lower

theorem isOrdering_visited :
    IsOrdering (map.rank env) (map.passing env) (map.visited env sorting) where
  perm := (isOrdering_sorted env map sorting).perm.filter _
  sorted := (isOrdering_sorted env map sorting).sorted.filter _

/-- **A call.** `GetBudget` returns what the loop takes from the passing proposals as they are
sorted. Afterwards those have their amounts or nothing as allotments, the others what they had. -/
theorem getBudget_eq :
    (map.getBudget env sorting).1 = taken map.amount env.nTotalBudget 0 (map.visited env sorting) ∧
      ∀ key ∈ map.keys, ((map.getBudget env sorting).2.proposal key).nAlloted =
        if env.passes (map.cleaned env key) = true then
          if key ∈ (map.getBudget env sorting).1 then map.amount key else 0
        else (map.proposal key).nAlloted := by
  by_cases absent : env.node.tip = none
  · have nothing : map.visited env sorting = [] := by
      have perm := (isOrdering_visited env map sorting).perm
      rw [passing_of_no_tip absent] at perm
      exact perm.eq_nil
    rw [nothing, getBudget, if_pos absent]
    refine ⟨rfl, fun key mem => ?_⟩
    have fails : env.passes (map.cleaned env key) ≠ true := by
      intro passes
      have inside : key ∈ map.passing env := mem_filter.mpr ⟨mem, passes⟩
      rw [passing_of_no_tip absent] at inside
      cases inside
    rw [if_neg fails]
    rfl
  · have perm := (isOrdering_sorted env map sorting).perm
    obtain ⟨returned, allotted⟩ := GetBudgetEnv.foldl_allocate (map.sorted env sorting)
      (perm.nodup_iff.mpr map.nodup) ⟨0, [], map.cleaned env⟩ fun key _ => rfl
    have result : (map.getBudget env sorting).1 =
        taken map.amount env.nTotalBudget 0 (map.visited env sorting) := by
      rw [getBudget, if_neg absent]
      exact returned
    have after (key : UInt256) : (map.getBudget env sorting).2.proposal key =
        if key ∈ map.visited env sorting then
          (map.cleaned env key).setAllotted
            (if key ∈ (map.getBudget env sorting).1 then map.amount key else 0)
        else map.cleaned env key := by
      rw [result, getBudget, if_neg absent]
      exact allotted key
    refine ⟨result, fun key mem => ?_⟩
    have inside : key ∈ map.visited env sorting ↔ env.passes (map.cleaned env key) = true :=
      mem_filter.trans (and_iff_right (perm.mem_iff.mpr mem))
    rw [after]
    by_cases passes : env.passes (map.cleaned env key) = true
    · rw [if_pos (inside.mpr passes), if_pos passes]
      rfl
    · rw [if_neg (fun listed => passes (inside.mp listed)), if_neg passes]
      rfl

end

def reordered (map : ProposalMap) (keys : List UInt256) (perm : keys.Perm map.keys) :
    ProposalMap where
  keys := keys
  proposal := map.proposal
  nodup := perm.nodup_iff.mpr map.nodup

variable {map}

theorem exists_visited {order : List UInt256}
    (ordering : IsOrdering (map.rank env) (map.passing env) order) :
    ∃ (keys : List UInt256) (perm : keys.Perm map.keys),
      (map.reordered keys perm).visited env (.insertion (sortKey map.proposal)) = order := by
  let passes : UInt256 → Bool := fun key => env.passes (map.cleaned env key)
  let pair : UInt256 → UInt256 × Int :=
    fun key => (key, (map.cleaned env key).getYeas - (map.cleaned env key).getNays)
  let keys := order ++ map.keys.filter fun key => !passes key
  have perm : keys.Perm map.keys :=
    (ordering.perm.append_right _).trans (List.filter_append_perm passes map.keys)
  refine ⟨keys, perm, ?_⟩
  -- The insertion sort is stable: the order is a part of what it leaves.
  have stays : (order.map pair).Sublist
      ((keys.map pair).insertionSort fun first second =>
        sortKey map.proposal second ≤ sortKey map.proposal first) := by
    apply List.sublist_insertionSort
    · exact List.pairwise_map.mpr ordering.sorted
    · rw [List.map_append]
      exact List.sublist_append_left _ _
  have inside := ((stays.map Prod.fst).filter passes)
  have whole : ((order.map pair).map Prod.fst).filter passes = order := by
    rw [map_map, show Prod.fst ∘ pair = id from rfl, map_id]
    exact List.filter_eq_self.mpr fun key mem =>
      (mem_filter.mp (ordering.perm.mem_iff.mp mem)).2
  rw [whole] at inside
  have sizes := (isOrdering_visited env (map.reordered keys perm)
    (.insertion (sortKey map.proposal))).perm.length_eq
  have same : ((map.reordered keys perm).passing env).length = order.length :=
    ((perm.filter passes).trans ordering.perm.symm).length_eq
  exact (inside.eq_of_length (same.symm.trans sizes.symm)).symm

/-- What `GetBudget` is for: the proposals that it returns are the greedy choice among the passing
ones, the same for every order of iteration and for every way of sorting, and they alone have
allotments afterwards, their amounts. -/
def IsGreedyAllocation (map : ProposalMap) : Prop :=
  ∃ chosen : List UInt256, ∀ (keys : List UInt256) (perm : keys.Perm map.keys)
    (sorting : DescendingSort (sortKey map.proposal)),
    let result := (map.reordered keys perm).getBudget env sorting
    result.1 = chosen ∧
      (∃ order, IsOrdering (map.rank env) (map.passing env) order ∧
        chosen = greedy map.amount env.nTotalBudget order) ∧
      (chosen.map map.amount).sum ≤ env.nTotalBudget ∧
      ∀ key ∈ map.keys, (result.2.proposal key).nAlloted =
        if key ∈ chosen then map.amount key else 0

/-- The proposals that do not pass have no allotment, no sum with an amount of a passing one leaves
the range of 64 bits, and of two passing ones that agree in their votes and the hashes of their fee
transactions not both fit in what those before them leave. -/
structure HasOneAllocation (map : ProposalMap) : Prop where
  unallotted : ∀ key ∈ map.keys, env.passes (map.cleaned env key) = false →
    (map.proposal key).nAlloted = 0
  room : ∀ order, IsOrdering (map.rank env) (map.passing env) order →
    HasRoom map.amount env.nTotalBudget 0 order
  untied : ∀ front a b back,
    IsOrdering (map.rank env) (map.passing env) (front ++ a :: b :: back) →
    map.rank env a = map.rank env b →
    ¬(map.amount a ≤ env.nTotalBudget - spent map.amount env.nTotalBudget front ∧
      map.amount b ≤ env.nTotalBudget - spent map.amount env.nTotalBudget front)

variable {env} {order : List UInt256}

theorem mem_keys_of_ordering (ordering : IsOrdering (map.rank env) (map.passing env) order)
    {key : UInt256} (mem : key ∈ order) : key ∈ map.keys :=
  List.mem_of_mem_filter (ordering.perm.mem_iff.mp mem)

theorem taken_eq_greedy (positive : ∀ key ∈ map.keys, 0 < map.amount key)
    (ordering : IsOrdering (map.rank env) (map.passing env) order)
    (room : HasRoom map.amount env.nTotalBudget 0 order) :
    taken map.amount env.nTotalBudget 0 order = greedy map.amount env.nTotalBudget order := by
  rw [taken_of_hasRoom (fun key mem => positive key (mem_keys_of_ordering ordering mem))
    (Int.le_refl 0) env.nTotalBudget_nonneg env.nTotalBudget_lt room,
    Int.sub_zero]

/-- **When `GetBudget` is the greedy allocation.** -/
theorem isGreedyAllocation_iff
    (amounts : ∀ key ∈ map.keys, 0 < map.amount key ∧ map.amount key < 2 ^ 63) :
    map.IsGreedyAllocation env ↔ map.HasOneAllocation env := by
  have positive := fun key mem => (amounts key mem).1
  have nodup : (map.passing env).Nodup := map.nodup.filter _
  have nonneg : ∀ key ∈ map.passing env, 0 ≤ map.amount key := fun key mem =>
    Int.le_of_lt (positive key (List.mem_of_mem_filter mem))
  constructor
  · rintro ⟨chosen, greedily⟩
    have always (order : List UInt256)
        (ordering : IsOrdering (map.rank env) (map.passing env) order) :
        taken map.amount env.nTotalBudget 0 order = chosen := by
      obtain ⟨keys, perm, visit⟩ := exists_visited env ordering
      rw [← visit, ← (greedily keys perm (.insertion (sortKey map.proposal))).1]
      exact (getBudget_eq env (map.reordered keys perm) _).1.symm
    obtain ⟨returned, ⟨base, baseOrdering, isGreedy⟩, -, allotted⟩ :=
      greedily map.keys (.refl _) (.insertion (sortKey map.proposal))
    have room (order : List UInt256)
        (ordering : IsOrdering (map.rank env) (map.passing env) order) :
        HasRoom map.amount env.nTotalBudget 0 order := by
      refine hasRoom_of_taken
        (fun key mem => amounts key (mem_keys_of_ordering ordering mem)) (Int.le_refl 0)
        env.nTotalBudget_nonneg env.nTotalBudget_lt fun key mem => ?_
      rw [always order ordering, isGreedy] at mem
      refine amount_le_of_mem_greedy (fun other inside => ?_) mem
      exact nonneg other (baseOrdering.perm.mem_iff.mp inside)
    refine ⟨fun key mem fails => ?_, room, ?_⟩
    · have after := (getBudget_eq env (map.reordered map.keys (.refl _))
        (.insertion (sortKey map.proposal))).2 key mem
      have outside : key ∉ chosen := by
        intro inside
        rw [isGreedy] at inside
        have passes := baseOrdering.perm.mem_iff.mp ((greedy_sublist _ _ _).subset inside)
        exact absurd (mem_filter.mp passes).2 (by rw [fails]; exact Bool.false_ne_true)
      have unchanged := (allotted key mem).symm.trans after
      rw [if_neg outside, if_neg] at unchanged
      · exact unchanged.symm
      · intro passes
        exact Bool.noConfusion (passes.symm.trans fails)
    · refine (greedy_ordering_iff nodup nonneg).mp fun order order' ordering ordering' => ?_
      rw [← taken_eq_greedy positive ordering (room order ordering),
        ← taken_eq_greedy positive ordering' (room order' ordering'), always order ordering,
        always order' ordering']
  · intro one
    have same := (greedy_ordering_iff nodup nonneg).mpr one.untied
    have base := isOrdering_visited env map (.insertion (sortKey map.proposal))
    refine ⟨greedy map.amount env.nTotalBudget
      (map.visited env (.insertion (sortKey map.proposal))), fun keys perm sorting => ?_⟩
    intro result
    have visit := isOrdering_visited env (map.reordered keys perm) sorting
    have ordering : IsOrdering (map.rank env) (map.passing env)
        ((map.reordered keys perm).visited env sorting) :=
      ⟨visit.perm.trans (perm.filter _), visit.sorted⟩
    obtain ⟨returned, allotted⟩ := getBudget_eq env (map.reordered keys perm) sorting
    have isGreedy : result.1 = greedy map.amount env.nTotalBudget
        (map.visited env (.insertion (sortKey map.proposal))) := by
      rw [← same _ _ ordering base, ← taken_eq_greedy positive ordering (one.room _ ordering)]
      exact returned
    refine ⟨isGreedy, ⟨_, base, rfl⟩, spent_le _ env.nTotalBudget_nonneg _, fun key mem => ?_⟩
    rw [← isGreedy]
    refine (allotted key (perm.mem_iff.mpr mem)).trans ?_
    split
    · rfl
    · rename_i fails
      have outside : key ∉ result.1 := by
        rw [isGreedy]
        intro inside
        have passes := base.perm.mem_iff.mp ((greedy_sublist _ _ _).subset inside)
        exact fails (mem_filter.mp passes).2
      rw [if_neg outside]
      exact one.unallotted key mem (Bool.not_eq_true _ ▸ fails)

def sampleVote (masternode : UInt256) : CBudgetVote × Bool :=
  (⟨⟨⟨masternode, 0⟩, [], 0⟩, 0, 1, 0, [], 1⟩, true)

def sampleEnv : GetBudgetEnv := ⟨.sample .main, fun _ => true, 2⟩

def sampleMap (hashes votes : List UInt256) (nAlloted : Int) : ProposalMap where
  keys := hashes.dedup
  proposal _ := ⟨nAlloted, true, 0, 100000, 10 * COIN, 0, 5, votes.map sampleVote⟩
  nodup := hashes.nodup_dedup

theorem isGreedyAllocation_iff_two :
    (sampleMap [1, 2] [7] 0).IsGreedyAllocation sampleEnv ↔
      (sampleMap [1, 2] [7] 0).HasOneAllocation sampleEnv := by
  have positive : 0 < 10 * COIN := by decide
  have small : 10 * COIN < 2 ^ 63 := by decide
  exact isGreedyAllocation_iff fun key _ => ⟨positive, small⟩

/-- A proposal without votes keeps the allotment that it had, and of two proposals with the same
votes and fee transaction the one that is visited first comes first. -/
theorem getBudget_not_greedy :
    ((sampleMap [1] [] (10 * COIN)).getBudget sampleEnv (.insertion _)).1 = [] ∧
      (((sampleMap [1] [] (10 * COIN)).getBudget sampleEnv (.insertion _)).2.proposal 1).nAlloted =
        10 * COIN ∧
      ((sampleMap [1, 2] [7] 0).getBudget sampleEnv (.insertion _)).1 = [1, 2] ∧
      ((sampleMap [2, 1] [7] 0).getBudget sampleEnv (.insertion _)).1 = [2, 1] :=
  ⟨by decide, by decide, by decide, by decide⟩

end ProposalMap

end DogeCash
