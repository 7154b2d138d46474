import DogeCash.Foundation.Ranks
import DogeCash.Foundation.Run
import DogeCash.Foundation.Writes
import DogeCash.Primitives.Compact
import DogeCash.Primitives.Transaction

/-! # Masternode ranks

`GetMasternodeRank` orders the eligible masternodes by a score they get from a block
hash. The hash comes through a cache by height that nothing clears when blocks are
disconnected, and the scores are compared in their compact form. Nodes on one chain
therefore agree as long as no cached block was disconnected, no negative height was
asked for and the compact forms are distinct (`getMasternodeRank_of_runs`).
-/

namespace DogeCash

open UInt256 (getCompact)

/-- `MN_WINNER_MINIMUM_AGE` -/
def mnWinnerMinimumAge : Int := 8000

/-- `CMasternode`, as far as its rank depends on it. `isEnabled` is what `IsEnabled`
returns after `Check`. -/
structure RankedMasternode where
  prevout : COutPoint
  protocolVersion : Int
  sigTime : Int
  isEnabled : Bool
  deriving DecidableEq

/-- What ranking reads besides the chain and the masternodes: the hashes of the hash
writers, the sorting, the payment spork and the clock. -/
structure RankEnv where
  hashOf : UInt256 → UInt256
  hashOfPair : UInt256 → UInt256 → UInt256
  /-- `std::sort` on the pairs of scores and masternodes. -/
  sorting : DescendingSort (Prod.fst : Nat × COutPoint → Nat)
  isPaymentEnforced : Bool
  getAdjustedTime : Int

/-- The active chain, by its block hashes from the tip, and `mapCacheBlockHashes`. -/
structure HashCache where
  chain : List UInt256
  cached : Int → Option UInt256

namespace HashCache

def tipHeight (chain : List UInt256) : Int := (chain.length : Int) - 1

/-- The loop of `GetBlockHash`, which stops before the genesis block. -/
def readBack (nBlocksAgo : Int) : Int → List UInt256 → Option UInt256
  | _, [] => none
  | _, [_] => none
  | n, hash :: pprev :: older =>
    if nBlocksAgo ≤ n then some hash else readBack nBlocksAgo (n + 1) (pprev :: older)

/-- The part of `GetBlockHash` that reads the active chain. -/
def readChain (chain : List UInt256) (nBlockHeight : Int) : Option UInt256 :=
  if tipHeight chain = 0 ∨ tipHeight chain + 1 < nBlockHeight then none
  else
    let nBlocksAgo := if 0 < nBlockHeight then tipHeight chain + 1 - nBlockHeight else 0
    readBack nBlocksAgo 0 chain

/-- The height `GetBlockHash` looks for: 0 stands for that of the tip. -/
def resolve (chain : List UInt256) (nBlockHeight : Int) : Int :=
  if nBlockHeight = 0 then tipHeight chain else nBlockHeight

/-- `GetBlockHash`, with the state after it. -/
def getBlockHash (state : HashCache) (nBlockHeight : Int) : Option UInt256 × HashCache :=
  if state.chain = [] then (none, state)
  else
    match state.cached (resolve state.chain nBlockHeight) with
    | some hash => (some hash, state)
    | none =>
      match readChain state.chain (resolve state.chain nBlockHeight) with
      | some hash =>
        (some hash, { state with
          cached := Function.update state.cached (resolve state.chain nBlockHeight) (some hash) })
      | none => (none, state)

end HashCache

namespace RankedMasternode

variable (env : RankEnv)

/-- The score of `CalculateScore`, once the block hash is known. -/
def score (hash : UInt256) (mn : RankedMasternode) : UInt256 :=
  let aux := mn.prevout.hash + BitVec.ofNat 256 mn.prevout.n.toNat
  let hash2 := env.hashOf hash
  let hash3 := env.hashOfPair hash aux
  if hash2 < hash3 then hash3 - hash2 else hash2 - hash3

def calculateScore (mn : RankedMasternode) (state : HashCache) (nBlockHeight : Int) :
    UInt256 × HashCache :=
  if state.chain = [] then (0, state)
  else
    match state.getBlockHash nBlockHeight with
    | (some hash, after) => (mn.score env hash, after)
    | (none, after) => (0, after)

/-- The masternode is not skipped by `GetMasternodeRank`. -/
def isEligible (minProtocol : Int) (fOnlyActive : Bool) (mn : RankedMasternode) : Bool :=
  minProtocol ≤ mn.protocolVersion &&
    !(env.isPaymentEnforced && env.getAdjustedTime - mn.sigTime < mnWinnerMinimumAge) &&
    (!fOnlyActive || mn.isEnabled)

/-- The pairs of compact scores and masternodes that `GetMasternodeRank` sorts. -/
def scorePairs (minProtocol : Int) (fOnlyActive : Bool) (nBlockHeight : Int) :
    List RankedMasternode → HashCache → List (Nat × COutPoint) × HashCache
  | [], state => ([], state)
  | mn :: rest, state =>
    if mn.isEligible env minProtocol fOnlyActive then
      let (n, scored) := mn.calculateScore env state nBlockHeight
      let (later, after) := scorePairs minProtocol fOnlyActive nBlockHeight rest scored
      ((getCompact n false, mn.prevout) :: later, after)
    else scorePairs minProtocol fOnlyActive nBlockHeight rest state

def getMasternodeRank (vMasternodes : List RankedMasternode) (state : HashCache)
    (vin : COutPoint) (nBlockHeight minProtocol : Int) (fOnlyActive : Bool) : Int × HashCache :=
  match state.getBlockHash nBlockHeight with
  | (none, after) => (-1, after)
  | (some _, known) =>
    let (vecMasternodeScores, after) :=
      scorePairs env minProtocol fOnlyActive nBlockHeight vMasternodes known
    match placeOf (fun pair => pair.2 = vin) (env.sorting.sort vecMasternodeScores) with
    | some rank => (rank, after)
    | none => (-1, after)

end RankedMasternode

/-! ## Histories of the cache -/

namespace HashCache

/-- What happens to the active chain and the cache. -/
inductive Event where
  | connect (hash : UInt256)
  | disconnect
  | getBlockHash (height : Int)

def start (genesis : UInt256) : HashCache := ⟨[genesis], fun _ => none⟩

/-- Blocks are put on top of the chain or taken from it, without a change to the cache.
The genesis block stays. -/
def step : Event → HashCache → Option HashCache
  | .connect hash, state => some { state with chain := hash :: state.chain }
  | .disconnect, state =>
    match state.chain with
    | _ :: pprev :: older => some { state with chain := pprev :: older }
    | _ => none
  | .getBlockHash height, state => some (state.getBlockHash height).2

/-- No block is disconnected whose hash is cached, and no negative height, which stands
for the tip of the moment, is asked for. -/
def Undisturbed (state : HashCache) : Event → Prop
  | .connect _ => True
  | .disconnect => state.cached (tipHeight state.chain + 1) = none
  | .getBlockHash height => 0 ≤ height

instance (state : HashCache) : (event : Event) → Decidable (state.Undisturbed event)
  | .connect _ => inferInstanceAs (Decidable True)
  | .disconnect => inferInstanceAs (Decidable (_ = none))
  | .getBlockHash height => inferInstanceAs (Decidable (0 ≤ height))

def hashOnChain (chain : List UInt256) (height : Int) : Option UInt256 :=
  if chain = [] then none else readChain chain (resolve chain height)

/-- Every cached hash is that of the block on the active chain. -/
def Fresh (state : HashCache) : Prop :=
  ∀ key hash, state.cached key = some hash → 0 < key ∧ readChain state.chain key = some hash

theorem start_fresh (genesis : UInt256) : (start genesis).Fresh := by
  intro key hash held
  cases held

theorem readBack_succ (nBlocksAgo n : Int) (chain : List UInt256) :
    readBack (nBlocksAgo + 1) (n + 1) chain = readBack nBlocksAgo n chain := by
  induction chain generalizing n with
  | nil => rfl
  | cons hash rest ih =>
    cases rest with
    | nil => rfl
    | cons pprev older =>
      simp only [readBack, add_le_add_iff_right]
      rw [ih (n + 1)]

variable {hash : UInt256} {chain : List UInt256} {state : HashCache}

variable {key : Int} {height : Int}

theorem readChain_cons (positive : 0 < key) (below : key ≤ tipHeight chain + 1) :
    readChain (hash :: chain) key = readChain chain key := by
  have length : tipHeight (hash :: chain) = tipHeight chain + 1 := by
    simp only [tipHeight, List.length_cons]
    omega
  have shift : ∀ nBlocksAgo, 0 ≤ nBlocksAgo →
      readBack (nBlocksAgo + 1) 0 (hash :: chain) = readBack nBlocksAgo 0 chain := by
    intro nBlocksAgo nonneg
    cases chain with
    | nil => rfl
    | cons pprev older =>
      rw [readBack, if_neg (by omega)]
      exact readBack_succ nBlocksAgo 0 (pprev :: older)
  have whole := shift (tipHeight chain + 1 - key) (by omega)
  rw [show tipHeight chain + 1 - key + 1 = tipHeight chain + 1 + 1 - key by omega] at whole
  simp only [readChain, length, positive, ↓reduceIte, whole]
  by_cases ground : tipHeight chain = 0
  · rw [if_neg (by omega), if_pos (.inl ground)]
    -- A chain of the genesis block alone gives no hash.
    cases chain with
    | nil => rfl
    | cons genesis rest =>
      have alone : rest = [] := by
        apply List.length_eq_zero_iff.mp
        simp only [tipHeight, List.length_cons] at ground
        omega
      rw [alone]
      rfl
  · rw [if_neg (by omega), if_neg (by omega)]

theorem le_of_readChain (found : readChain chain key = some hash) :
    tipHeight chain ≠ 0 ∧ key ≤ tipHeight chain + 1 := by
  unfold readChain at found
  split_ifs at found with refused
  all_goals omega

theorem getBlockHash_cases (state : HashCache) (height : Int) :
    (∃ hash, state.chain ≠ [] ∧ state.cached (resolve state.chain height) = some hash ∧
      state.getBlockHash height = (some hash, state)) ∨
    (∃ hash, state.chain ≠ [] ∧ readChain state.chain (resolve state.chain height) = some hash ∧
      state.getBlockHash height = (some hash, { state with
        cached := Function.update state.cached (resolve state.chain height) (some hash) })) ∨
    (hashOnChain state.chain height = none ∧ state.getBlockHash height = (none, state)) := by
  unfold getBlockHash hashOnChain
  by_cases empty : state.chain = []
  · exact .inr (.inr ⟨if_pos empty, if_pos empty⟩)
  · rw [if_neg empty, if_neg empty]
    cases held : state.cached (resolve state.chain height) with
    | some hash => exact .inl ⟨hash, empty, rfl, rfl⟩
    | none =>
      cases found : readChain state.chain (resolve state.chain height) with
      | some hash => exact .inr (.inl ⟨hash, empty, rfl, rfl⟩)
      | none => exact .inr (.inr ⟨rfl, rfl⟩)

theorem getBlockHash_of_fresh (fresh : state.Fresh) (height : Int) :
    (state.getBlockHash height).1 = hashOnChain state.chain height := by
  rcases state.getBlockHash_cases height with ⟨hash, nonempty, held, answered⟩ |
    ⟨hash, nonempty, found, answered⟩ | ⟨missing, answered⟩
  · rw [answered, hashOnChain, if_neg nonempty, (fresh _ hash held).2]
  · rw [answered, hashOnChain, if_neg nonempty, found]
  · rw [answered, missing]

theorem getBlockHash_fresh (fresh : state.Fresh) (nonneg : 0 ≤ height) :
    (state.getBlockHash height).2.Fresh := by
  rcases state.getBlockHash_cases height with ⟨hash, nonempty, -, answered⟩ |
    ⟨hash, nonempty, found, answered⟩ | ⟨missing, answered⟩
  · rw [answered]
    exact fresh
  · rw [answered]
    refine forall_update_some ⟨?_, found⟩ fun key other _ => fresh key other
    have high := (le_of_readChain found).1
    have long : 0 < state.chain.length := List.length_pos_of_ne_nil nonempty
    unfold resolve
    unfold tipHeight at high ⊢
    split_ifs <;> omega
  · rw [answered]
    exact fresh

theorem disconnect_fresh {tip : UInt256} {cached : Int → Option UInt256}
    (fresh : Fresh ⟨tip :: chain, cached⟩) (uncached : cached (tipHeight (tip :: chain) + 1) = none)
    :
    Fresh ⟨chain, cached⟩ := by
  intro key hash held
  obtain ⟨positive, found⟩ := fresh key hash held
  have below : key ≤ tipHeight (tip :: chain) + 1 := (le_of_readChain found).2
  have other : key ≠ tipHeight (tip :: chain) + 1 := by
    rintro rfl
    have stored : cached (tipHeight (tip :: chain) + 1) = some hash := held
    rw [uncached] at stored
    cases stored
  have length : tipHeight (tip :: chain) = tipHeight chain + 1 := by
    simp only [tipHeight, List.length_cons]
    omega
  have same : readChain (tip :: chain) key = readChain chain key :=
    readChain_cons positive (by omega)
  exact ⟨positive, same.symm.trans found⟩

theorem step_fresh {state next : HashCache} {event : Event}
    (undisturbed : state.Undisturbed event) (fresh : state.Fresh)
    (stepped : step event state = some next) : next.Fresh := by
  cases event with
  | connect added =>
    cases stepped
    intro key hash held
    obtain ⟨positive, found⟩ := fresh key hash held
    have below := (le_of_readChain found).2
    exact ⟨positive, (readChain_cons positive below).trans found⟩
  | disconnect =>
    obtain ⟨chain, cached⟩ := state
    match chain, stepped with
    | tip :: pprev :: older, rfl => exact disconnect_fresh fresh undisturbed
  | getBlockHash height =>
    cases stepped
    exact getBlockHash_fresh fresh undisturbed

theorem fresh_of_run {genesis : UInt256} {events : List Event}
    (undisturbed : RunMeets step Undisturbed events (start genesis))
    (runs : run step events (start genesis) = some state) : state.Fresh := by
  apply undisturbed.invariant Fresh ?_ runs (start_fresh genesis)
  intro event before after condition fresh stepped
  exact step_fresh condition fresh stepped

theorem getBlockHash_again {state known : HashCache}
    (answered : state.getBlockHash height = (some hash, known)) :
    known.getBlockHash height = (some hash, known) := by
  rcases state.getBlockHash_cases height with ⟨other, nonempty, -, result⟩ |
    ⟨other, nonempty, found, result⟩ | ⟨missing, result⟩
  · rw [result] at answered
    cases answered
    exact result
  · rw [result] at answered
    cases answered
    unfold getBlockHash
    rw [if_neg nonempty]
    simp
  · rw [result] at answered
    cases answered

end HashCache

/-! ## Ranks on a chain -/

/-- The masternodes a node knows: `CMasternodeMan::Add` takes an outpoint once. -/
structure MasternodeList where
  entries : List RankedMasternode
  nodup : (entries.map RankedMasternode.prevout).Nodup

namespace RankedMasternode

variable (env : RankEnv) (minProtocol : Int) (fOnlyActive : Bool)

def eligible (vMasternodes : List RankedMasternode) : List RankedMasternode :=
  vMasternodes.filter (isEligible env minProtocol fOnlyActive)

/-- The rank of a masternode on a chain: one more than the number of eligible masternodes
with a greater score. -/
def rankOnChain (vMasternodes : List RankedMasternode) (chain : List UInt256) (vin : COutPoint)
    (nBlockHeight : Int) : Int :=
  match HashCache.hashOnChain chain nBlockHeight with
  | none => -1
  | some hash =>
    match (eligible env minProtocol fOnlyActive vMasternodes).find? fun mn =>
      mn.prevout = vin with
    | none => -1
    | some mn =>
      1 + (eligible env minProtocol fOnlyActive vMasternodes).countP fun other =>
        mn.score env hash < other.score env hash

/-- The compact forms of the scores of eligible masternodes are distinct. -/
def CompactDistinct (vMasternodes : List RankedMasternode) (chain : List UInt256)
    (nBlockHeight : Int) : Prop :=
  ∀ hash, HashCache.hashOnChain chain nBlockHeight = some hash →
    ((eligible env minProtocol fOnlyActive vMasternodes).map fun mn =>
      getCompact (mn.score env hash) false).Nodup

variable {env minProtocol fOnlyActive}

def scorePair (env : RankEnv) (hash : UInt256) (mn : RankedMasternode) : Nat × COutPoint :=
  (getCompact (mn.score env hash) false, mn.prevout)

variable {nBlockHeight : Int} {hash : UInt256}

theorem scorePairs_eq {known : HashCache}
    (answered : known.getBlockHash nBlockHeight = (some hash, known))
    (vMasternodes : List RankedMasternode) :
    scorePairs env minProtocol fOnlyActive nBlockHeight vMasternodes known =
      ((eligible env minProtocol fOnlyActive vMasternodes).map (scorePair env hash), known) := by
  have nonempty : known.chain ≠ [] := by
    intro empty
    rw [HashCache.getBlockHash, if_pos empty] at answered
    cases answered
  have scored : ∀ mn : RankedMasternode,
      mn.calculateScore env known nBlockHeight = (mn.score env hash, known) := by
    intro mn
    rw [calculateScore, if_neg nonempty, answered]
  induction vMasternodes with
  | nil => rfl
  | cons mn rest ih =>
    rw [scorePairs, eligible, List.filter_cons]
    by_cases counted : isEligible env minProtocol fOnlyActive mn = true
    · rw [if_pos counted, if_pos counted, scored]
      simp only [ih, List.map_cons]
      rfl
    · rw [if_neg counted, if_neg counted, ih]
      rfl

variable {vin : COutPoint} {mn : RankedMasternode} {candidates : List RankedMasternode}

theorem find?_eq_some_iff {masternodes : List RankedMasternode}
    (nodup : (masternodes.map prevout).Nodup) :
    (masternodes.find? fun other => other.prevout = vin) = some mn ↔
      mn ∈ masternodes ∧ mn.prevout = vin := by
  constructor
  · intro found
    exact ⟨List.mem_of_find?_eq_some found, by simpa using List.find?_some found⟩
  · rintro ⟨mem, named⟩
    cases found : masternodes.find? fun other => other.prevout = vin with
    | none =>
      have absent := List.find?_eq_none.mp found mn mem
      simp only [named, decide_true, not_true_eq_false] at absent
    | some other =>
      have same : other.prevout = vin := by simpa using List.find?_some found
      have equal := List.inj_on_of_nodup_map nodup (List.mem_of_find?_eq_some found) mem
        (same.trans named.symm)
      rw [equal]

theorem eligible_nodup (masternodes : MasternodeList) :
    ((eligible env minProtocol fOnlyActive masternodes.entries).map prevout).Nodup :=
  masternodes.nodup.sublist (List.filter_sublist.map _)

theorem countP_compact_eq
    (compact : (candidates.map fun mn => getCompact (mn.score env hash) false).Nodup)
    (mem : mn ∈ candidates) :
    (candidates.map (scorePair env hash)).countP (fun pair => (scorePair env hash mn).1 < pair.1) =
      candidates.countP fun other => mn.score env hash < other.score env hash := by
  rw [List.countP_map]
  apply List.countP_congr
  intro other inside
  simp only [Function.comp_apply, decide_eq_true_eq]
  by_cases same : other = mn
  · subst same
    exact iff_of_false (Nat.lt_irrefl _) (BitVec.lt_irrefl _)
  · apply UInt256.getCompact_lt_iff
    intro equal
    exact same (List.inj_on_of_nodup_map compact inside mem equal.symm)

theorem placeOf_scorePair (prevouts : (candidates.map prevout).Nodup)
    (compact : (candidates.map fun mn => getCompact (mn.score env hash) false).Nodup) :
    placeOf (fun pair => pair.2 = vin) (env.sorting.sort (candidates.map (scorePair env hash))) =
      (candidates.find? fun mn => mn.prevout = vin).map fun mn =>
        1 + candidates.countP fun other => mn.score env hash < other.score env hash := by
  cases located : candidates.find? fun mn => mn.prevout = vin with
  | none =>
    apply placeOf_eq_none_iff.mpr
    intro pair mem
    obtain ⟨mn, inside, rfl⟩ := List.mem_map.mp ((env.sorting.perm _).mem_iff.mp mem)
    have other : ¬mn.prevout = vin := by simpa using List.find?_eq_none.mp located mn inside
    exact decide_eq_false other
  | some mn =>
    obtain ⟨mem, named⟩ := (find?_eq_some_iff prevouts).mp located
    rw [Option.map_some, ← countP_compact_eq compact mem]
    apply env.sorting.placeOf_sort
    · rw [List.map_map]
      exact compact
    · exact List.mem_map_of_mem mem
    · intro pair inside
      obtain ⟨other, present, rfl⟩ := List.mem_map.mp inside
      simp only [decide_eq_true_eq]
      constructor
      · intro same
        rw [List.inj_on_of_nodup_map prevouts present mem (same.trans named.symm)]
      · intro same
        exact (congrArg Prod.snd same).trans named

theorem getMasternodeRank_of_fresh (masternodes : MasternodeList) {state : HashCache}
    (fresh : state.Fresh) (vin : COutPoint)
    (distinct : CompactDistinct env minProtocol fOnlyActive masternodes.entries state.chain
      nBlockHeight) :
    (getMasternodeRank env masternodes.entries state vin nBlockHeight minProtocol fOnlyActive).1 =
      rankOnChain env minProtocol fOnlyActive masternodes.entries state.chain vin
        nBlockHeight := by
  have answer := HashCache.getBlockHash_of_fresh fresh nBlockHeight
  rw [getMasternodeRank, rankOnChain, ← answer]
  rcases answered : state.getBlockHash nBlockHeight with ⟨found, known⟩
  cases found with
  | none => rfl
  | some hash =>
    rw [answered] at answer
    have compact := distinct hash answer.symm
    simp only [scorePairs_eq (HashCache.getBlockHash_again answered),
      placeOf_scorePair (eligible_nodup masternodes) compact]
    cases (eligible env minProtocol fOnlyActive masternodes.entries).find? fun mn =>
        mn.prevout = vin with
    | none => rfl
    | some mn => simp

theorem rankOnChain_perm {first second : MasternodeList}
    (same : first.entries.Perm second.entries) (chain : List UInt256) (vin : COutPoint)
    (nBlockHeight : Int) :
    rankOnChain env minProtocol fOnlyActive first.entries chain vin nBlockHeight =
      rankOnChain env minProtocol fOnlyActive second.entries chain vin nBlockHeight := by
  have perm : (eligible env minProtocol fOnlyActive first.entries).Perm
      (eligible env minProtocol fOnlyActive second.entries) := same.filter _
  have located : ((eligible env minProtocol fOnlyActive first.entries).find? fun mn =>
      mn.prevout = vin) = (eligible env minProtocol fOnlyActive second.entries).find? fun mn =>
      mn.prevout = vin := by
    apply Option.ext
    intro mn
    rw [find?_eq_some_iff (eligible_nodup first), find?_eq_some_iff (eligible_nodup second),
      perm.mem_iff]
  unfold rankOnChain
  cases HashCache.hashOnChain chain nBlockHeight with
  | none => rfl
  | some hash => simp only [located, perm.countP_eq]

theorem compactDistinct_perm {first second : List RankedMasternode} (same : first.Perm second)
    {chain : List UInt256}
    (distinct : CompactDistinct env minProtocol fOnlyActive first chain nBlockHeight) :
    CompactDistinct env minProtocol fOnlyActive second chain nBlockHeight := by
  intro hash found
  have perm : (eligible env minProtocol fOnlyActive first).Perm
      (eligible env minProtocol fOnlyActive second) := same.filter _
  exact (perm.map _).nodup_iff.mp (distinct hash found)

/-- **Agreement on ranks.** Two nodes with the same masternodes that came to one chain by
undisturbed histories give every masternode the rank of the chain, if the compact scores
are distinct. -/
theorem getMasternodeRank_of_runs (env : RankEnv) (firstList secondList : MasternodeList)
    (sameMasternodes : firstList.entries.Perm secondList.entries) (genesis : UInt256)
    (firstEvents secondEvents : List HashCache.Event) (first second : HashCache)
    (firstRuns : run HashCache.step firstEvents (.start genesis) = some first)
    (secondRuns : run HashCache.step secondEvents (.start genesis) = some second)
    (firstMeets : RunMeets HashCache.step HashCache.Undisturbed firstEvents (.start genesis))
    (secondMeets : RunMeets HashCache.step HashCache.Undisturbed secondEvents (.start genesis))
    (sameChain : first.chain = second.chain) (vin : COutPoint) (nBlockHeight minProtocol : Int)
    (fOnlyActive : Bool)
    (distinct : CompactDistinct env minProtocol fOnlyActive firstList.entries first.chain
      nBlockHeight) :
    (getMasternodeRank env firstList.entries first vin nBlockHeight minProtocol fOnlyActive).1 =
        rankOnChain env minProtocol fOnlyActive firstList.entries first.chain vin nBlockHeight ∧
      (getMasternodeRank env secondList.entries second vin nBlockHeight minProtocol
          fOnlyActive).1 =
        rankOnChain env minProtocol fOnlyActive firstList.entries first.chain vin
          nBlockHeight := by
  constructor
  · exact getMasternodeRank_of_fresh firstList (HashCache.fresh_of_run firstMeets firstRuns) vin
      distinct
  · have secondDistinct := compactDistinct_perm sameMasternodes distinct
    rw [sameChain] at secondDistinct
    rw [getMasternodeRank_of_fresh secondList (HashCache.fresh_of_run secondMeets secondRuns) vin
      secondDistinct, sameChain]
    exact (rankOnChain_perm sameMasternodes second.chain vin nBlockHeight).symm

/-- Hashes by which a block orders the masternodes. -/
def sampleEnv : RankEnv where
  hashOf _ := 0
  hashOfPair hash aux := hash ^^^ aux
  sorting := .insertion _
  isPaymentEnforced := false
  getAdjustedTime := 1600000000

def sampleList : MasternodeList where
  entries := [⟨⟨1, 0⟩, 70920, 1590000000, true⟩, ⟨⟨2, 0⟩, 70920, 1590000000, true⟩]
  nodup := by decide

theorem getMasternodeRank_of_runs_sample :
    (getMasternodeRank sampleEnv sampleList.entries ⟨[3, 10, 9], fun _ => none⟩ ⟨1, 0⟩ 3 70920
        true).1 = rankOnChain sampleEnv 70920 true sampleList.entries [3, 10, 9] ⟨1, 0⟩ 3 := by
  have distinct : CompactDistinct sampleEnv 70920 true sampleList.entries [3, 10, 9] 3 := by
    intro hash found
    cases found
    decide
  exact (getMasternodeRank_of_runs sampleEnv sampleList sampleList (List.Perm.refl _) 9
    [.connect 10, .connect 0, .disconnect, .connect 3] [.connect 10, .connect 3]
    ⟨[3, 10, 9], fun _ => none⟩ ⟨[3, 10, 9], fun _ => none⟩ rfl rfl (by decide) (by decide) rfl
    ⟨1, 0⟩ 3 70920 true distinct).1

/-- One node asked for the hash of a block that was disconnected afterwards. It ranks the
masternodes by that block, on the chain on which the other node ranks them by its own. -/
theorem getMasternodeRank_ne_of_reorganisation :
    ((run HashCache.step [.connect 10, .connect 0, .getBlockHash 3, .disconnect, .connect 3]
        (.start 9)).map HashCache.chain = some [3, 10, 9] ∧
      (run HashCache.step [.connect 10, .connect 3] (.start 9)).map HashCache.chain =
        some [3, 10, 9]) ∧
    (sampleList.entries.map (score sampleEnv 3)).Nodup ∧
    (run HashCache.step [.connect 10, .connect 0, .getBlockHash 3, .disconnect, .connect 3]
        (.start 9)).map (fun state =>
      (getMasternodeRank sampleEnv sampleList.entries state ⟨1, 0⟩ 3 70920 true).1) = some 2 ∧
    (run HashCache.step [.connect 10, .connect 3] (.start 9)).map (fun state =>
      (getMasternodeRank sampleEnv sampleList.entries state ⟨1, 0⟩ 3 70920 true).1) = some 1 := by
  refine ⟨⟨?_, ?_⟩, ?_, ?_, ?_⟩
  · rfl
  · rfl
  · decide
  · decide
  · decide

end RankedMasternode

end DogeCash
