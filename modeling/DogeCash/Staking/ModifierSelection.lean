import DogeCash.Staking.Modifier

/-! # The blocks that a stake modifier draws

Where a new modifier is generated, each round of `ComputeNextStakeModifier` draws one of the
candidates: the one with the least selection hash of those up to its stop time that are not yet
drawn, or where there is none the first that is not. A round always finds one, since fewer are
drawn than there are candidates: the rounds never fail, and they draw distinct blocks of the chain.
-/

namespace DogeCash

open List (length_map map_cons mem_cons mem_cons_self mem_map)

/-- A chain of index entries, listed from its tip. `mapBlockIndex` has one entry for a hash. -/
structure IndexedChain where
  entries : List StakeEntry
  distinct : (entries.map fun entry => entry.hash).Nodup

namespace StakeProcess

/-- What `vSortedByTimestamp` has of an entry. -/
def sortKey (entry : StakeEntry) : Int × UInt256 := (entry.getBlockTime, entry.hash)

def notLater (first second : StakeEntry) : Bool :=
  first.getBlockTime < second.getBlockTime ||
    first.getBlockTime = second.getBlockTime && first.hash ≤ second.hash

def candidatesInOrder (chain : List StakeEntry) (nSelectionIntervalStart : Int) : List StakeEntry :=
  (chain.takeWhile fun entry =>
    nSelectionIntervalStart ≤ entry.getBlockTime).reverse.mergeSort notLater

def undrawn (selected : List UInt256) (candidates : List StakeEntry) : List StakeEntry :=
  candidates.filter fun entry => entry.hash ∉ selected

def inTime (selected : List UInt256) (nSelectionIntervalStop : Int)
    (candidates : List StakeEntry) : List StakeEntry :=
  undrawn selected (candidates.takeWhile fun entry => entry.getBlockTime ≤ nSelectionIntervalStop)

/-- What a round is to draw: of the candidates in time the one with the least value, and where
there is none the first that is not drawn. -/
def Draws (value : StakeEntry → UInt256) (selected : List UInt256) (nSelectionIntervalStop : Int)
    (candidates : List StakeEntry) (drawn : StakeEntry) : Prop :=
  drawn ∈ undrawn selected candidates ∧
    if inTime selected nSelectionIntervalStop candidates = [] then
      (undrawn selected candidates).head? = some drawn
    else
      drawn ∈ inTime selected nSelectionIntervalStop candidates ∧
        ∀ other ∈ inTime selected nSelectionIntervalStop candidates, value drawn ≤ value other

/-- `fModifierV2`, which the first candidate decides. -/
def firstModifierV2 (params : ChainParams) (candidates : List StakeEntry) : Bool :=
  match candidates with
  | [] => false
  | entry :: _ => params.nModifierUpdateBlock ≤ entry.nHeight

section Loop

variable {params : ChainParams} {hashOf : UInt256 → UInt64 → UInt256} {process : StakeProcess}
  {chain : List StakeEntry} {selected : List UInt256} {stop : Int} {prev : UInt64}
  {fModifierV2 : Bool}

variable {entry : StakeEntry} {rest : List StakeEntry} {candidates : List StakeEntry}

theorem undrawn_cons_of_mem (drawn : entry.hash ∈ selected) :
    undrawn selected (entry :: rest) = undrawn selected rest := by
  apply List.filter_cons_of_neg
  simp [drawn]

theorem undrawn_cons_of_not_mem (free : entry.hash ∉ selected) :
    undrawn selected (entry :: rest) = entry :: undrawn selected rest := by
  apply List.filter_cons_of_pos
  simp [free]

theorem inTime_cons_of_late (late : stop < entry.getBlockTime) :
    inTime selected stop (entry :: rest) = [] := by
  rw [inTime, List.takeWhile_cons_of_neg (by simpa using late)]
  rfl

theorem inTime_cons_of_early (early : entry.getBlockTime ≤ stop) (free : entry.hash ∉ selected) :
    inTime selected stop (entry :: rest) = entry :: inTime selected stop rest := by
  rw [inTime, List.takeWhile_cons_of_pos (by simpa using early), undrawn_cons_of_not_mem free]
  rfl

theorem inTime_cons_of_mem (early : entry.getBlockTime ≤ stop) (drawn : entry.hash ∈ selected) :
    inTime selected stop (entry :: rest) = inTime selected stop rest := by
  rw [inTime, List.takeWhile_cons_of_pos (by simpa using early), undrawn_cons_of_mem drawn]
  rfl

variable (params hashOf selected stop prev fModifierV2) in
/-- Once an entry is selected, the loop keeps the least of it and of those in time. -/
theorem selectLoop_best
    (resolved : ∀ entry ∈ candidates, process.mapBlockIndex chain entry.hash = some entry)
    (best : StakeEntry) :
    ∃ drawn, selectLoop params hashOf process chain selected stop prev (some fModifierV2)
        (some (hashSelection hashOf fModifierV2 prev best, best)) (candidates.map sortKey) =
          some (some (hashSelection hashOf fModifierV2 prev drawn, drawn)) ∧
      (drawn = best ∨ drawn ∈ inTime selected stop candidates) ∧
      hashSelection hashOf fModifierV2 prev drawn ≤ hashSelection hashOf fModifierV2 prev best ∧
      ∀ other ∈ inTime selected stop candidates,
        hashSelection hashOf fModifierV2 prev drawn ≤
          hashSelection hashOf fModifierV2 prev other := by
  induction candidates generalizing best with
  | nil => exact ⟨best, rfl, .inl rfl, BitVec.le_refl _, fun other mem => by cases mem⟩
  | cons entry rest ih =>
    have here := resolved entry mem_cons_self
    have later := ih fun other mem => resolved other (List.mem_cons_of_mem _ mem)
    rw [map_cons, sortKey, selectLoop, here]
    rcases Int.lt_or_le stop entry.getBlockTime with late | early
    · -- The first candidate that is later ends the loop.
      refine ⟨best, ?_, .inl rfl, BitVec.le_refl _, ?_⟩
      · simp [late]
      · rw [inTime_cons_of_late late]
        exact fun other mem => by cases mem
    · have stays : ¬stop < entry.getBlockTime := Int.not_lt.mpr early
      simp only [stays, decide_false, Bool.and_false, Bool.false_eq_true, ↓reduceIte,
        Option.getD_some]
      by_cases drawn : entry.hash ∈ selected
      · rw [if_pos drawn, inTime_cons_of_mem early drawn]
        exact later best
      · rw [if_neg drawn, inTime_cons_of_early early drawn]
        by_cases better : hashSelection hashOf fModifierV2 prev entry <
            hashSelection hashOf fModifierV2 prev best
        · rw [if_pos better]
          obtain ⟨chosen, runs, origin, below, least⟩ := later entry
          refine ⟨chosen, runs, .inr ?_, BitVec.le_trans below (BitVec.le_of_lt better), ?_⟩
          · rw [mem_cons]
            exact origin
          · intro other mem
            rcases mem_cons.mp mem with same | mem
            · rw [same]
              exact below
            · exact least other mem
        · rw [if_neg better]
          obtain ⟨chosen, runs, origin, below, least⟩ := later best
          refine ⟨chosen, runs, origin.imp_right (List.mem_cons_of_mem _), below, ?_⟩
          intro other mem
          rcases mem_cons.mp mem with same | mem
          · rw [same]
            exact BitVec.le_trans below (BitVec.not_lt.mp better)
          · exact least other mem

theorem inTime_of_late (late : ∀ entry ∈ candidates, stop < entry.getBlockTime) :
    inTime selected stop candidates = [] := by
  cases candidates with
  | nil => rfl
  | cons entry rest => exact inTime_cons_of_late (late entry mem_cons_self)

theorem mem_undrawn_of_mem_inTime (mem : entry ∈ inTime selected stop candidates) :
    entry ∈ undrawn selected candidates :=
  ((List.takeWhile_sublist _).filter _).subset mem

variable (params hashOf stop prev fModifierV2) in
theorem selectLoop_draws
    (sorted : candidates.Pairwise fun first second => first.getBlockTime ≤ second.getBlockTime)
    (resolved : ∀ entry ∈ candidates, process.mapBlockIndex chain entry.hash = some entry)
    (left : undrawn selected candidates ≠ []) :
    ∃ drawn, selectLoop params hashOf process chain selected stop prev (some fModifierV2) none
        (candidates.map sortKey) =
          some (some (hashSelection hashOf fModifierV2 prev drawn, drawn)) ∧
      Draws (hashSelection hashOf fModifierV2 prev) selected stop candidates drawn := by
  induction candidates with
  | nil => exact absurd rfl left
  | cons entry rest ih =>
    have here := resolved entry mem_cons_self
    have others : ∀ other ∈ rest, process.mapBlockIndex chain other.hash = some other :=
      fun other mem => resolved other (List.mem_cons_of_mem _ mem)
    obtain ⟨earliest, sortedRest⟩ := List.pairwise_cons.mp sorted
    have noneLeft (late : stop < entry.getBlockTime) : inTime selected stop rest = [] :=
      inTime_of_late fun other mem => Int.lt_of_lt_of_le late (earliest other mem)
    rw [map_cons, sortKey, selectLoop, here]
    simp only [Option.isSome_none, Bool.false_and, Bool.false_eq_true, ↓reduceIte, Option.getD_some]
    by_cases drawn : entry.hash ∈ selected
    · have same : inTime selected stop (entry :: rest) = inTime selected stop rest := by
        rcases Int.lt_or_le stop entry.getBlockTime with late | early
        · rw [inTime_cons_of_late late, noneLeft late]
        · exact inTime_cons_of_mem early drawn
      rw [undrawn_cons_of_mem drawn] at left
      obtain ⟨chosen, runs, draws⟩ := ih sortedRest others left
      rw [if_pos drawn]
      refine ⟨chosen, runs, ?_⟩
      rw [Draws, same, undrawn_cons_of_mem drawn]
      exact draws
    · rw [if_neg drawn]
      obtain ⟨chosen, runs, origin, below, least⟩ :=
        selectLoop_best params hashOf selected stop prev fModifierV2 others entry
      refine ⟨chosen, runs, ?_⟩
      rw [Draws, undrawn_cons_of_not_mem drawn]
      constructor
      · rw [mem_cons]
        exact origin.imp_right mem_undrawn_of_mem_inTime
      · rcases Int.lt_or_le stop entry.getBlockTime with late | early
        · -- The entry is later than the stop time, and all that follow are.
          rw [if_pos (inTime_cons_of_late late)]
          rw [noneLeft late] at origin
          rw [List.head?_cons, origin.resolve_right List.not_mem_nil]
        · rw [inTime_cons_of_early early drawn, if_neg (List.cons_ne_nil _ _)]
          refine ⟨mem_cons.mpr origin, fun other mem => ?_⟩
          rcases mem_cons.mp mem with same | mem
          · rw [same]
            exact below
          · exact least other mem

variable (params hashOf stop prev) in
/-- `SelectBlockFromCandidates` draws a block as long as one is left. -/
theorem selectBlockFromCandidates_draws
    (sorted : candidates.Pairwise fun first second => first.getBlockTime ≤ second.getBlockTime)
    (resolved : ∀ entry ∈ candidates, process.mapBlockIndex chain entry.hash = some entry)
    (left : undrawn selected candidates ≠ []) :
    ∃ drawn, selectBlockFromCandidates params hashOf process chain (candidates.map sortKey)
        selected stop prev = some drawn ∧
      Draws (hashSelection hashOf (firstModifierV2 params candidates) prev) selected stop
        candidates drawn := by
  have decided : selectLoop params hashOf process chain selected stop prev none none
        (candidates.map sortKey) =
      selectLoop params hashOf process chain selected stop prev
        (some (firstModifierV2 params candidates)) none (candidates.map sortKey) := by
    cases candidates with
    | nil => rfl
    | cons entry rest =>
      have here := resolved entry mem_cons_self
      simp [sortKey, selectLoop, here, firstModifierV2]
  obtain ⟨drawn, runs, draws⟩ := selectLoop_draws params hashOf stop prev
    (firstModifierV2 params candidates) sorted resolved left
  exact ⟨drawn, by rw [selectBlockFromCandidates, decided, runs], draws⟩

theorem undrawn_ne_nil (distinct : (candidates.map fun entry => entry.hash).Nodup)
    (fewer : selected.length < candidates.length) : undrawn selected candidates ≠ [] := by
  intro none
  have covered : (candidates.map fun entry => entry.hash) ⊆ selected := by
    intro hash mem
    obtain ⟨entry, inside, rfl⟩ := mem_map.mp mem
    by_contra free
    exact List.filter_eq_nil_iff.mp none entry inside (by simpa using free)
  have bound := (distinct.subperm covered).length_le
  rw [length_map] at bound
  omega

end Loop

section Candidates

variable {chain : List StakeEntry} {nSelectionIntervalStart : Int}

theorem sortedByTimestamp_eq :
    sortedByTimestamp chain nSelectionIntervalStart =
      (candidatesInOrder chain nSelectionIntervalStart).map sortKey := by
  rw [candidatesInOrder, sortedByTimestamp, ← List.map_reverse]
  refine (List.map_mergeSort ?_).symm
  intro first _ second _
  rfl

theorem candidatesInOrder_subset : candidatesInOrder chain nSelectionIntervalStart ⊆ chain := by
  intro entry mem
  rw [candidatesInOrder, List.mem_mergeSort, List.mem_reverse] at mem
  exact (List.takeWhile_sublist _).subset mem

theorem candidatesInOrder_distinct (distinct : (chain.map fun entry => entry.hash).Nodup) :
    ((candidatesInOrder chain nSelectionIntervalStart).map fun entry => entry.hash).Nodup := by
  have order : (candidatesInOrder chain nSelectionIntervalStart).Perm
      (chain.takeWhile fun entry => nSelectionIntervalStart ≤ entry.getBlockTime) :=
    (List.mergeSort_perm _ _).trans (List.reverse_perm _)
  rw [(order.map _).nodup_iff]
  exact distinct.sublist ((List.takeWhile_sublist _).map _)

theorem notLater_iff {first second : StakeEntry} :
    notLater first second = true ↔ first.getBlockTime < second.getBlockTime ∨
      first.getBlockTime = second.getBlockTime ∧ first.hash ≤ second.hash := by
  simp [notLater]

theorem notLater_trans (first second third : StakeEntry) (before : notLater first second = true)
    (after : notLater second third = true) : notLater first third = true := by
  rw [notLater_iff] at before after ⊢
  rcases before with less | ⟨same, below⟩
  · left
    rcases after with later | ⟨equal, -⟩ <;> omega
  · rcases after with later | ⟨equal, above⟩
    · left
      omega
    · exact .inr ⟨same.trans equal, BitVec.le_trans below above⟩

theorem notLater_total (first second : StakeEntry) :
    (notLater first second || notLater second first) = true := by
  rw [Bool.or_eq_true, notLater_iff, notLater_iff]
  rcases Int.lt_trichotomy first.getBlockTime second.getBlockTime with less | same | more
  · exact .inl (.inl less)
  · rcases Nat.le_total first.hash.toNat second.hash.toNat with below | above
    · exact .inl (.inr ⟨same, BitVec.le_def.mpr below⟩)
    · exact .inr (.inr ⟨same.symm, BitVec.le_def.mpr above⟩)
  · exact .inr (.inl more)

theorem candidatesInOrder_sorted :
    (candidatesInOrder chain nSelectionIntervalStart).Pairwise fun first second =>
      first.getBlockTime ≤ second.getBlockTime := by
  apply (List.pairwise_mergeSort notLater_trans notLater_total _).imp
  intro first second ordered
  rcases notLater_iff.mp ordered with less | ⟨same, -⟩ <;> omega

theorem mapBlockIndex_of_mem (process : StakeProcess)
    (distinct : (chain.map fun entry => entry.hash).Nodup) {entry : StakeEntry}
    (mem : entry ∈ chain) : process.mapBlockIndex chain entry.hash = some entry := by
  have found : chain.find? (fun other => decide (other.hash = entry.hash)) = some entry := by
    obtain ⟨other, foundOther⟩ : ∃ other,
        chain.find? (fun other => decide (other.hash = entry.hash)) = some other := by
      rw [← Option.isSome_iff_exists, List.find?_isSome]
      exact ⟨entry, mem, by simp⟩
    have same : other.hash = entry.hash := by simpa using List.find?_some foundOther
    rw [foundOther, List.inj_on_of_nodup_map distinct (List.mem_of_find?_eq_some foundOther) mem
      same]
  rw [mapBlockIndex, found]

end Candidates

/-! ### The rounds -/

/-- The stop time after so many rounds: each adds its own section of the interval. -/
def selectionStop (nSelectionIntervalStart : Int) : ℕ → Int
  | 0 => nSelectionIntervalStart
  | rounds + 1 =>
    selectionStop nSelectionIntervalStart rounds + getStakeModifierSelectionIntervalSection rounds

/-- The entropy bits of the drawn blocks, from round `nRound` on. -/
def withEntropyBits : ℕ → UInt64 → List StakeEntry → UInt64
  | _, nStakeModifierNew, [] => nStakeModifierNew
  | nRound, nStakeModifierNew, drawn :: later =>
    withEntropyBits (nRound + 1)
      (nStakeModifierNew ||| drawn.getStakeEntropyBit <<< UInt64.ofNat nRound) later

section Rounds

variable (params : ChainParams) (hashOf : UInt256 → UInt64 → UInt256) (process : StakeProcess)
  (chain candidates : List StakeEntry) (prev : UInt64) (start : Int)

/-- After the blocks `before` the code draws this block, and it is the one to be drawn. -/
def RoundDraws (before : List StakeEntry) (drawn : StakeEntry) : Prop :=
  let selected := (before.map fun entry => entry.hash).reverse
  let stop := selectionStop start (before.length + 1)
  selectBlockFromCandidates params hashOf process chain (candidates.map sortKey) selected stop
      prev = some drawn ∧
    Draws (hashSelection hashOf (firstModifierV2 params candidates) prev) selected stop candidates
      drawn

variable {candidates}

theorem selectionRounds_draws
    (sorted : candidates.Pairwise fun first second => first.getBlockTime ≤ second.getBlockTime)
    (resolved : ∀ entry ∈ candidates, process.mapBlockIndex chain entry.hash = some entry)
    (distinct : (candidates.map fun entry => entry.hash).Nodup) (rounds : ℕ)
    (before : List StakeEntry) (enough : before.length + rounds ≤ candidates.length)
    (nStakeModifierNew : UInt64) :
    ∃ drawn : List StakeEntry, drawn.length = rounds ∧
      selectionRounds params hashOf process chain (candidates.map sortKey) prev rounds
          before.length (selectionStop start before.length)
          (before.map fun entry => entry.hash).reverse nStakeModifierNew =
        some (withEntropyBits before.length nStakeModifierNew drawn) ∧
      ∀ first pick last, drawn = first ++ pick :: last →
        RoundDraws params hashOf process chain candidates prev start (before ++ first) pick := by
  induction rounds generalizing before nStakeModifierNew with
  | zero =>
    refine ⟨[], rfl, rfl, ?_⟩
    intro first pick last empty
    exact absurd (congrArg List.length empty) (by simp)
  | succ rounds ih =>
    have left : undrawn (before.map fun entry => entry.hash).reverse candidates ≠ [] := by
      apply undrawn_ne_nil distinct
      rw [List.length_reverse, length_map]
      omega
    obtain ⟨pick, selects, draws⟩ := selectBlockFromCandidates_draws params hashOf
      (selectionStop start (before.length + 1)) prev sorted resolved left
    obtain ⟨later, length, runs, each⟩ := ih (before ++ [pick])
      (by rw [List.length_append, List.length_singleton]; omega)
      (nStakeModifierNew ||| pick.getStakeEntropyBit <<< UInt64.ofNat before.length)
    rw [List.length_append, List.length_singleton, List.map_append, List.map_singleton,
      List.reverse_append, List.reverse_singleton, List.singleton_append] at runs
    refine ⟨pick :: later, by rw [List.length_cons, length], ?_, ?_⟩
    · rw [selectionRounds, withEntropyBits, ← runs]
      simp only [selectionStop] at selects ⊢
      rw [selects]
    · intro first other last split
      cases first with
      | nil =>
        rw [List.nil_append, List.cons.injEq] at split
        rw [List.append_nil, ← split.1]
        exact ⟨selects, draws⟩
      | cons head tail =>
        rw [List.cons_append, List.cons.injEq] at split
        rw [← split.1, List.append_cons]
        exact each tail other last split.2

theorem nodup_of_draws {drawn : List StakeEntry} {value : StakeEntry → UInt256}
    {stop : List StakeEntry → Int}
    (each : ∀ before pick after, drawn = before ++ pick :: after →
      Draws value (before.map fun entry => entry.hash).reverse (stop before) candidates pick) :
    (drawn.map fun entry => entry.hash).Nodup ∧ drawn ⊆ candidates := by
  have apart : ∀ before pick after, drawn = before ++ pick :: after →
      pick ∈ candidates ∧ pick.hash ∉ before.map fun entry => entry.hash := by
    intro before pick after split
    have free := List.mem_filter.mp (each before pick after split).1
    exact ⟨free.1, by simpa using free.2⟩
  constructor
  · rw [List.Nodup, List.pairwise_map]
    have ordered : drawn.Pairwise fun first second => second.hash ≠ first.hash := by
      clear each
      induction drawn using List.reverseRecOn with
      | nil => exact List.Pairwise.nil
      | append_singleton before pick ih =>
        rw [List.pairwise_append]
        refine ⟨ih ?_, List.pairwise_singleton _ _, ?_⟩
        · intro first other last split
          exact apart first other (last ++ [pick]) (by rw [split]; simp)
        · intro first mem last isLast
          rw [List.mem_singleton.mp isLast]
          intro same
          exact (apart before pick [] rfl).2 (mem_map.mpr ⟨first, mem, same.symm⟩)
    exact ordered.imp fun differ => differ.symm
  · intro pick mem
    obtain ⟨before, after, split⟩ := List.append_of_mem mem
    exact (apart before pick after split).1

end Rounds

/-- `nSelectionIntervalStart` -/
def selectionIntervalStart (pindexPrev : StakeEntry) : Int :=
  pindexPrev.getBlockTime / modifierInterval * modifierInterval - oldModifierInterval

/-- `ComputeNextStakeModifier` goes on to generate a new modifier: there is a last one, and it is
of an earlier interval than the tip. -/
structure Generates (params : ChainParams) (chain : List StakeEntry) (pindexPrev : StakeEntry)
    (nStakeModifier : UInt64) : Prop where
  network : params.networkID ≠ .regtest
  tip : chain.head? = some pindexPrev
  above : pindexPrev.nHeight ≠ 0
  last : ∃ nModifierTime, getLastStakeModifier chain = some (nStakeModifier, nModifierTime) ∧
    nModifierTime / modifierInterval < pindexPrev.getBlockTime / modifierInterval

/-- **The stake modifier draws distinct blocks.** Where a new modifier is generated, the function
does not fail: it draws as many blocks as there are rounds, distinct blocks of the chain, each of
them the block that its round is to draw. -/
theorem computeNextStakeModifier_draws (params : ChainParams)
    (hashOf : UInt256 → UInt64 → UInt256) (process : StakeProcess) (chain : IndexedChain)
    {pindexPrev : StakeEntry} {nStakeModifier : UInt64}
    (generates : Generates params chain.entries pindexPrev nStakeModifier) :
    let start := selectionIntervalStart pindexPrev
    let candidates := candidatesInOrder chain.entries start
    ∃ drawn : List StakeEntry,
      computeNextStakeModifier params hashOf process chain.entries =
          ⟨true, withEntropyBits 0 0 drawn, true⟩ ∧
        drawn.length = min 64 candidates.length ∧
        (drawn.map fun entry => entry.hash).Nodup ∧
        drawn ⊆ chain.entries ∧
        ∀ before pick after, drawn = before ++ pick :: after →
          RoundDraws params hashOf process chain.entries candidates nStakeModifier start before
            pick := by
  intro start candidates
  obtain ⟨network, tip, above, nModifierTime, last, older⟩ := generates
  have inside : candidates ⊆ chain.entries := candidatesInOrder_subset
  obtain ⟨drawn, length, runs, each⟩ := selectionRounds_draws params hashOf process chain.entries
    nStakeModifier start candidatesInOrder_sorted
    (fun entry mem => mapBlockIndex_of_mem process chain.distinct (inside mem))
    (candidatesInOrder_distinct chain.distinct) (min 64 candidates.length) []
    (by rw [List.length_nil, Nat.zero_add]; exact Nat.min_le_right 64 _) 0
  obtain ⟨nodup, drawnInside⟩ := nodup_of_draws fun before pick after split =>
    (each before pick after split).2
  refine ⟨drawn, ?_, length, nodup, fun entry mem => inside (drawnInside mem), each⟩
  obtain ⟨rest, split⟩ := List.head?_eq_some_iff.mp tip
  have rounds : selectionRounds params hashOf process chain.entries
      (sortedByTimestamp chain.entries start) nStakeModifier
      (min 64 (sortedByTimestamp chain.entries start).length) 0 start [] 0 =
        some (withEntropyBits 0 0 drawn) := by
    rw [sortedByTimestamp_eq, length_map]
    exact runs
  rw [split] at last rounds
  rw [split, computeNextStakeModifier, if_neg network]
  simp only [if_neg above, last, if_neg (Int.not_le.mpr older)]
  simp only [start, selectionIntervalStart] at rounds
  rw [rounds]

def threeBlocks : IndexedChain where
  entries := [⟨⟨2, 1558145800, true⟩, 2, 0, false⟩, ⟨⟨1, 1558145668, false⟩, 1, 5, true⟩,
    ⟨⟨ChainParams.main.hashGenesisBlock, 1558145578, false⟩, 0, 0, false⟩]
  distinct := by decide

theorem computeNextStakeModifier_draws_threeBlocks :
    let start := selectionIntervalStart ⟨⟨2, 1558145800, true⟩, 2, 0, false⟩
    let candidates := candidatesInOrder threeBlocks.entries start
    ∃ drawn : List StakeEntry,
      computeNextStakeModifier .main (fun hashProof _ => hashProof) ⟨0, fun _ => none⟩
          threeBlocks.entries = ⟨true, withEntropyBits 0 0 drawn, true⟩ ∧
        drawn.length = min 64 candidates.length ∧
        (drawn.map fun entry => entry.hash).Nodup ∧
        drawn ⊆ threeBlocks.entries ∧
        ∀ before pick after, drawn = before ++ pick :: after →
          RoundDraws .main (fun hashProof _ => hashProof) ⟨0, fun _ => none⟩ threeBlocks.entries
            candidates 5 start before pick :=
  computeNextStakeModifier_draws .main (fun hashProof _ => hashProof) ⟨0, fun _ => none⟩
    threeBlocks ⟨by decide, rfl, by decide, 1558145668, rfl, by decide⟩

end StakeProcess

end DogeCash
