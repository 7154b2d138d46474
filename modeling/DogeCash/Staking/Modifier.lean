import DogeCash.Chain.Params

/-! # The stake modifier

Every block before the second version of the stake modifier gets a modifier from the
blocks before it: where the last one is old enough, 64 rounds each choose a block of a
window of time by a hash of the last modifier and take one bit of it
(`computeNextStakeModifier`). `AddToBlockIndex` stores the modifier in the new entry, so
it enters all later ones.

The first block takes the address of a string literal for its modifier. Two processes
therefore agree on a chain exactly if they have the literal at one address, or if that
branch is never taken (`modifiers_eq_iff`).
-/

namespace DogeCash

/-- `MODIFIER_INTERVAL` -/
def modifierInterval : Int := 60

/-- `MODIFIER_INTERVAL_RATIO` -/
def modifierIntervalRatio : Int := 3

/-- `OLD_MODIFIER_INTERVAL` -/
def oldModifierInterval : Int := 2087

/-- What a block brings into its index entry. -/
structure StakeHeader where
  hash : UInt256
  nTime : UInt32
  isProofOfStake : Bool

/-- `CBlockIndex`, as far as the stake modifier reads and writes it. -/
structure StakeEntry extends StakeHeader where
  nHeight : Int
  nStakeModifier : UInt64
  generatedStakeModifier : Bool

namespace StakeEntry

def getBlockTime (entry : StakeEntry) : Int := entry.nTime.toNat

def getStakeEntropyBit (entry : StakeEntry) : UInt64 := UInt64.ofNat (entry.hash.toNat % 2)

end StakeEntry

def getStakeModifierSelectionIntervalSection (nSection : Int) : Int :=
  modifierInterval * 63 / (63 + (63 - nSection) * (modifierIntervalRatio - 1))

/-- What the modifier depends on in a process besides the chain: where the literal
`"stakemodifier"` is loaded and what else is in `mapBlockIndex`. -/
structure StakeProcess where
  literalAddress : UInt64
  otherBranches : UInt256 → Option StakeEntry

/-- `mapBlockIndex`, which has one entry for a hash. A chain is listed from its tip. -/
def StakeProcess.mapBlockIndex (process : StakeProcess) (chain : List StakeEntry)
    (hash : UInt256) : Option StakeEntry :=
  match chain.find? fun entry => entry.hash = hash with
  | some entry => some entry
  | none => process.otherBranches hash

/-- `GetLastStakeModifier`: the last modifier and the time of the block it was made for. -/
def getLastStakeModifier : List StakeEntry → Option (UInt64 × Int)
  | [] => none
  | entry :: rest =>
    if entry.generatedStakeModifier then some (entry.nStakeModifier, entry.getBlockTime)
    else getLastStakeModifier rest

/-- What `ComputeNextStakeModifier` returns. `AddToBlockIndex` only logs a failure. -/
structure ModifierResult where
  success : Bool
  nStakeModifier : UInt64
  fGeneratedStakeModifier : Bool

namespace StakeProcess

variable (params : ChainParams) (hashOf : UInt256 → UInt64 → UInt256) (process : StakeProcess)
  (chain : List StakeEntry)

/-- The hash `SelectBlockFromCandidates` compares a candidate by. -/
def hashSelection (fModifierV2 : Bool) (nStakeModifierPrev : UInt64) (entry : StakeEntry) :
    UInt256 :=
  let hashProof := if !fModifierV2 && entry.isProofOfStake then 0 else entry.hash
  let selection := hashOf hashProof nStakeModifierPrev
  if entry.isProofOfStake then selection >>> 32 else selection

/-- The loop of `SelectBlockFromCandidates`. `fModifierV2` is set in the first round;
`best` is the entry selected so far with its hash. It fails on a candidate without an
index entry. -/
def selectLoop (selected : List UInt256) (nSelectionIntervalStop : Int)
    (nStakeModifierPrev : UInt64) :
    Option Bool → Option (UInt256 × StakeEntry) → List (Int × UInt256) →
      Option (Option (UInt256 × StakeEntry))
  | _, best, [] => some best
  | firstRun, best, (_, hash) :: rest =>
    match process.mapBlockIndex chain hash with
    | none => none
    | some entry =>
      if best.isSome && nSelectionIntervalStop < entry.getBlockTime then some best
      else
        let fModifierV2 := firstRun.getD (params.nModifierUpdateBlock ≤ entry.nHeight)
        if entry.hash ∈ selected then
          selectLoop selected nSelectionIntervalStop nStakeModifierPrev (some fModifierV2)
            best rest
        else
          let selection := hashSelection hashOf fModifierV2 nStakeModifierPrev entry
          let better := match best with
            | none => some (selection, entry)
            | some (hashBest, chosen) =>
              if selection < hashBest then some (selection, entry)
              else some (hashBest, chosen)
          selectLoop selected nSelectionIntervalStop nStakeModifierPrev (some fModifierV2)
            better rest

def selectBlockFromCandidates (candidates : List (Int × UInt256)) (selected : List UInt256)
    (nSelectionIntervalStop : Int) (nStakeModifierPrev : UInt64) : Option StakeEntry :=
  match selectLoop params hashOf process chain selected nSelectionIntervalStop nStakeModifierPrev
    none none candidates with
  | some (some (_, entry)) => some entry
  | _ => none

/-- The selection rounds of `ComputeNextStakeModifier`, from round `nRound` on. -/
def selectionRounds (candidates : List (Int × UInt256)) (nStakeModifierPrev : UInt64) :
    Nat → Nat → Int → List UInt256 → UInt64 → Option UInt64
  | 0, _, _, _, nStakeModifierNew => some nStakeModifierNew
  | rounds + 1, nRound, nSelectionIntervalStop, selected, nStakeModifierNew =>
    let stop := nSelectionIntervalStop + getStakeModifierSelectionIntervalSection nRound
    match selectBlockFromCandidates params hashOf process chain candidates selected stop
      nStakeModifierPrev with
    | none => none
    | some entry =>
      selectionRounds candidates nStakeModifierPrev rounds (nRound + 1) stop
        (entry.hash :: selected)
        (nStakeModifierNew ||| entry.getStakeEntropyBit <<< UInt64.ofNat nRound)

/-- The candidates of `ComputeNextStakeModifier`, sorted by time and then by hash. -/
def sortedByTimestamp (nSelectionIntervalStart : Int) : List (Int × UInt256) :=
  ((chain.takeWhile fun entry => nSelectionIntervalStart ≤ entry.getBlockTime).map
    fun entry => (entry.getBlockTime, entry.hash)).reverse.mergeSort fun first second =>
      first.1 < second.1 || first.1 = second.1 && first.2 ≤ second.2

/-- `ComputeNextStakeModifier` for a block on top of the chain. -/
def computeNextStakeModifier : ModifierResult :=
  if params.networkID = .regtest then ⟨true, 0, false⟩
  else
    match chain with
    | [] => ⟨true, 0, true⟩
    | pindexPrev :: _ =>
      if pindexPrev.nHeight = 0 then ⟨true, process.literalAddress, true⟩
      else
        match getLastStakeModifier chain with
        | none => ⟨false, 0, false⟩
        | some (nStakeModifier, nModifierTime) =>
          if pindexPrev.getBlockTime / modifierInterval ≤ nModifierTime / modifierInterval then
            ⟨true, nStakeModifier, false⟩
          else
            let nSelectionIntervalStart :=
              pindexPrev.getBlockTime / modifierInterval * modifierInterval -
                oldModifierInterval
            let candidates := sortedByTimestamp chain nSelectionIntervalStart
            match selectionRounds params hashOf process chain candidates nStakeModifier
              (min 64 candidates.length) 0 nSelectionIntervalStart [] 0 with
            | none => ⟨false, nStakeModifier, false⟩
            | some nStakeModifierNew => ⟨true, nStakeModifierNew, true⟩

/-- The entry `AddToBlockIndex` makes for a block on top of the chain. The genesis block
has no predecessor and gets no modifier. -/
def addToBlockIndex (header : StakeHeader) : StakeEntry :=
  let nHeight : Int := chain.length
  if chain.isEmpty || params.isStakeModifierV2 nHeight then ⟨header, nHeight, 0, false⟩
  else
    let result := computeNextStakeModifier params hashOf process chain
    ⟨header, nHeight, result.nStakeModifier, result.fGeneratedStakeModifier⟩

/-- The index entries of a chain of blocks, which are listed from the tip as the entries
are. -/
def index : List StakeHeader → List StakeEntry
  | [] => []
  | header :: rest => addToBlockIndex params hashOf process (index rest) header :: index rest

def modifiers (headers : List StakeHeader) : List (UInt64 × Bool) :=
  (index params hashOf process headers).map fun entry =>
    (entry.nStakeModifier, entry.generatedStakeModifier)

/-! ## Other branches do not matter -/

variable {params hashOf chain} {first second : StakeProcess}

theorem exists_of_mem_sortedByTimestamp {nSelectionIntervalStart : Int}
    {candidate : Int × UInt256}
    (mem : candidate ∈ sortedByTimestamp chain nSelectionIntervalStart) :
    ∃ entry ∈ chain, entry.hash = candidate.2 := by
  rw [sortedByTimestamp, List.mem_mergeSort, List.mem_reverse, List.mem_map] at mem
  obtain ⟨entry, inside, rfl⟩ := mem
  exact ⟨entry, (List.takeWhile_sublist _).subset inside, rfl⟩

theorem mapBlockIndex_eq {hash : UInt256} (known : ∃ entry ∈ chain, entry.hash = hash) :
    first.mapBlockIndex chain hash = second.mapBlockIndex chain hash := by
  unfold mapBlockIndex
  cases found : chain.find? fun entry => entry.hash = hash with
  | some entry => rfl
  | none =>
    obtain ⟨entry, mem, same⟩ := known
    have missing := List.find?_eq_none.mp found entry mem
    simp only [same, decide_true, not_true_eq_false] at missing

theorem selectLoop_eq (selected : List UInt256) (nSelectionIntervalStop : Int)
    (nStakeModifierPrev : UInt64) (firstRun : Option Bool) (best : Option (UInt256 × StakeEntry))
    (candidates : List (Int × UInt256))
    (known : ∀ candidate ∈ candidates, ∃ entry ∈ chain, entry.hash = candidate.2) :
    selectLoop params hashOf first chain selected nSelectionIntervalStop nStakeModifierPrev
        firstRun best candidates =
      selectLoop params hashOf second chain selected nSelectionIntervalStop nStakeModifierPrev
        firstRun best candidates := by
  induction candidates generalizing firstRun best with
  | nil => rfl
  | cons candidate rest ih =>
    have later := fun firstRun best =>
      ih firstRun best fun other mem => known other (List.mem_cons_of_mem _ mem)
    have here : first.mapBlockIndex chain candidate.2 = second.mapBlockIndex chain candidate.2 :=
      mapBlockIndex_eq (known candidate List.mem_cons_self)
    simp only [selectLoop, here, later]

theorem selectionRounds_eq (params : ChainParams) (hashOf : UInt256 → UInt64 → UInt256)
    (first second : StakeProcess) (candidates : List (Int × UInt256))
    (known : ∀ candidate ∈ candidates, ∃ entry ∈ chain, entry.hash = candidate.2)
    (nStakeModifierPrev : UInt64) (rounds nRound : Nat) (nSelectionIntervalStop : Int)
    (selected : List UInt256) (nStakeModifierNew : UInt64) :
    selectionRounds params hashOf first chain candidates nStakeModifierPrev rounds nRound
        nSelectionIntervalStop selected nStakeModifierNew =
      selectionRounds params hashOf second chain candidates nStakeModifierPrev rounds nRound
        nSelectionIntervalStop selected nStakeModifierNew := by
  have select : ∀ selected stop,
      selectBlockFromCandidates params hashOf first chain candidates selected stop
          nStakeModifierPrev =
        selectBlockFromCandidates params hashOf second chain candidates selected stop
          nStakeModifierPrev := by
    intro selected stop
    rw [selectBlockFromCandidates, selectBlockFromCandidates,
      selectLoop_eq selected stop nStakeModifierPrev none none candidates known]
  induction rounds generalizing nRound nSelectionIntervalStop selected nStakeModifierNew with
  | zero => rfl
  | succ rounds ih => simp only [selectionRounds, select, ih]

theorem computeNextStakeModifier_eq
    (same : params.networkID ≠ .regtest → ∀ genesis, chain = [genesis] → genesis.nHeight = 0 →
      first.literalAddress = second.literalAddress)
    (heights : ∀ entry rest, chain = entry :: rest → entry.nHeight = rest.length) :
    computeNextStakeModifier params hashOf first chain =
      computeNextStakeModifier params hashOf second chain := by
  unfold computeNextStakeModifier
  by_cases regtest : params.networkID = .regtest
  · rw [if_pos regtest, if_pos regtest]
  · cases chain with
    | nil => rfl
    | cons pindexPrev rest =>
      by_cases ground : pindexPrev.nHeight = 0
      · have length := heights pindexPrev rest rfl
        have alone : rest = [] := List.length_eq_zero_iff.mp (by omega)
        subst alone
        simp [ground, same regtest pindexPrev rfl ground]
      · have rounds := fun nSelectionIntervalStart =>
          selectionRounds_eq params hashOf first second
            (sortedByTimestamp (pindexPrev :: rest) nSelectionIntervalStart)
            fun candidate mem => exists_of_mem_sortedByTimestamp mem
        simp [ground, rounds]

theorem length_index (process : StakeProcess) (headers : List StakeHeader) :
    (index params hashOf process headers).length = headers.length := by
  induction headers with
  | nil => rfl
  | cons header rest ih => rw [index, List.length_cons, List.length_cons, ih]

theorem addToBlockIndex_nHeight (process : StakeProcess) (header : StakeHeader) :
    (addToBlockIndex params hashOf process chain header).nHeight = chain.length := by
  simp only [addToBlockIndex]
  split_ifs <;> rfl

def LiteralUnused (params : ChainParams) (headers : List StakeHeader) : Prop :=
  params.networkID = .regtest ∨ headers.length ≤ 1 ∨ params.isStakeModifierV2 1 = true

instance (params : ChainParams) (headers : List StakeHeader) :
    Decidable (LiteralUnused params headers) :=
  inferInstanceAs (Decidable (_ ∨ _))

theorem index_eq (headers : List StakeHeader)
    (same : LiteralUnused params headers ∨ first.literalAddress = second.literalAddress) :
    index params hashOf first headers = index params hashOf second headers := by
  induction headers with
  | nil => rfl
  | cons header rest ih =>
    have unused : LiteralUnused params (header :: rest) → LiteralUnused params rest := by
      refine Or.imp_right (Or.imp_left fun short => ?_)
      rw [List.length_cons] at short
      omega
    have below := ih (same.imp_left unused)
    rw [index, index, below]
    congr 1
    simp only [addToBlockIndex]
    split_ifs with plain
    · rfl
    · have next : computeNextStakeModifier params hashOf first
            (index params hashOf second rest) =
          computeNextStakeModifier params hashOf second (index params hashOf second rest) := by
        apply computeNextStakeModifier_eq
        · intro network genesis alone ground
          have length : (index params hashOf second rest).length = rest.length :=
            length_index second rest
          rw [alone, List.length_singleton] at length
          rw [alone] at plain
          refine same.resolve_left ?_
          rintro (regtest | short | modifierV2)
          · exact network regtest
          · rw [List.length_cons] at short
            omega
          · exact plain (by rw [Bool.or_eq_true]; exact .inr modifierV2)
        · intro entry older split
          cases rest with
          | nil => cases split
          | cons previous oldest =>
            rw [index, List.cons.injEq] at split
            rw [← split.1, ← split.2, addToBlockIndex_nHeight]
      rw [next]

theorem literalAddress_eq (headers : List StakeHeader) (used : ¬LiteralUnused params headers)
    (same : modifiers params hashOf first headers = modifiers params hashOf second headers) :
    first.literalAddress = second.literalAddress := by
  simp only [LiteralUnused, not_or, not_le, Bool.not_eq_true] at used
  obtain ⟨network, long, modifierV1⟩ := used
  induction headers with
  | nil => simp at long
  | cons header rest ih =>
    rw [modifiers, modifiers, index, index, List.map_cons, List.map_cons, List.cons.injEq] at same
    cases rest with
    | nil => simp at long
    | cons genesis older =>
      cases older with
      | cons oldest deeper => exact ih same.2 (by simp)
      | nil =>
        have here := same.1
        simp only [index, addToBlockIndex, List.isEmpty_nil, Bool.true_or, ↓reduceIte,
          List.isEmpty_cons, Bool.false_or, List.length_singleton, List.length_nil,
          Nat.cast_one, Nat.cast_zero, modifierV1, Bool.false_eq_true,
          computeNextStakeModifier, network, Prod.mk.injEq, and_true] at here
        exact here

/-- **The modifier as a function of the chain.** Two processes give the blocks of a chain
the same modifiers exactly if no block takes the literal for its modifier or both have
the literal at one address. -/
theorem modifiers_eq_iff (params : ChainParams) (hashOf : UInt256 → UInt64 → UInt256)
    (headers : List StakeHeader) (first second : StakeProcess) :
    modifiers params hashOf first headers = modifiers params hashOf second headers ↔
      LiteralUnused params headers ∨ first.literalAddress = second.literalAddress := by
  constructor
  · intro same
    by_cases unused : LiteralUnused params headers
    · exact .inl unused
    · exact .inr (literalAddress_eq headers unused same)
  · intro same
    rw [modifiers, modifiers, index_eq headers same]

def firstBlocks : List StakeHeader :=
  [⟨1, 1558145668, false⟩, ⟨ChainParams.main.hashGenesisBlock, 1558145578, false⟩]

/-- Two processes that load the program at different addresses. -/
theorem modifiers_ne_firstBlocks :
    modifiers .main (fun hashProof _ => hashProof) ⟨0x55d0c6a41f3b, fun _ => none⟩ firstBlocks ≠
      modifiers .main (fun hashProof _ => hashProof) ⟨0x563b1e09df3b, fun _ => none⟩
        firstBlocks := by
  decide +kernel

end StakeProcess

end DogeCash
