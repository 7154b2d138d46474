import DogeCash.Chain.Settlement
import DogeCash.Network.BlockDownload

/-! # What is planned for download

The batches of `FindNextBlocksToDownload` make one walk along the path from the last common block
to the best block of the peer. The blocks it appends are the first ones of that path that are
neither downloaded nor in flight, as far as the path is valid and the window reaches.
-/

namespace DogeCash.BlockIndex

open BlockTree (mem_lineage mem_pathAbove pathAbove_pairwise pathAbove_self)

variable {Ptr : Type} {s : BlockIndex Ptr} {mapBlocksInFlight : Ptr → Option ℕ}
  {nodeid count nWindowEnd : ℕ}

/-! ## One walk along a path -/

def isMissing (s : BlockIndex Ptr) (mapBlocksInFlight : Ptr → Option ℕ) (b : Ptr) : Bool :=
  !(s.marks b).haveData && (mapBlocksInFlight b).isNone

def isAwaited (s : BlockIndex Ptr) (mapBlocksInFlight : Ptr → Option ℕ) (b : Ptr) : Bool :=
  !(s.marks b).haveData && (mapBlocksInFlight b).isSome

def validPart (s : BlockIndex Ptr) (path : List Ptr) : List Ptr :=
  path.takeWhile fun b => (s.marks b).isValid .tree

def missingOn (s : BlockIndex Ptr) (mapBlocksInFlight : Ptr → Option ℕ) (nWindowEnd : ℕ)
    (path : List Ptr) : List Ptr :=
  (s.validPart path).filter fun b =>
    s.isMissing mapBlocksInFlight b && s.tree.nHeight b ≤ nWindowEnd

def firstHolder (s : BlockIndex Ptr) (mapBlocksInFlight : Ptr → Option ℕ) (path : List Ptr) :
    Option ℕ :=
  ((s.validPart path).find? (s.isAwaited mapBlocksInFlight)).bind mapBlocksInFlight

/-- The peer that is waited for at the end of a path. -/
def awaitedAfter (s : BlockIndex Ptr) (mapBlocksInFlight : Ptr → Option ℕ) (waitingfor : Int)
    (path : List Ptr) : Int :=
  if waitingfor = -1 then
    match s.firstHolder mapBlocksInFlight path with
    | some holder => holder
    | none => -1
  else waitingfor

/-- What a walk makes of the state it starts from. -/
structure Walked (s : BlockIndex Ptr) (mapBlocksInFlight : Ptr → Option ℕ)
    (count nWindowEnd : ℕ) (path : List Ptr) (before after : Fetching Ptr) : Prop where
  vBlocks : after.vBlocks = before.vBlocks ++
    (s.missingOn mapBlocksInFlight nWindowEnd path).take (count - before.vBlocks.length)
  lastCommon : after.pindexLastCommonBlock = before.pindexLastCommonBlock ∨
    after.pindexLastCommonBlock ∈ path ∧ (s.marks after.pindexLastCommonBlock).nChainTx ≠ 0
  staller : after.nodeStaller = before.nodeStaller ∨ after.vBlocks = [] ∧
    (after.nodeStaller = -1 ∨
      after.nodeStaller = s.awaitedAfter mapBlocksInFlight before.waitingfor path)

variable {pindex : Ptr} {rest path : List Ptr} {before after : Fetching Ptr}

theorem validPart_cons (valid : (s.marks pindex).isValid .tree = true) :
    s.validPart (pindex :: rest) = pindex :: s.validPart rest := List.takeWhile_cons_of_pos valid

theorem validPart_cons_of_invalid (invalid : (s.marks pindex).isValid .tree = false) :
    s.validPart (pindex :: rest) = [] :=
  List.takeWhile_cons_of_neg (by rw [invalid]; exact Bool.false_ne_true)

theorem awaitedAfter_cons (valid : (s.marks pindex).isValid .tree = true)
    (other : s.isAwaited mapBlocksInFlight pindex = false) (waitingfor : Int) :
    s.awaitedAfter mapBlocksInFlight waitingfor (pindex :: rest) =
      s.awaitedAfter mapBlocksInFlight waitingfor rest := by
  rw [awaitedAfter, firstHolder, validPart_cons valid, List.find?_cons, other]
  rfl

theorem awaitedAfter_cons_of_awaited (valid : (s.marks pindex).isValid .tree = true)
    (missing : (s.marks pindex).haveData = false) {holder : ℕ}
    (held : mapBlocksInFlight pindex = some holder) (waitingfor : Int) :
    s.awaitedAfter mapBlocksInFlight waitingfor (pindex :: rest) =
      s.awaitedAfter mapBlocksInFlight (if waitingfor = -1 then holder else waitingfor) rest := by
  have awaited : s.isAwaited mapBlocksInFlight pindex = true := by
    rw [isAwaited, missing, held]
    rfl
  rw [awaitedAfter, firstHolder, validPart_cons valid, List.find?_cons, awaited]
  by_cases free : waitingfor = -1
  · rw [if_pos free, if_pos free, awaitedAfter, if_neg (by omega)]
    simp [held]
  · rw [if_neg free, if_neg free, awaitedAfter, if_neg free]

/-- A block that is not to be downloaded is passed over. -/
theorem Walked.cons (middle : Fetching Ptr) (valid : (s.marks pindex).isValid .tree = true)
    (passed : s.isMissing mapBlocksInFlight pindex = false)
    (vBlocks : middle.vBlocks = before.vBlocks) (staller : middle.nodeStaller = before.nodeStaller)
    (lastCommon : middle.pindexLastCommonBlock = before.pindexLastCommonBlock ∨
      middle.pindexLastCommonBlock = pindex ∧ (s.marks pindex).nChainTx ≠ 0)
    (waits : s.awaitedAfter mapBlocksInFlight before.waitingfor (pindex :: rest) =
      s.awaitedAfter mapBlocksInFlight middle.waitingfor rest)
    (walked : Walked s mapBlocksInFlight count nWindowEnd rest middle after) :
    Walked s mapBlocksInFlight count nWindowEnd (pindex :: rest) before after where
  vBlocks := by
    have same : s.missingOn mapBlocksInFlight nWindowEnd (pindex :: rest) =
        s.missingOn mapBlocksInFlight nWindowEnd rest := by
      rw [missingOn, validPart_cons valid, List.filter_cons, if_neg (by rw [passed]; simp)]
      rfl
    rw [same, walked.vBlocks, vBlocks]
  lastCommon := by
    rcases walked.lastCommon with same | ⟨mem, linked⟩
    · rcases lastCommon with kept | ⟨moved, linked⟩
      · exact .inl (same.trans kept)
      · rw [same, moved]
        exact .inr ⟨List.mem_cons_self, linked⟩
    · exact .inr ⟨List.mem_cons_of_mem _ mem, linked⟩
  staller := by
    rw [waits, ← staller]
    exact walked.staller

theorem Walked.append (valid : (s.marks pindex).isValid .tree = true)
    (missing : (s.marks pindex).haveData = false) (free : mapBlocksInFlight pindex = none)
    (inWindow : s.tree.nHeight pindex ≤ nWindowEnd) (room : before.vBlocks.length < count)
    (walked : Walked s mapBlocksInFlight count nWindowEnd rest
      { before with vBlocks := before.vBlocks ++ [pindex] } after) :
    Walked s mapBlocksInFlight count nWindowEnd (pindex :: rest) before after where
  vBlocks := by
    have wanted : s.missingOn mapBlocksInFlight nWindowEnd (pindex :: rest) =
        pindex :: s.missingOn mapBlocksInFlight nWindowEnd rest := by
      rw [missingOn, validPart_cons valid, List.filter_cons, if_pos]
      · rfl
      · rw [isMissing, missing, free, decide_eq_true inWindow]
        rfl
    obtain ⟨left, size⟩ : ∃ left, count - before.vBlocks.length = left + 1 :=
      ⟨count - before.vBlocks.length - 1, by omega⟩
    have less : count - (before.vBlocks ++ [pindex]).length = left := by
      rw [List.length_append, List.length_singleton]
      omega
    rw [walked.vBlocks, less, wanted, size, List.take_succ_cons, List.append_assoc]
    rfl
  lastCommon := walked.lastCommon.imp_right fun ⟨mem, linked⟩ =>
    ⟨List.mem_cons_of_mem _ mem, linked⟩
  staller := by
    have other : s.isAwaited mapBlocksInFlight pindex = false := by
      rw [isAwaited, free]
      exact Bool.and_false _
    rw [awaitedAfter_cons valid other]
    exact walked.staller

theorem Walked.stop (nothing : s.missingOn mapBlocksInFlight nWindowEnd path = []) :
    Walked s mapBlocksInFlight count nWindowEnd path before before :=
  ⟨by rw [nothing, List.take_nil, List.append_nil], .inl rfl, .inl rfl⟩

theorem Walked.full (full : count ≤ before.vBlocks.length) :
    Walked s mapBlocksInFlight count nWindowEnd path before before :=
  ⟨by rw [Nat.sub_eq_zero_of_le full, List.take_zero, List.append_nil], .inl rfl, .inl rfl⟩

theorem missingOn_sublist (nWindowEnd : ℕ) (path : List Ptr) :
    List.Sublist (s.missingOn mapBlocksInFlight nWindowEnd path) path :=
  List.filter_sublist.trans (List.takeWhile_sublist _)

theorem missingOn_beyond (beyond : ∀ b ∈ path, nWindowEnd < s.tree.nHeight b) :
    s.missingOn mapBlocksInFlight nWindowEnd path = [] := by
  rw [missingOn, List.filter_eq_nil_iff]
  intro b mem
  have higher := beyond b (List.takeWhile_subset _ mem)
  rw [decide_eq_false (Nat.not_le.mpr higher), Bool.and_false]
  exact Bool.false_ne_true

theorem Walked.window (beyond : ∀ b ∈ path, nWindowEnd < s.tree.nHeight b) :
    Walked s mapBlocksInFlight count nWindowEnd path before
      (if before.vBlocks.length = 0 ∧ before.waitingfor ≠ nodeid then
        { before with nodeStaller := before.waitingfor } else before) := by
  split
  · rename_i stalled
    refine ⟨(Walked.stop (missingOn_beyond beyond)).vBlocks, .inl rfl, .inr ?_⟩
    refine ⟨List.eq_nil_of_length_eq_zero stalled.1, ?_⟩
    by_cases nobody : before.waitingfor = -1
    · exact .inl nobody
    · refine .inr ?_
      rw [awaitedAfter, if_neg nobody]
  · exact .stop (missingOn_beyond beyond)

/-- **A walk finds what there is on its path** while its heights grow and there is room. -/
theorem walked_foldlM (increasing : path.Pairwise fun x y => s.tree.nHeight x < s.tree.nHeight y)
    (room : before.vBlocks.length < count) :
    Walked s mapBlocksInFlight count nWindowEnd path before
      (outcome (path.foldlM (s.visit mapBlocksInFlight nodeid count nWindowEnd) before)) := by
  induction path generalizing before with
  | nil => exact .stop rfl
  | cons pindex rest ih =>
    obtain ⟨lower, later⟩ := List.pairwise_cons.mp increasing
    rw [List.foldlM_cons]
    cases valid : (s.marks pindex).isValid .tree with
    | false =>
      have returns : s.visit mapBlocksInFlight nodeid count nWindowEnd before pindex =
          .error before := by
        rw [visit, valid]
        rfl
      rw [returns]
      exact .stop (by rw [missingOn, validPart_cons_of_invalid valid]; rfl)
    | true =>
      rw [visit, valid]
      cases data : (s.marks pindex).haveData with
      | true =>
        have passed : s.isMissing mapBlocksInFlight pindex = false := by
          rw [isMissing, data]
          rfl
        have other : s.isAwaited mapBlocksInFlight pindex = false := by
          rw [isAwaited, data]
          rfl
        by_cases linked : (s.marks pindex).nChainTx ≠ 0
        · rw [if_pos rfl, if_pos linked]
          exact .cons { before with pindexLastCommonBlock := pindex } valid passed rfl rfl
            (.inr ⟨rfl, linked⟩) (awaitedAfter_cons valid other _) (ih later room)
        · rw [if_pos rfl, if_neg linked]
          exact .cons before valid passed rfl rfl (.inl rfl)
            (awaitedAfter_cons valid other _) (ih later room)
      | false =>
        cases held : mapBlocksInFlight pindex with
        | some holder =>
          have passed : s.isMissing mapBlocksInFlight pindex = false := by
            rw [isMissing, held]
            exact Bool.and_false _
          have waits : s.awaitedAfter mapBlocksInFlight before.waitingfor (pindex :: rest) =
              _ := awaitedAfter_cons_of_awaited valid data held _
          by_cases free : before.waitingfor = -1
          · simp only [if_pos free] at waits ⊢
            exact .cons { before with waitingfor := holder } valid passed rfl rfl
              (.inl rfl) waits (ih later room)
          · simp only [if_neg free] at waits ⊢
            exact .cons before valid passed rfl rfl (.inl rfl) waits (ih later room)
        | none =>
          by_cases beyond : nWindowEnd < s.tree.nHeight pindex
          · simp only [if_pos beyond]
            refine .window fun b mem => ?_
            rcases List.mem_cons.mp mem with rfl | after
            · exact beyond
            · exact beyond.trans (lower b after)
          · simp only [if_neg beyond]
            apply Walked.append valid data held (Nat.le_of_not_lt beyond) room
            by_cases last : before.vBlocks.length + 1 = count
            · rw [if_pos last]
              apply Walked.full
              rw [List.length_append, List.length_singleton, last]
            · rw [if_neg last]
              apply ih later
              rw [List.length_append, List.length_singleton]
              omega

/-! ## The batches -/

theorem fillBack_eq {a b : Ptr} (ancestor : s.tree.IsAncestor a b)
    (lower : s.tree.nHeight a < s.tree.nHeight b) (vToFetch : List Ptr) :
    fillBack s (s.tree.nHeight b - s.tree.nHeight a - 1) b (b :: vToFetch) =
      some (s.tree.pathAbove a b ++ vToFetch) := by
  have path : DogeCash.IsAncestor s.tree.pprev a b := ancestor
  induction path using Relation.ReflTransGen.head_induction_on generalizing vToFetch with
  | refl => exact absurd lower (Nat.lt_irrefl _)
  | @head child above link rest ih =>
    have grown := s.tree.grows child above link
    have onPath : s.tree.IsAncestor a above := rest
    rw [BlockTree.pathAbove_of_pprev onPath link, List.append_assoc]
    by_cases direct : s.tree.nHeight a = s.tree.nHeight above
    · have same : a = above := DogeCash.IsAncestor.eq_of_height s.tree.grows rest direct
      subst same
      rw [show s.tree.nHeight child - s.tree.nHeight a - 1 = 0 by omega, pathAbove_self]
      rfl
    · have less : s.tree.nHeight a < s.tree.nHeight above := by
        omega
      rw [show s.tree.nHeight child - s.tree.nHeight a - 1 =
        s.tree.nHeight above - s.tree.nHeight a - 1 + 1 by omega]
      rw [fillBack, link, Option.bind_some, ih onPath less]
      rfl

/-- **The batches make one walk** along the path to the block at the greatest height. -/
theorem fetchLoop_eq (rooted : s.tree.Rooted) {best top walk : Ptr} {n : ℕ}
    (known : best ∈ s.tree.blocks) (onPath : s.tree.IsAncestor top best)
    (below : s.tree.IsAncestor walk top)
    (enough : s.tree.nHeight top - s.tree.nHeight walk < n) (fetching : Fetching Ptr) :
    s.fetchLoop mapBlocksInFlight nodeid count nWindowEnd best (s.tree.nHeight top) n walk
        fetching =
      some (outcome ((s.tree.pathAbove walk top).foldlM
        (s.visit mapBlocksInFlight nodeid count nWindowEnd) fetching)) := by
  induction n generalizing walk fetching with
  | zero => omega
  | succ n ih =>
    rw [fetchLoop]
    by_cases higher : s.tree.nHeight walk < s.tree.nHeight top
    · rw [if_pos higher]
      dsimp only
      generalize size : min (s.tree.nHeight top - s.tree.nHeight walk)
        (max (count - fetching.vBlocks.length) 128) = nToFetch
      obtain ⟨next, -, ancestor, here⟩ := rooted.exists_getAncestor (onPath.mem known)
        (show s.tree.nHeight walk + nToFetch ≤ s.tree.nHeight top by omega)
      have onward : s.tree.getAncestor best (s.tree.nHeight walk + nToFetch) = some next := by
        rw [← here]
        exact BlockTree.getAncestor_eq (ancestor.trans onPath)
      have step : s.tree.IsAncestor walk next := below.of_nHeight_le ancestor (by omega)
      have batch := fillBack_eq step (by omega) []
      rw [show s.tree.nHeight next - s.tree.nHeight walk - 1 = nToFetch - 1 by omega,
        List.append_nil] at batch
      rw [onward, Option.bind_some, batch, Option.bind_some,
        BlockTree.pathAbove_eq_append step ancestor, List.foldlM_append]
      cases (s.tree.pathAbove walk next).foldlM
          (s.visit mapBlocksInFlight nodeid count nWindowEnd) fetching with
      | error returned => rfl
      | ok between => exact ih ancestor (by omega) between
    · have same : walk = top := DogeCash.IsAncestor.eq_of_height s.tree.grows below
        (Nat.le_antisymm below.nHeight_le (Nat.le_of_not_lt higher))
      subst same
      rw [if_neg higher, pathAbove_self]
      rfl

theorem validPart_append (path more : List Ptr) :
    ∃ further, s.validPart (path ++ more) = s.validPart path ++ further ∧ further ⊆ more := by
  induction path with
  | nil => exact ⟨s.validPart more, rfl, List.takeWhile_subset _⟩
  | cons pindex rest ih =>
    cases valid : (s.marks pindex).isValid .tree with
    | false =>
      rw [List.cons_append, validPart_cons_of_invalid valid, validPart_cons_of_invalid valid]
      exact ⟨[], rfl, List.nil_subset _⟩
    | true =>
      obtain ⟨further, same, subset⟩ := ih
      rw [List.cons_append, validPart_cons valid, validPart_cons valid, same]
      exact ⟨further, rfl, subset⟩

theorem Walked.extend {more : List Ptr}
    (walked : Walked s mapBlocksInFlight count nWindowEnd path before after)
    (beyond : ∀ b ∈ more, nWindowEnd < s.tree.nHeight b) :
    Walked s mapBlocksInFlight count nWindowEnd (path ++ more) before after := by
  obtain ⟨further, same, subset⟩ := validPart_append (s := s) path more
  refine ⟨?_, ?_, ?_⟩
  · have nothing : further.filter (fun b =>
        s.isMissing mapBlocksInFlight b && s.tree.nHeight b ≤ nWindowEnd) = [] := by
      rw [List.filter_eq_nil_iff]
      intro b mem
      rw [decide_eq_false (Nat.not_le.mpr (beyond b (subset mem))), Bool.and_false]
      exact Bool.false_ne_true
    rw [missingOn, same, List.filter_append, nothing, List.append_nil]
    exact walked.vBlocks
  · exact walked.lastCommon.imp_right fun ⟨mem, linked⟩ =>
      ⟨List.mem_append_left _ mem, linked⟩
  · refine walked.staller.imp_right fun ⟨empty, staller⟩ => ⟨empty, ?_⟩
    rcases staller with nobody | awaited
    · exact .inl nobody
    · cases first : (s.validPart path).find? (s.isAwaited mapBlocksInFlight) with
      | some pindex =>
        refine .inr (awaited.trans ?_)
        simp [awaitedAfter, firstHolder, same, first]
      | none =>
        simp only [awaitedAfter, firstHolder, first, Option.bind_none] at awaited
        by_cases free : before.waitingfor = -1
        · rw [if_pos free] at awaited
          exact .inl awaited
        · rw [if_neg free] at awaited
          exact .inr (by rw [awaited, awaitedAfter, if_neg free])

/-! ## The plan -/

/-- A block index with an active chain: the blocks form a tree, the linked blocks are those whose
chain has all data, and the tip is one of them. -/
structure Indexed (s : BlockIndex Ptr) : Prop where
  rooted : s.tree.Rooted
  linked_iff : ∀ b ∈ s.tree.blocks, (s.marks b).nChainTx ≠ 0 ↔ s.HasChainData b
  tip_mem : s.tip ∈ s.tree.blocks
  tip_data : s.HasChainData s.tip

/-- What is recorded of a peer: its best block is known, and all data are there up to the last
common block. -/
structure PeerSound (s : BlockIndex Ptr) (state : PeerBlocks Ptr) : Prop where
  best_mem : ∀ b, state.pindexBestKnownBlock = some b → b ∈ s.tree.blocks
  common_mem : ∀ b, state.pindexLastCommonBlock = some b → b ∈ s.tree.blocks
  common_data : ∀ b, state.pindexLastCommonBlock = some b → s.HasChainData b

theorem HasChainData.ancestor {a b : Ptr} (data : s.HasChainData b)
    (ancestor : s.tree.IsAncestor a b) : s.HasChainData a :=
  fun c higher => data c (higher.trans ancestor)

theorem PeerSound.improve {state : PeerBlocks Ptr} {b : Ptr} (sound : s.PeerSound state)
    (known : b ∈ s.tree.blocks) :
    s.PeerSound (s.improve b state) ∧
      (s.improve b state).pindexLastCommonBlock = state.pindexLastCommonBlock := by
  have better : s.PeerSound { state with pindexBestKnownBlock := some b } := by
    refine ⟨fun best same => ?_, sound.common_mem, sound.common_data⟩
    cases same
    exact known
  unfold BlockIndex.improve
  split
  · exact ⟨better, rfl⟩
  · split
    · exact ⟨better, rfl⟩
    · exact ⟨sound, rfl⟩

/-- The plan for a peer whose best block is interesting. -/
structure Plan (s : BlockIndex Ptr) (mapBlocksInFlight : Ptr → Option ℕ) (count : ℕ)
    (best last : Ptr) (state : PeerBlocks Ptr) (vBlocks : List Ptr) (nodeStaller : Int) : Prop where
  /-- The blocks are the first ones missing within the window above the last common block. -/
  vBlocks_eq : vBlocks = (s.missingOn mapBlocksInFlight (s.tree.nHeight last + blockDownloadWindow)
    (s.tree.pathAbove last best)).take count
  /-- Up to the last common block nothing is missing. -/
  above : ∀ b, s.tree.IsAncestor b best → (s.marks b).haveData = false →
    b ∈ s.tree.pathAbove last best
  bestKnown : state.pindexBestKnownBlock = some best
  /-- The last common block has moved up to a block of the path with all data. -/
  common : ∃ b, state.pindexLastCommonBlock = some b ∧ s.tree.IsAncestor b best ∧ s.HasChainData b
  /-- A staller holds the first block in flight, and nothing is asked for. -/
  staller : nodeStaller ≠ -1 → vBlocks = [] ∧ ∃ holder : ℕ, nodeStaller = holder ∧
    s.firstHolder mapBlocksInFlight (s.tree.pathAbove last best) = some holder

theorem Plan.of_walked (indexed : s.Indexed) {best last : Ptr} (known : best ∈ s.tree.blocks)
    (ancestor : s.tree.IsAncestor last best) (data : s.HasChainData last)
    {state : PeerBlocks Ptr} (bestKnown : state.pindexBestKnownBlock = some best)
    {fetching : Fetching Ptr}
    (walked : Walked s mapBlocksInFlight count (s.tree.nHeight last + blockDownloadWindow)
      (s.tree.pathAbove last best) ⟨last, [], -1, -1⟩ fetching) :
    Plan s mapBlocksInFlight count best last
      { state with pindexLastCommonBlock := some fetching.pindexLastCommonBlock }
      fetching.vBlocks fetching.nodeStaller where
  vBlocks_eq := by
    rw [walked.vBlocks]
    rfl
  above b lower missing := by
    rw [mem_pathAbove]
    refine ⟨lower, ?_⟩
    by_contra higher
    rw [data b (lower.of_nHeight_le ancestor (Nat.le_of_not_lt higher))] at missing
    cases missing
  bestKnown := bestKnown
  common := by
    refine ⟨_, rfl, ?_⟩
    rcases walked.lastCommon with same | ⟨mem, linked⟩
    · rw [same]
      exact ⟨ancestor, data⟩
    · obtain ⟨lower, -⟩ := mem_pathAbove.mp mem
      exact ⟨lower, (indexed.linked_iff _ (lower.mem known)).mp linked⟩
  staller := by
    intro named
    rcases walked.staller with same | ⟨empty, nobody | awaited⟩
    · exact absurd same named
    · exact absurd nobody named
    · refine ⟨empty, ?_⟩
      rw [awaitedAfter, if_pos rfl] at awaited
      cases first : s.firstHolder mapBlocksInFlight (s.tree.pathAbove last best) with
      | none =>
        rw [first] at awaited
        exact absurd awaited named
      | some holder =>
        rw [first] at awaited
        exact ⟨holder, awaited, rfl⟩

theorem Indexed.lastCommonGuess (indexed : s.Indexed) {state : PeerBlocks Ptr}
    (sound : s.PeerSound state) (best : Ptr) :
    ∃ guess, s.lastCommonGuess best state = some guess ∧ guess ∈ s.tree.blocks ∧
      s.HasChainData guess := by
  unfold BlockIndex.lastCommonGuess
  split
  · rename_i last same
    exact ⟨last, rfl, sound.common_mem last same, sound.common_data last same⟩
  · obtain ⟨guess, found, ancestor, -⟩ := indexed.rooted.exists_getAncestor indexed.tip_mem
      (Nat.min_le_right (s.tree.nHeight best) (s.tree.nHeight s.tip))
    exact ⟨guess, found, ancestor.mem indexed.tip_mem, indexed.tip_data.ancestor ancestor⟩

variable [LinearOrder Ptr]

theorem fetchFrom_eq_some (rooted : s.tree.Rooted) {best last : Ptr} (known : best ∈ s.tree.blocks)
    (ancestor : s.tree.IsAncestor last best) (room : 0 < count)
    (mapBlocksInFlight : Ptr → Option ℕ) (nodeid : ℕ) (nodeStaller : Int) :
    ∃ fetching, s.fetchFrom mapBlocksInFlight nodeid count best last [] nodeStaller =
        some fetching ∧
      Walked s mapBlocksInFlight count (s.tree.nHeight last + blockDownloadWindow)
        (s.tree.pathAbove last best) ⟨last, [], -1, nodeStaller⟩ fetching := by
  rw [fetchFrom]
  by_cases same : last = best
  · subst same
    rw [pathAbove_self]
    exact ⟨_, if_pos rfl, .stop rfl⟩
  · rw [if_neg same]
    dsimp only
    have below := ancestor.nHeight_le
    obtain ⟨top, -, onPath, here⟩ := rooted.exists_getAncestor known
      (Nat.min_le_left (s.tree.nHeight best) (s.tree.nHeight last + blockDownloadWindow + 1))
    have start : s.tree.IsAncestor last top := ancestor.of_nHeight_le onPath (by omega)
    rw [← here]
    refine ⟨_, fetchLoop_eq rooted known onPath start (by omega) _, ?_⟩
    rw [BlockTree.pathAbove_eq_append start onPath]
    refine (walked_foldlM (pathAbove_pairwise _ _ _) room).extend fun b mem => ?_
    obtain ⟨lower, higher⟩ := mem_pathAbove.mp mem
    have := lower.nHeight_le
    omega

theorem PeerSound.processBlockAvailability {state : PeerBlocks Ptr} (sound : s.PeerSound state) :
    s.PeerSound (s.processBlockAvailability state) ∧
      (s.processBlockAvailability state).pindexLastCommonBlock = state.pindexLastCommonBlock := by
  unfold BlockIndex.processBlockAvailability
  split
  · exact ⟨sound, rfl⟩
  · split
    · rename_i found
      obtain ⟨kept, same⟩ := sound.improve found.1
      exact ⟨⟨kept.best_mem, kept.common_mem, kept.common_data⟩, same⟩
    · exact ⟨sound, rfl⟩

def Interesting (s : BlockIndex Ptr) (count : ℕ) (state : PeerBlocks Ptr) (best : Ptr) : Prop :=
  0 < count ∧ (s.processBlockAvailability state).pindexBestKnownBlock = some best ∧
    s.tree.nChainWork s.tip ≤ s.tree.nChainWork best

/-- What `FindNextBlocksToDownload` leaves of the record of a peer, the blocks it appends and the
staller it names. -/
structure Planned (s : BlockIndex Ptr) (mapBlocksInFlight : Ptr → Option ℕ) (count : ℕ)
    (before after : PeerBlocks Ptr) (vBlocks : List Ptr) (nodeStaller : Int) : Prop where
  sound : s.PeerSound after
  missing : ∀ b ∈ vBlocks, s.isMissing mapBlocksInFlight b = true ∧
    ∃ best, after.pindexBestKnownBlock = some best ∧ s.tree.IsAncestor b best
  increasing : vBlocks.Pairwise fun x y => s.tree.nHeight x < s.tree.nHeight y
  plan : ∀ best, s.Interesting count before best → ∃ guess last,
    s.lastCommonGuess best before = some guess ∧ s.tree.IsLastCommon guess best last ∧
      Plan s mapBlocksInFlight count best last after vBlocks nodeStaller
  idle : (∀ best, ¬ s.Interesting count before best) → vBlocks = [] ∧ nodeStaller = -1 ∧
    after.pindexLastCommonBlock = before.pindexLastCommonBlock

variable {state : PeerBlocks Ptr}

theorem Planned.of_dull {after : PeerBlocks Ptr} (sound : s.PeerSound after)
    (same : after.pindexLastCommonBlock = state.pindexLastCommonBlock)
    (dull : ∀ best, ¬ s.Interesting count state best) :
    Planned s mapBlocksInFlight count state after [] (-1) where
  sound := sound
  missing _ mem := absurd mem List.not_mem_nil
  increasing := .nil
  plan best interesting := absurd interesting (dull best)
  idle _ := ⟨rfl, rfl, same⟩

theorem Planned.of_plan {best guess last : Ptr} {after : PeerBlocks Ptr} {vBlocks : List Ptr}
    {nodeStaller : Int} (interesting : s.Interesting count state best)
    (known : best ∈ s.tree.blocks) (guessed : s.lastCommonGuess best state = some guess)
    (common : s.tree.IsLastCommon guess best last)
    (plan : Plan s mapBlocksInFlight count best last after vBlocks nodeStaller) :
    Planned s mapBlocksInFlight count state after vBlocks nodeStaller where
  sound := by
    obtain ⟨b, same, lower, data⟩ := plan.common
    refine ⟨fun other found => ?_, fun other found => ?_, fun other found => ?_⟩
    · cases plan.bestKnown.symm.trans found
      exact known
    · cases same.symm.trans found
      exact lower.mem known
    · cases same.symm.trans found
      exact data
  missing b mem := by
    rw [plan.vBlocks_eq] at mem
    obtain ⟨onPath, wanted⟩ := List.mem_filter.mp (List.mem_of_mem_take mem)
    have missing := (Bool.and_eq_true _ _ ▸ wanted).1
    exact ⟨missing, best, plan.bestKnown, (mem_pathAbove.mp (List.takeWhile_subset _ onPath)).1⟩
  increasing := by
    rw [plan.vBlocks_eq]
    exact (pathAbove_pairwise s.tree last best).sublist
      ((List.take_sublist _ _).trans (missingOn_sublist _ _))
  plan other interesting' := by
    cases interesting.2.1.symm.trans interesting'.2.1
    exact ⟨guess, last, guessed, common, plan⟩
  idle dull := absurd interesting (dull best)

/-- **The plan misses nothing.** For any index with an active chain, any sound record of a peer
and any blocks in flight `FindNextBlocksToDownload` ends. The blocks it appends are missing
ancestors of the peer's best block or this block, of growing height. If the peer's best block is
interesting they are the first ones of the path from the last common block; otherwise nothing is
appended, no staller is named and the last common block stays. -/
theorem findNextBlocksToDownload_planned (indexed : s.Indexed) (sound : s.PeerSound state)
    (mapBlocksInFlight : Ptr → Option ℕ) (nodeid count : ℕ) :
    ∃ after vBlocks nodeStaller,
      s.findNextBlocksToDownload mapBlocksInFlight nodeid count [] (-1) state =
        some (after, vBlocks, nodeStaller) ∧
      Planned s mapBlocksInFlight count state after vBlocks nodeStaller := by
  unfold findNextBlocksToDownload
  by_cases zero : count = 0
  · rw [if_pos zero]
    exact ⟨state, [], -1, rfl, .of_dull sound rfl fun best interesting =>
      absurd zero (Nat.ne_of_gt interesting.1)⟩
  rw [if_neg zero]
  obtain ⟨processed, same⟩ := sound.processBlockAvailability
  dsimp only
  cases known : (s.processBlockAvailability state).pindexBestKnownBlock with
  | none =>
    refine ⟨_, [], -1, rfl, .of_dull processed same fun best interesting => ?_⟩
    rw [Interesting, known] at interesting
    cases interesting.2.1
  | some best =>
    have mem := processed.best_mem best known
    by_cases less : s.tree.nChainWork best < s.tree.nChainWork s.tip
    · refine ⟨_, [], -1, if_pos less, .of_dull processed same fun other interesting => ?_⟩
      rw [Interesting, known] at interesting
      cases interesting.2.1
      exact absurd less (Nat.not_lt.mpr interesting.2.2)
    · have interesting : s.Interesting count state best :=
        ⟨Nat.pos_of_ne_zero zero, known, Nat.le_of_not_lt less⟩
      obtain ⟨guess, guessed, guessKnown, guessData⟩ := indexed.lastCommonGuess sound best
      have guessed' : s.lastCommonGuess best (s.processBlockAvailability state) = some guess := by
        rw [lastCommonGuess, same]
        exact guessed
      obtain ⟨last, found, common⟩ := indexed.rooted.lastCommonAncestor guessKnown mem
      obtain ⟨fetching, fetched, walked⟩ := fetchFrom_eq_some indexed.rooted mem common.right
        interesting.1 mapBlocksInFlight nodeid (-1)
      have plan := Plan.of_walked indexed mem common.right (guessData.ancestor common.left)
        known walked
      refine ⟨_, _, _, ?_, .of_plan interesting mem guessed common plan⟩
      simp only [if_neg less, guessed', found, Option.bind_some, fetched, Option.map_some]
      rw [known]

/-! ## Two branches -/

def twoBranches : BlockTree ℕ :=
  (((((BlockTree.genesis 0 1).add 1 0 1 (by decide) (by decide)).add 2 1 1 (by decide)
    (by decide)).add 3 0 1 (by decide) (by decide)).add 4 3 1 (by decide) (by decide)).add 5 4 1
    (by decide) (by decide)

/-- The blocks up to 3 have their data, and 2 is the tip. -/
def twoBranchesIndex : BlockIndex ℕ where
  tree := twoBranches
  marks b :=
    if b ≤ 3 then { nTx := 1, nChainTx := 1, validity := .scripts, haveData := true }
    else { validity := .tree }
  tip := 2
  setBlockIndexCandidates := []
  mapBlocksUnlinked := []
  nBlockSequenceId := 1
  pindexBestInvalid := none

theorem hasChainData_iff_lineage {s : BlockIndex ℕ} {b : ℕ} :
    s.HasChainData b ↔ ∀ a ∈ s.tree.lineage b, (s.marks a).haveData = true := by
  simp only [HasChainData, mem_lineage]

theorem indexed_twoBranches : twoBranchesIndex.Indexed where
  rooted := (((((BlockTree.rooted_genesis 0 1).add _ _).add _ _).add _ _).add _ _).add
    (by decide) (by decide)
  linked_iff := by
    simp only [hasChainData_iff_lineage]
    decide
  tip_mem := by decide
  tip_data := by
    rw [hasChainData_iff_lineage]
    decide

/-- A peer whose best block is 5: block 4 is asked for, as 5 is in flight. -/
theorem findNextBlocksToDownload_twoBranches :
    ∃ after vBlocks nodeStaller,
      twoBranchesIndex.findNextBlocksToDownload (fun b => if b = 5 then some 7 else none) 8 16 []
        (-1) { pindexBestKnownBlock := some 5 } = some (after, vBlocks, nodeStaller) ∧
      Planned twoBranchesIndex (fun b => if b = 5 then some 7 else none) 16
        { pindexBestKnownBlock := some 5 } after vBlocks nodeStaller := by
  have sound : twoBranchesIndex.PeerSound { pindexBestKnownBlock := some 5 } := by
    refine ⟨fun b same => ?_, fun b same => ?_, fun b same => ?_⟩
    · cases same
      decide
    · cases same
    · cases same
  exact findNextBlocksToDownload_planned indexed_twoBranches sound _ 8 16

/-- The last common block 1 is kept for a peer whose best block 3 is on the other branch, as it
has less work than the tip. -/
theorem not_lastCommon_ancestor :
    ¬ ∀ (s : BlockIndex ℕ) (state : PeerBlocks ℕ), s.Indexed → s.PeerSound state →
      ∀ (mapBlocksInFlight : ℕ → Option ℕ) (nodeid count : ℕ) (after : PeerBlocks ℕ)
        (vBlocks : List ℕ) (nodeStaller : Int),
        s.findNextBlocksToDownload mapBlocksInFlight nodeid count [] (-1) state =
          some (after, vBlocks, nodeStaller) →
        ∀ b best, after.pindexLastCommonBlock = some b → after.pindexBestKnownBlock = some best →
          s.tree.IsAncestor b best := by
  intro ancestors
  have sound : twoBranchesIndex.PeerSound
      { pindexBestKnownBlock := some 3, pindexLastCommonBlock := some 1 } := by
    refine ⟨fun b same => ?_, fun b same => ?_, fun b same => ?_⟩
    · cases same
      decide
    · cases same
      decide
    · cases same
      rw [hasChainData_iff_lineage]
      decide
  have ancestor := ancestors _ _ indexed_twoBranches sound (fun _ => none) 8 16 _ _ _ rfl 1 3 rfl
    rfl
  exact absurd ancestor (by decide)

end DogeCash.BlockIndex
