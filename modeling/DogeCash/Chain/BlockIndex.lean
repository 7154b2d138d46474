import Mathlib.Data.List.MinMax
import Mathlib.Data.Prod.Lex
import DogeCash.Chain.BlockTree

/-! # The block index and the choice of the active chain

The state that decides which chain is active: the marks of the index entries, the active
tip, the candidates for the tip and the blocks that wait for their predecessors. The
functions that change it are those of `main.cpp`. What they learn from the disk, from the
databases and from checking a block against the coin set is an argument.

A result `none` means that an assertion of the source fails or that no caller makes such a
call; no state is reached then.
-/

namespace DogeCash

/-- The levels of `BLOCK_VALID_MASK`. -/
inductive Validity
  | unknown
  | header
  | tree
  | transactions
  | chain
  | scripts
  deriving DecidableEq

def Validity.level : Validity → ℕ
  | unknown => 0
  | header => 1
  | tree => 2
  | transactions => 3
  | chain => 4
  | scripts => 5

/-- The fields of a `CBlockIndex` that change after its creation. `nStatus` is split into
the level and the flags. -/
structure BlockMarks where
  nTx : ℕ := 0
  nChainTx : ℕ := 0
  nSequenceId : ℕ := 0
  validity : Validity := .unknown
  haveData : Bool := false
  haveUndo : Bool := false
  failedValid : Bool := false
  failedChild : Bool := false

namespace BlockMarks

/-- `nStatus & BLOCK_FAILED_MASK`. -/
def failed (marks : BlockMarks) : Bool := marks.failedValid || marks.failedChild

/-- `IsValid(nUpTo)`. -/
def isValid (marks : BlockMarks) (nUpTo : Validity) : Bool :=
  !marks.failed && nUpTo.level ≤ marks.validity.level

/-- `RaiseValidity(nUpTo)`. -/
def raiseValidity (marks : BlockMarks) (nUpTo : Validity) : BlockMarks :=
  if marks.failed then marks
  else if marks.validity.level < nUpTo.level then { marks with validity := nUpTo }
  else marks

/-- `nStatus &= ~BLOCK_FAILED_MASK`. -/
def clearFailed (marks : BlockMarks) : BlockMarks :=
  { marks with failedValid := false, failedChild := false }

/-- What `ConnectBlock` records for a block that has passed all checks. -/
def recordScripts (marks : BlockMarks) : BlockMarks :=
  if !marks.haveUndo || !marks.isValid .scripts then
    { marks with haveUndo := true }.raiseValidity .scripts
  else marks

theorem raiseValidity_eq (marks : BlockMarks) (nUpTo : Validity) :
    marks.raiseValidity nUpTo = { marks with
      validity := (marks.raiseValidity nUpTo).validity } := by
  unfold raiseValidity
  split_ifs <;> rfl

theorem recordScripts_eq (marks : BlockMarks) :
    marks.recordScripts = { marks with
      validity := marks.recordScripts.validity, haveUndo := marks.recordScripts.haveUndo } := by
  unfold recordScripts
  split_ifs
  · rw [raiseValidity_eq]
  · rfl

/-- A change of the marks that neither brings data nor clears a flag. -/
structure Advance (before after : BlockMarks) : Prop where
  nTx : after.nTx = before.nTx
  nChainTx : after.nChainTx = before.nChainTx
  nSequenceId : after.nSequenceId = before.nSequenceId
  haveData : after.haveData = before.haveData
  level : before.validity.level ≤ after.validity.level
  failedValid : before.failedValid = true → after.failedValid = true
  failedChild : before.failedChild = true → after.failedChild = true

namespace Advance

variable {before after : BlockMarks}

theorem refl (marks : BlockMarks) : Advance marks marks :=
  ⟨rfl, rfl, rfl, rfl, Nat.le_refl _, id, id⟩

theorem setFailedValid (marks : BlockMarks) : Advance marks { marks with failedValid := true } :=
  ⟨rfl, rfl, rfl, rfl, Nat.le_refl _, fun _ => rfl, id⟩

theorem setFailedChild (marks : BlockMarks) : Advance marks { marks with failedChild := true } :=
  ⟨rfl, rfl, rfl, rfl, Nat.le_refl _, id, fun _ => rfl⟩

theorem failed (advance : Advance before after) (isFailed : before.failed = true) :
    after.failed = true := by
  simp only [BlockMarks.failed, Bool.or_eq_true] at isFailed ⊢
  exact isFailed.imp advance.failedValid advance.failedChild

end Advance

theorem le_level_raiseValidity (marks : BlockMarks) (nUpTo : Validity) :
    marks.validity.level ≤ (marks.raiseValidity nUpTo).validity.level := by
  unfold raiseValidity
  split_ifs with failed lower
  · exact Nat.le_refl _
  · exact Nat.le_of_lt lower
  · exact Nat.le_refl _

theorem level_le_raiseValidity {marks : BlockMarks} (unfailed : marks.failed = false)
    (nUpTo : Validity) : nUpTo.level ≤ (marks.raiseValidity nUpTo).validity.level := by
  by_cases lower : marks.validity.level < nUpTo.level
  · simp [raiseValidity, unfailed, lower]
  · simp only [raiseValidity, unfailed, lower, Bool.false_eq_true, ↓reduceIte]
    exact Nat.le_of_not_lt lower

theorem le_level_recordScripts (marks : BlockMarks) :
    marks.validity.level ≤ marks.recordScripts.validity.level := by
  unfold recordScripts
  split_ifs
  · exact le_level_raiseValidity { marks with haveUndo := true } .scripts
  · exact Nat.le_refl _

theorem advance_recordScripts (marks : BlockMarks) : Advance marks marks.recordScripts := by
  have level := le_level_recordScripts marks
  rw [recordScripts_eq] at level ⊢
  exact ⟨rfl, rfl, rfl, rfl, level, id, id⟩

theorem failed_recordScripts (marks : BlockMarks) : marks.recordScripts.failed = marks.failed := by
  rw [recordScripts_eq]
  rfl

end BlockMarks

/-- What comes of connecting a block: it is connected, it is found invalid (perhaps because
its data are corrupt), or the node fails, before or after the result is recorded. -/
inductive ConnectOutcome
  | connected
  | invalid (corruptionPossible : Bool)
  | failed (recorded : Bool)
  deriving DecidableEq

/-- What the environment answers during one activation: what comes of connecting and of
disconnecting each block, and whether the state could be flushed at the end. -/
structure ActivationEnv (Ptr : Type) where
  connects : Ptr → ConnectOutcome
  disconnects : Ptr → Bool
  flushes : Bool := true

/-- The block index and what is kept beside it. The chain `chainActive` is the ancestry of
its tip. -/
structure BlockIndex (Ptr : Type) where
  tree : BlockTree Ptr
  marks : Ptr → BlockMarks
  tip : Ptr
  setBlockIndexCandidates : List Ptr
  mapBlocksUnlinked : List (Ptr × Ptr)
  nBlockSequenceId : ℕ
  pindexBestInvalid : Option Ptr

namespace BlockIndex

variable {Ptr : Type} [LinearOrder Ptr]

instance : LawfulBEq Ptr := inferInstance

def genesis (b : Ptr) (nProof : ℕ) : BlockIndex Ptr where
  tree := .genesis b nProof
  marks :=
    Function.update (fun _ => {}) b
      { nTx := 1, nChainTx := 1, nSequenceId := 1, validity := .transactions, haveData := true }
  tip := b
  setBlockIndexCandidates := [b]
  mapBlocksUnlinked := []
  nBlockSequenceId := 2
  pindexBestInvalid := none

theorem genesis_marks (b : Ptr) (nProof : ℕ) : (genesis b nProof).marks b =
    { nTx := 1, nChainTx := 1, nSequenceId := 1, validity := .transactions, haveData := true } := by
  simp [genesis]

variable (s : BlockIndex Ptr)

def mark (b : Ptr) (change : BlockMarks → BlockMarks) : BlockIndex Ptr :=
  { s with marks := Function.update s.marks b (change (s.marks b)) }

theorem mark_marks (b : Ptr) (change : BlockMarks → BlockMarks) (x : Ptr) :
    (s.mark b change).marks x = if x = b then change (s.marks b) else s.marks x :=
  Function.update_apply ..

theorem advance_mark {b : Ptr} {change : BlockMarks → BlockMarks}
    (advance : (s.marks b).Advance (change (s.marks b))) (x : Ptr) :
    (s.marks x).Advance ((s.mark b change).marks x) := by
  rw [mark_marks]
  split
  · rename_i same
    rw [same]
    exact advance
  · exact .refl _

def eraseCandidate (b : Ptr) : BlockIndex Ptr :=
  { s with setBlockIndexCandidates := s.setBlockIndexCandidates.filter (· ≠ b) }

/-- `chainActive.Contains`. -/
def contains (b : Ptr) : Bool := s.tree.getAncestor s.tip (s.tree.nHeight b) = some b

/-- `CBlockIndexWorkComparator`. -/
def workLess (a b : Ptr) : Bool :=
  -- First sort by most total work, ...
  if s.tree.nChainWork a > s.tree.nChainWork b then false
  else if s.tree.nChainWork a < s.tree.nChainWork b then true
  -- ... then by earliest time received, ...
  else if (s.marks a).nSequenceId < (s.marks b).nSequenceId then false
  else if (s.marks a).nSequenceId > (s.marks b).nSequenceId then true
  -- ... and the address breaks ties.
  else if a < b then false
  else if a > b then true
  else false

def rank (b : Ptr) : ℕ ×ₗ ℕᵒᵈ ×ₗ Ptrᵒᵈ :=
  toLex (s.tree.nChainWork b, toLex (OrderDual.toDual (s.marks b).nSequenceId, OrderDual.toDual b))

/-- `AddToBlockIndex`, for a block whose predecessor is known. -/
def addToBlockIndex (b prev : Ptr) (nProof : ℕ) : Option (BlockIndex Ptr) :=
  if known : b ∈ s.tree.blocks then some s
  else if found : prev ∈ s.tree.blocks then
    some { s with
      tree := s.tree.add b prev nProof known found
      marks := Function.update s.marks b (({} : BlockMarks).raiseValidity .tree) }
  else none

def nextChainTx (b : Ptr) : ℕ :=
  match s.tree.pprev b with
  | none => (s.marks b).nTx % 2 ^ 32
  | some p => ((s.marks p).nChainTx + (s.marks b).nTx) % 2 ^ 32

/-- Make a block a candidate unless it is worse than the tip. -/
def addCandidate (b : Ptr) : BlockIndex Ptr :=
  { s with
    setBlockIndexCandidates :=
      if s.workLess b s.tip then s.setBlockIndexCandidates
      else s.setBlockIndexCandidates.insert b }

/-- One round of the queue of `ReceivedBlockTransactions`: all predecessors of the block
have data. -/
def link (b : Ptr) : BlockIndex Ptr :=
  { s with
    marks := Function.update s.marks b
      { s.marks b with nChainTx := s.nextChainTx b, nSequenceId := s.nBlockSequenceId }
    nBlockSequenceId := (s.nBlockSequenceId + 1) % 2 ^ 32
    mapBlocksUnlinked := s.mapBlocksUnlinked.filter (·.1 ≠ b) : BlockIndex Ptr }.addCandidate b

def waiting (b : Ptr) : List Ptr := (s.mapBlocksUnlinked.filter (·.1 = b)).map (·.2)

/-- The loop of `ReceivedBlockTransactions` over the blocks that may now be connected. -/
def linkQueue : ℕ → List Ptr → BlockIndex Ptr → BlockIndex Ptr
  | 0, _, s => s
  | _ + 1, [], s => s
  | n + 1, b :: queue, s => linkQueue n (queue ++ s.waiting b) (s.link b)

/-- What `ReceivedBlockTransactions` records for the block itself. -/
def receive (b : Ptr) (nTx : ℕ) : BlockIndex Ptr :=
  s.mark b fun marks =>
    { marks with nTx := nTx, nChainTx := 0, haveData := true }.raiseValidity .transactions

def predecessorLinked (b : Ptr) : Bool :=
  match s.tree.pprev b with
  | none => true
  | some p => (s.marks p).nChainTx ≠ 0

/-- Put a block among those that wait, if its predecessor is not known to be invalid. -/
def unlink (b : Ptr) : BlockIndex Ptr :=
  match s.tree.pprev b with
  | none => s
  | some p =>
    if (s.marks p).isValid .tree then
      { s with mapBlocksUnlinked := s.mapBlocksUnlinked ++ [(p, b)] }
    else s

def receivedBlockTransactions (b : Ptr) (nTx : ℕ) : BlockIndex Ptr :=
  let received := s.receive b nTx
  if received.predecessorLinked b then
    linkQueue (received.mapBlocksUnlinked.length + 1) [b] received
  else received.unlink b

/-- The blocks that `AcceptBlock` passes on: known, without data so far, neither the block
nor its predecessor known to be invalid, and with at least one transaction. -/
def accepts (b : Ptr) (nTx : ℕ) : Bool :=
  b ∈ s.tree.blocks && !(s.marks b).haveData && !(s.marks b).failed &&
    (match s.tree.pprev b with
    | none => true
    | some p => !(s.marks p).failed) &&
    0 < nTx && nTx < 2 ^ 32

/-- `AcceptBlock`, from the point where the block is stored. -/
def acceptBlock (b : Ptr) (nTx : ℕ) : Option (BlockIndex Ptr) :=
  if s.accepts b nTx then some (s.receivedBlockTransactions b nTx) else none

def invalidChainFound (b : Ptr) : BlockIndex Ptr :=
  { s with
    pindexBestInvalid :=
      match s.pindexBestInvalid with
      | none => some b
      | some best => if s.tree.nChainWork best < s.tree.nChainWork b then some b else some best }

def failBlock (b : Ptr) : BlockIndex Ptr :=
  (s.mark b fun marks => { marks with failedValid := true }).eraseCandidate b

def invalidBlockFound (b : Ptr) (corruptionPossible : Bool) : BlockIndex Ptr :=
  if corruptionPossible then s else (s.failBlock b).invalidChainFound b

def connectTip (b : Ptr) (outcome : ConnectOutcome) : Option (BlockIndex Ptr) :=
  if s.tree.pprev b = some s.tip then
    match outcome with
    | .connected => some { s.mark b BlockMarks.recordScripts with tip := b }
    | .invalid corruptionPossible => some (s.invalidBlockFound b corruptionPossible)
    | .failed true => some (s.mark b BlockMarks.recordScripts)
    | .failed false => some s
  else none

/-- `DisconnectTip`. Without undo data, which the genesis block never has, the tip stays. -/
def disconnectTip (disconnects : Bool) : Option (Bool × BlockIndex Ptr) :=
  if (s.marks s.tip).haveUndo && disconnects then
    match s.tree.pprev s.tip with
    | none => none
    | some p => some (true, { s with tip := p })
  else some (false, s)

def branch (b : Ptr) : List Ptr := (s.tree.lineage b).takeWhile (!s.contains ·)

/-- Look for a block that is invalid or has no data. -/
def scan : List Ptr → Option (Option Ptr)
  | [] => some none
  | b :: rest =>
    if (s.marks b).nChainTx = 0 && s.tree.nHeight b ≠ 0 then none
    else if (s.marks b).failed || !(s.marks b).haveData then some (some b)
    else scan rest

def branchAbove (pindexNew pindexTest : Ptr) : List Ptr :=
  (s.branch pindexNew).takeWhile (· ≠ pindexTest)

/-- Remove a chain from the candidates down to the block that makes it unusable. -/
def discard (pindexNew pindexTest : Ptr) : BlockIndex Ptr :=
  let above := s.branchAbove pindexNew pindexTest
  let kept := s.setBlockIndexCandidates.filter fun c => c ∉ above ∧ c ≠ pindexTest
  if (s.marks pindexTest).failed then
    { s.invalidChainFound pindexNew with
      marks := fun b => if b ∈ above then { s.marks b with failedChild := true } else s.marks b
      setBlockIndexCandidates := kept }
  else
    { s with
      mapBlocksUnlinked :=
        s.mapBlocksUnlinked ++ above.filterMap fun b => (s.tree.pprev b).map (·, b)
      setBlockIndexCandidates := kept }

/-- The loop of `FindMostWorkChain`. -/
def findMostWorkChainLoop : ℕ → BlockIndex Ptr → Option (Option Ptr × BlockIndex Ptr)
  | 0, s => some (none, s)
  | n + 1, s =>
    match s.setBlockIndexCandidates.argmax s.rank with
    | none => some (none, s)
    | some pindexNew =>
      match s.scan (s.branch pindexNew) with
      | none => none
      | some none => some (some pindexNew, s)
      | some (some pindexTest) => findMostWorkChainLoop n (s.discard pindexNew pindexTest)

/-- `FindMostWorkChain`. Every round but the last removes a candidate. -/
def findMostWorkChain : Option (Option Ptr × BlockIndex Ptr) :=
  findMostWorkChainLoop (s.setBlockIndexCandidates.length + 1) s

def pruneBlockIndexCandidates : Option (BlockIndex Ptr) :=
  let kept := s.setBlockIndexCandidates.filter fun c => !s.workLess c s.tip
  if kept = [] then none else some { s with setBlockIndexCandidates := kept }

/-- `chainActive.FindFork`. -/
def findFork (b : Ptr) : Option Ptr :=
  let start :=
    if s.tree.nHeight s.tip < s.tree.nHeight b then s.tree.getAncestor b (s.tree.nHeight s.tip)
    else some b
  start.bind fun pindex => (s.tree.lineage pindex).find? (s.contains ·)

/-- Disconnect the tip until the fork is reached or a block cannot be disconnected. -/
def disconnectTo (env : ActivationEnv Ptr) (pindexFork : Option Ptr) :
    ℕ → BlockIndex Ptr → Option (Bool × BlockIndex Ptr)
  | 0, s => some (true, s)
  | n + 1, s =>
    if some s.tip = pindexFork then some (true, s)
    else
      match s.disconnectTip (env.disconnects s.tip) with
      | none => none
      | some (false, stuck) => some (false, stuck)
      | some (true, lower) => disconnectTo env pindexFork n lower

/-- How the connection of some blocks ends: the next blocks are connected, the step ends,
or the node has failed. -/
inductive Progress
  | more
  | done
  | error

/-- Connect the blocks of a batch, of which `lowest` is the first. -/
def connectBatch (env : ActivationEnv Ptr) (pindexOldTip lowest : Ptr) :
    List Ptr → BlockIndex Ptr → Option (Progress × BlockIndex Ptr)
  | [], s => some (.more, s)
  | b :: rest, s =>
    match s.connectTip b (env.connects b), env.connects b with
    | none, _ => none
    | some found, .invalid corruptionPossible =>
      -- The block violates a consensus rule.
      some (.done, if corruptionPossible then found else found.invalidChainFound lowest)
    | some failing, .failed _ => some (.error, failing)
    | some connected, .connected =>
      match connected.pruneBlockIndexCandidates with
      | none => none
      | some pruned =>
        if s.tree.nChainWork pindexOldTip < s.tree.nChainWork pruned.tip then
          some (.done, pruned)
        else connectBatch env pindexOldTip lowest rest pruned

/-- The blocks of a batch, from the highest down to the height `next`. -/
def vpindexToConnect (pindexMostWork : Ptr) (next nTargetHeight : ℕ) : List Ptr :=
  match s.tree.getAncestor pindexMostWork nTargetHeight with
  | none => []
  | some pindexIter => (s.tree.lineage pindexIter).takeWhile fun b => s.tree.nHeight b + 1 ≠ next

/-- Connect the blocks up to `pindexMostWork` in batches of 32. `next` is the height of the
next block. -/
def connectTo (env : ActivationEnv Ptr) (pindexOldTip pindexMostWork : Ptr) :
    ℕ → ℕ → BlockIndex Ptr → Option (Bool × BlockIndex Ptr)
  | 0, _, s => some (true, s)
  | n + 1, next, s =>
    if next = s.tree.nHeight pindexMostWork + 1 then some (true, s)
    else
      let nTargetHeight := min (next + 31) (s.tree.nHeight pindexMostWork)
      let batch := s.vpindexToConnect pindexMostWork next nTargetHeight
      match batch.getLast? with
      | none => connectTo env pindexOldTip pindexMostWork n (nTargetHeight + 1) s
      | some lowest =>
        match connectBatch env pindexOldTip lowest batch.reverse s with
        | none => none
        | some (.error, failing) => some (false, failing)
        | some (.done, last) => some (true, last)
        | some (.more, higher) =>
          connectTo env pindexOldTip pindexMostWork n (nTargetHeight + 1) higher

def activateBestChainStep (env : ActivationEnv Ptr) (pindexMostWork : Ptr) :
    Option (Bool × BlockIndex Ptr) :=
  let pindexFork := s.findFork pindexMostWork
  match disconnectTo env pindexFork (s.tree.nHeight s.tip + 1) s with
  | none => none
  | some (false, stuck) => some (false, stuck)
  | some (true, forked) =>
    let next := pindexFork.elim 0 fun fork => s.tree.nHeight fork + 1
    connectTo env s.tip pindexMostWork (s.tree.nHeight pindexMostWork + 1) next forked

/-- What a round of `ActivateBestChain` comes to. -/
inductive Reply
  | returned (result : Bool)
  | again
  deriving DecidableEq

/-- A round of `ActivateBestChain`, from taking the lock to releasing it. Between two
rounds other calls may be made. -/
def activateBestChain (env : ActivationEnv Ptr) : Option (Reply × BlockIndex Ptr) :=
  match s.findMostWorkChain with
  | none => none
  | some (none, found) => some (.returned true, found)
  | some (some pindexMostWork, found) =>
    if pindexMostWork = found.tip then some (.returned true, found)
    else
      match found.activateBestChainStep env pindexMostWork with
      | none => none
      | some (false, failing) => some (.returned false, failing)
      | some (true, moved) =>
        if pindexMostWork = moved.tip then some (.returned env.flushes, moved)
        else some (.again, moved)

def failTip : BlockIndex Ptr :=
  (s.mark s.tip fun marks => { marks with failedChild := true }).eraseCandidate s.tip

/-- Disconnect the tip while the chain has an invalid block. -/
def disconnectInvalid (disconnects : Ptr → Bool) (b : Ptr) :
    ℕ → BlockIndex Ptr → Option (Bool × BlockIndex Ptr)
  | 0, s => some (true, s)
  | n + 1, s =>
    if s.contains b then
      match s.failTip.disconnectTip (disconnects s.tip) with
      | none => none
      | some (false, stuck) => some (false, stuck)
      | some (true, lower) => disconnectInvalid disconnects b n lower
    else some (true, s)

/-- Add the blocks that are as good as the tip to the candidates. -/
def restoreCandidates : BlockIndex Ptr :=
  { s with
    setBlockIndexCandidates := s.setBlockIndexCandidates ∪
      s.tree.blocks.filter fun b =>
        (s.marks b).isValid .transactions && (s.marks b).nChainTx ≠ 0 && !s.workLess b s.tip }

def invalidateBlock (disconnects : Ptr → Bool) (b : Ptr) : Option (Bool × BlockIndex Ptr) :=
  match disconnectInvalid disconnects b (s.tree.nHeight s.tip + 1) (s.failBlock b) with
  | none => none
  | some (false, stuck) => some (false, stuck)
  | some (true, lower) => some (true, lower.restoreCandidates.invalidChainFound b)

/-- The blocks that `ReconsiderBlock` takes from the index. -/
def reconsiders (pindex b : Ptr) : Bool :=
  !(s.marks b).isValid .transactions && s.tree.getAncestor b (s.tree.nHeight pindex) = some pindex

def clearBelow (pindex b : Ptr) : BlockMarks :=
  if b ∈ s.tree.blocks ∧ s.reconsiders pindex b then (s.marks b).clearFailed else s.marks b

def reconsiderBlock (pindex : Ptr) : BlockIndex Ptr :=
  let taken := s.tree.blocks.filter (s.reconsiders pindex)
  { s with
    marks := fun b =>
      -- Remove the invalidity flag from all ancestors too.
      if b ∈ s.tree.lineage pindex ∧ (s.clearBelow pindex b).failed then
        (s.clearBelow pindex b).clearFailed
      else s.clearBelow pindex b
    setBlockIndexCandidates := s.setBlockIndexCandidates ∪
      taken.filter fun b =>
        (s.clearBelow pindex b).isValid .transactions && (s.clearBelow pindex b).nChainTx ≠ 0 &&
          s.workLess s.tip b
    pindexBestInvalid := s.pindexBestInvalid.filter (· ∉ taken) }

/-- What the node does with the index under its lock. -/
inductive Request (Ptr : Type)
  | addToBlockIndex (b prev : Ptr) (nProof : ℕ)
  | receivedBlockTransactions (b : Ptr) (nTx : ℕ)
  | activateBestChain (env : ActivationEnv Ptr)
  | invalidateBlock (disconnects : Ptr → Bool) (b : Ptr)

/-- Perform a request. Only known blocks are invalidated. -/
def serve : Request Ptr → BlockIndex Ptr → Option (BlockIndex Ptr)
  | .addToBlockIndex b prev nProof, s => s.addToBlockIndex b prev nProof
  | .receivedBlockTransactions b nTx, s => s.acceptBlock b nTx
  | .activateBestChain env, s => (s.activateBestChain env).map (·.2)
  | .invalidateBlock disconnects b, s =>
    if b ∈ s.tree.blocks then (s.invalidateBlock disconnects b).map (·.2) else none

/-- The requests, the parts of an activation in any order, and `ReconsiderBlock`. -/
inductive Call (Ptr : Type)
  | request (request : Request Ptr)
  | connectTip (b : Ptr) (outcome : ConnectOutcome)
  | disconnectTip (disconnects : Bool)
  | findMostWorkChain
  | pruneBlockIndexCandidates
  | invalidBlockFound (b : Ptr) (corruptionPossible : Bool)
  | reconsiderBlock (b : Ptr)

def perform : Call Ptr → BlockIndex Ptr → Option (BlockIndex Ptr)
  | .request request, s => serve request s
  | .connectTip b outcome, s => s.connectTip b outcome
  | .disconnectTip disconnects, s => (s.disconnectTip disconnects).map (·.2)
  | .findMostWorkChain, s => s.findMostWorkChain.map (·.2)
  | .pruneBlockIndexCandidates, s => s.pruneBlockIndexCandidates
  | .invalidBlockFound b corruptionPossible, s =>
    if b ∈ s.tree.blocks then some (s.invalidBlockFound b corruptionPossible) else none
  | .reconsiderBlock b, s => if b ∈ s.tree.blocks then some (s.reconsiderBlock b) else none

end BlockIndex

end DogeCash
