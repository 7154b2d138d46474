import DogeCash.Chain.ArrivingBlocks
import DogeCash.Chain.IndexRestart

/-! # Rebuilding the block index

The chain work, the counts of transactions, the blocks that wait for their predecessors and the
candidates for the tip are only in memory. `LoadBlockIndexDB` computes them again in one pass over
the entries that were loaded, by their heights.
-/

namespace DogeCash

open Function (update update_of_ne update_self)
open List (mem_append mem_cons_self mem_map mem_singleton)
open ChainParams (main)
open CBlockIndex (ofBlock)
open NodeIndex (arrive)

/-- `BLOCK_VALID_MASK` -/
def blockValidMask : UInt32 := 7

/-- `BLOCK_FAILED_VALID` -/
def blockFailedValid : UInt32 := 32

/-- `BLOCK_FAILED_CHILD` -/
def blockFailedChild : UInt32 := 64

namespace CBlockIndex

/-- `nStatus & BLOCK_FAILED_MASK` -/
def isFailed (pindex : CBlockIndex) : Bool :=
  hasBits pindex.nStatus (blockFailedValid ||| blockFailedChild)

/-- `IsValid(nUpTo)` -/
def isValid (pindex : CBlockIndex) (nUpTo : Validity) : Bool :=
  !pindex.isFailed && nUpTo.level ≤ (pindex.nStatus &&& blockValidMask).toNat

end CBlockIndex

/-- `nStatus` of an entry with these marks. -/
def BlockMarks.nStatus (marks : BlockMarks) : UInt32 :=
  UInt32.ofNat marks.validity.level ||| (if marks.haveData then blockHaveData else 0) |||
    (if marks.haveUndo then blockHaveUndo else 0) |||
    (if marks.failedValid then blockFailedValid else 0) |||
    (if marks.failedChild then blockFailedChild else 0)

/-- The fields of the entries that are only in memory, and what is kept beside the entries. An entry
is named by its hash. -/
structure RebuiltIndex where
  nChainWork : UInt256 → UInt256 := fun _ => 0
  nChainTx : UInt256 → UInt32 := fun _ => 0
  mapBlocksUnlinked : List (UInt256 × UInt256) := []
  setBlockIndexCandidates : List UInt256 := []
  pindexBestInvalid : Option UInt256 := none
  pindexBestHeader : Option UInt256 := none

section Rebuild

variable {Ptr : Type} [LinearOrder Ptr] (address : UInt256 ↪ Ptr)

namespace RebuiltIndex

/-- `CBlockIndexWorkComparator`, after a restart: all sequence numbers are 0. -/
def workLess (index : RebuiltIndex) (a b : UInt256) : Bool :=
  if index.nChainWork a > index.nChainWork b then false
  else if index.nChainWork a < index.nChainWork b then true
  else if address a < address b then false
  else if address a > address b then true
  else false

variable (pindex : UInt256) (entry : CBlockIndex) (index : RebuiltIndex)

def setChainWork : RebuiltIndex :=
  { index with
    nChainWork := update index.nChainWork pindex
      (entry.pprev.elim 0 index.nChainWork + getBlockProof entry.nBits) }

/-- The count of the transactions up to an entry that has data, unless it waits for the one before
it. -/
def setChainTx : RebuiltIndex :=
  if entry.hasData then
    match entry.pprev with
    | some pprev =>
      if index.nChainTx pprev ≠ 0 then
        { index with nChainTx := update index.nChainTx pindex (index.nChainTx pprev + entry.nTx) }
      else
        { index with
          nChainTx := update index.nChainTx pindex 0
          mapBlocksUnlinked := index.mapBlocksUnlinked ++ [(pprev, pindex)] }
    | none => { index with nChainTx := update index.nChainTx pindex entry.nTx }
  else index

def addCandidate : RebuiltIndex :=
  if entry.isValid .transactions && (index.nChainTx pindex ≠ 0 || entry.pprev.isNone) then
    { index with setBlockIndexCandidates := index.setBlockIndexCandidates.insert pindex }
  else index

/-- The entry with the most work among those that are known to be invalid. -/
def setBestInvalid : RebuiltIndex :=
  if entry.isFailed &&
      index.pindexBestInvalid.all fun best => index.nChainWork pindex > index.nChainWork best then
    { index with pindexBestInvalid := some pindex }
  else index

def setBestHeader : RebuiltIndex :=
  if entry.isValid .tree && index.pindexBestHeader.all fun best => index.workLess address best pindex
  then { index with pindexBestHeader := some pindex }
  else index

/-- A round of the loop of `LoadBlockIndexDB`. -/
def rebuild : RebuiltIndex :=
  ((((index.setChainWork pindex entry).setChainTx pindex entry).addCandidate pindex
    entry).setBestInvalid pindex entry).setBestHeader address pindex entry

end RebuiltIndex

/-- `vSortedByHeight` -/
def sortedByHeight (mapBlockIndex : BlockMap) : List (Sigma fun _ : UInt256 => CBlockIndex) :=
  mapBlockIndex.entries.insertionSort fun first second =>
    toLex (first.2.nHeight.toInt, address first.1) ≤ toLex (second.2.nHeight.toInt, address second.1)

/-- `LoadBlockIndexDB`, up to the pruning of the candidates, with the addresses that the entries
get. `none` where it returns `false`. -/
def loadBlockIndexDB (env : IndexEnv) (records : List (List UInt8 × List UInt8)) :
    Option RebuiltIndex :=
  (loadBlockIndexGuts env .init records).map fun load =>
    (sortedByHeight address load.mapBlockIndex).foldl
      (fun index item => index.rebuild address item.1 item.2) {}

end Rebuild

/-! ## The status bits -/

namespace BlockMarks

variable (marks : BlockMarks)

theorem hasBits_nStatus_haveData : hasBits marks.nStatus blockHaveData = marks.haveData := by
  unfold nStatus
  generalize marks.haveData = a, marks.haveUndo = b, marks.failedValid = c, marks.failedChild = d
  cases marks.validity <;> revert a b c d <;> decide

theorem hasBits_nStatus_failed :
    hasBits marks.nStatus (blockFailedValid ||| blockFailedChild) = marks.failed := by
  unfold nStatus failed
  generalize marks.haveData = a, marks.haveUndo = b, marks.failedValid = c, marks.failedChild = d
  cases marks.validity <;> revert a b c d <;> decide

theorem nStatus_and_blockValidMask :
    (marks.nStatus &&& blockValidMask).toNat = marks.validity.level := by
  unfold nStatus
  generalize marks.haveData = a, marks.haveUndo = b, marks.failedValid = c, marks.failedChild = d
  cases marks.validity <;> revert a b c d <;> decide

end BlockMarks

/-! ## One round -/

section Round

variable {Ptr : Type} {address newAddress : UInt256 ↪ Ptr} {node : NodeIndex Ptr}
  {hash : UInt256} {entry : CBlockIndex} {done : List UInt256} {index : RebuiltIndex}

/-- What of the entry of a block is on disk. -/
@[mk_iff]
structure IsEntryFor (address : UInt256 ↪ Ptr) (node : NodeIndex Ptr) (hash : UInt256)
    (entry : CBlockIndex) : Prop where
  known : address hash ∈ node.tree.blocks
  pprev : entry.pprev.map address = node.tree.pprev (address hash)
  nHeight : entry.nHeight.toInt = node.tree.nHeight (address hash)
  nBits : entry.nBits = node.nBits (address hash)
  nTx : entry.nTx.toNat = (node.marks (address hash)).nTx
  nStatus : entry.nStatus = (node.marks (address hash)).nStatus

namespace IsEntryFor

variable (isEntry : IsEntryFor address node hash entry)
include isEntry

theorem hasData : entry.hasData = (node.marks (address hash)).haveData := by
  rw [CBlockIndex.hasData, isEntry.nStatus, BlockMarks.hasBits_nStatus_haveData]

theorem isValid (nUpTo : Validity) :
    entry.isValid nUpTo = (node.marks (address hash)).isValid nUpTo := by
  rw [CBlockIndex.isValid, CBlockIndex.isFailed, isEntry.nStatus,
    BlockMarks.hasBits_nStatus_failed, BlockMarks.nStatus_and_blockValidMask, BlockMarks.isValid]

end IsEntryFor

/-- What was computed again for the entries so far is what the node has. -/
structure RebuildsTo (address : UInt256 ↪ Ptr) (node : NodeIndex Ptr) (done : List UInt256)
    (index : RebuiltIndex) : Prop where
  nChainWork : ∀ hash ∈ done, (index.nChainWork hash).toNat = node.tree.nChainWork (address hash)
  nChainTx : ∀ hash, (index.nChainTx hash).toNat =
    if hash ∈ done then (node.marks (address hash)).nChainTx else 0
  unlinked : ∀ p hash, (p, hash) ∈ index.mapBlocksUnlinked ↔
    hash ∈ done ∧ (address p, address hash) ∈ node.mapBlocksUnlinked
  distinct : index.mapBlocksUnlinked.Nodup
  candidates : ∀ hash ∈ done, node.HasChainData (address hash) →
    hash ∈ index.setBlockIndexCandidates

namespace RebuiltIndex

@[simp] theorem setChainWork_nChainWork : (index.setChainWork hash entry).nChainWork =
    update index.nChainWork hash
      (entry.pprev.elim 0 index.nChainWork + getBlockProof entry.nBits) := rfl

@[simp] theorem setChainWork_nChainTx :
    (index.setChainWork hash entry).nChainTx = index.nChainTx := rfl

@[simp] theorem setChainTx_nChainWork :
    (index.setChainTx hash entry).nChainWork = index.nChainWork := by
  unfold setChainTx
  split_ifs
  · split
    · split_ifs <;> rfl
    · rfl
  · rfl

@[simp] theorem setChainTx_candidates :
    (index.setChainTx hash entry).setBlockIndexCandidates = index.setBlockIndexCandidates := by
  unfold setChainTx
  split_ifs
  · split
    · split_ifs <;> rfl
    · rfl
  · rfl

theorem addCandidate_eq : index.addCandidate hash entry =
    { index with
      setBlockIndexCandidates := (index.addCandidate hash entry).setBlockIndexCandidates } := by
  unfold addCandidate
  split_ifs <;> rfl

theorem subset_addCandidate :
    index.setBlockIndexCandidates ⊆ (index.addCandidate hash entry).setBlockIndexCandidates := by
  unfold addCandidate
  split_ifs
  · exact fun other mem => List.mem_insert_of_mem mem
  · exact List.Subset.refl _

variable [LinearOrder Ptr]

variable (newAddress hash entry index) in
theorem rebuild_eq : ∃ invalid header, index.rebuild newAddress hash entry =
    { ((index.setChainWork hash entry).setChainTx hash entry).addCandidate hash entry with
      pindexBestInvalid := invalid
      pindexBestHeader := header } := by
  unfold rebuild
  generalize ((index.setChainWork hash entry).setChainTx hash entry).addCandidate hash entry = next
  unfold setBestHeader
  split_ifs
  · unfold setBestInvalid
    split_ifs <;> exact ⟨_, _, rfl⟩
  · unfold setBestInvalid
    split_ifs <;> exact ⟨_, _, rfl⟩

end RebuiltIndex

namespace RebuildsTo

section Count

variable (rebuilds : RebuildsTo address node done index)
include rebuilds

theorem update_nChainTx {count : UInt32}
    (value : count.toNat = (node.marks (address hash)).nChainTx) (other : UInt256) :
    (update index.nChainTx hash count other).toNat =
      if other ∈ done ++ [hash] then (node.marks (address other)).nChainTx else 0 := by
  by_cases same : other = hash
  · subst same
    rw [update_self, if_pos (List.mem_append_right _ mem_cons_self), value]
  · rw [update_of_ne same, rebuilds.nChainTx other]
    simp only [mem_append, mem_singleton, same, or_false]

theorem mem_unlinked_of_linked
    (linked : ∀ p, (address p, address hash) ∉ node.mapBlocksUnlinked) (p other : UInt256) :
    (p, other) ∈ index.mapBlocksUnlinked ↔
      other ∈ done ++ [hash] ∧ (address p, address other) ∈ node.mapBlocksUnlinked := by
  rw [rebuilds.unlinked p other, mem_append, mem_singleton]
  constructor
  · exact fun before => ⟨.inl before.1, before.2⟩
  · rintro ⟨before | rfl, pair⟩
    · exact ⟨before, pair⟩
    · exact absurd pair (linked p)

theorem mem_unlinked_of_waiting {pprev : UInt256}
    (waits : ∀ p, (address p, address hash) ∈ node.mapBlocksUnlinked ↔ p = pprev)
    (p other : UInt256) : (p, other) ∈ index.mapBlocksUnlinked ++ [(pprev, hash)] ↔
      other ∈ done ++ [hash] ∧ (address p, address other) ∈ node.mapBlocksUnlinked := by
  rw [mem_append, rebuilds.unlinked p other, mem_append, mem_singleton,
    mem_singleton, Prod.mk.injEq]
  constructor
  · rintro (⟨before, pair⟩ | ⟨rfl, rfl⟩)
    · exact ⟨.inl before, pair⟩
    · exact ⟨.inr rfl, (waits p).mpr rfl⟩
  · rintro ⟨before | rfl, pair⟩
    · exact .inl ⟨before, pair⟩
    · exact .inr ⟨(waits p).mp pair, rfl⟩

theorem distinct_concat (fresh : hash ∉ done) (pprev : UInt256) :
    (index.mapBlocksUnlinked ++ [(pprev, hash)]).Nodup := by
  refine List.nodup_append.mpr ⟨rebuilds.distinct, List.nodup_singleton _, ?_⟩
  rintro pair mem _ here rfl
  cases mem_singleton.mp here
  exact fresh ((rebuilds.unlinked pprev hash).mp mem).1

end Count

variable [LinearOrder Ptr] (rebuilds : RebuildsTo address node done index) (fresh : hash ∉ done)
  (isEntry : IsEntryFor address node hash entry)
  (above : ∀ p, entry.pprev = some p → p ∈ done)
include rebuilds isEntry above

theorem setChainWork (maintained : node.Maintained) :
    ∀ other ∈ done ++ [hash], ((index.setChainWork hash entry).nChainWork other).toNat =
      node.tree.nChainWork (address other) := by
  intro other mem
  rw [RebuiltIndex.setChainWork_nChainWork]
  by_cases same : other = hash
  · subst same
    rw [update_self, maintained.work _ isEntry.known, ← isEntry.pprev, ← isEntry.nBits,
      BitVec.toNat_add]
    cases parent : entry.pprev with
    | none => rfl
    | some p =>
      rw [Option.elim_some, Option.map_some, Option.elim_some,
        rebuilds.nChainWork p (above p parent)]
  · have before : other ∈ done := by
      rcases mem_append.mp mem with before | here
      · exact before
      · exact absurd (mem_singleton.mp here) same
    rw [update_of_ne same]
    exact rebuilds.nChainWork other before

include fresh in
theorem setChainTx (maintained : node.Maintained) :
    let next := (index.setChainWork hash entry).setChainTx hash entry
    (∀ other, (next.nChainTx other).toNat =
      if other ∈ done ++ [hash] then (node.marks (address other)).nChainTx else 0) ∧
      (∀ p other, (p, other) ∈ next.mapBlocksUnlinked ↔
        other ∈ done ++ [hash] ∧ (address p, address other) ∈ node.mapBlocksUnlinked) ∧
      next.mapBlocksUnlinked.Nodup := by
  have linking := maintained.complete.linking
  have waits := fun p => linking.mem_unlinked_iff (p := address p) (b := address hash)
  simp only [RebuiltIndex.setChainTx, isEntry.hasData]
  cases data : (node.marks (address hash)).haveData with
  | false =>
    rw [if_neg Bool.false_ne_true]
    have unset := linking.nChainTx_eq_zero isEntry.known data
    refine ⟨fun other => ?_, rebuilds.mem_unlinked_of_linked fun p pair => ?_, rebuilds.distinct⟩
    · rw [RebuiltIndex.setChainWork_nChainTx, rebuilds.nChainTx other]
      by_cases same : other = hash
      · subst same
        rw [if_neg fresh, unset, ite_self]
      · simp only [mem_append, mem_singleton, same, or_false]
    · have here := ((waits p).mp pair).2.1
      rw [data] at here
      cases here
  | true =>
    have count := linking.nChainTx_eq isEntry.known data
    cases parent : entry.pprev with
    | none =>
      have root : node.tree.pprev (address hash) = none := by rw [← isEntry.pprev, parent]; rfl
      have first : node.predecessorLinked (address hash) = true :=
        BlockIndex.predecessorLinked_iff.mpr fun p link => by rw [root] at link; cases link
      rw [if_pos first, BlockIndex.nextChainTx, root] at count
      refine ⟨rebuilds.update_nChainTx ?_, rebuilds.mem_unlinked_of_linked fun p pair => ?_,
        rebuilds.distinct⟩
      · rw [count, ← isEntry.nTx]
        exact (Nat.mod_eq_of_lt entry.nTx.toNat_lt).symm
      · have link := ((waits p).mp pair).1
        rw [root] at link
        cases link
    | some p =>
      have link : node.tree.pprev (address hash) = some (address p) := by
        rw [← isEntry.pprev, parent]
        rfl
      have before : (index.nChainTx p).toNat = (node.marks (address p)).nChainTx := by
        rw [rebuilds.nChainTx p, if_pos (above p parent)]
      by_cases unset : index.nChainTx p = 0
      · have missing : (node.marks (address p)).nChainTx = 0 := by
          rw [← before, unset]
          rfl
        have stuck : ¬node.predecessorLinked (address hash) = true := fun linked =>
          BlockIndex.predecessorLinked_iff.mp linked _ link missing
        rw [if_neg stuck] at count
        simp only [RebuiltIndex.setChainWork_nChainTx, unset, ne_eq, not_true_eq_false, ↓reduceIte]
        refine ⟨rebuilds.update_nChainTx count.symm, rebuilds.mem_unlinked_of_waiting fun q => ?_,
          rebuilds.distinct_concat fresh p⟩
        rw [waits q, link, Option.some.injEq]
        constructor
        · exact fun pair => (address.injective pair.1).symm
        · rintro rfl
          exact ⟨rfl, data, missing⟩
      · have isLinked : (node.marks (address p)).nChainTx ≠ 0 := by
          rw [← before]
          exact fun zero => unset (UInt32.toNat_inj.mp zero)
        have linked : node.predecessorLinked (address hash) = true := by
          refine BlockIndex.predecessorLinked_iff.mpr fun q other => ?_
          rw [link] at other
          cases other
          exact isLinked
        rw [if_pos linked, BlockIndex.nextChainTx, link] at count
        simp only [RebuiltIndex.setChainWork_nChainTx, ne_eq, unset, not_false_eq_true, ↓reduceIte]
        refine ⟨rebuilds.update_nChainTx ?_, rebuilds.mem_unlinked_of_linked fun q pair => ?_,
          rebuilds.distinct⟩
        · rw [count, UInt32.toNat_add, before, isEntry.nTx]
        · obtain ⟨other, -, missing⟩ := (waits q).mp pair
          obtain rfl := address.injective (Option.some.inj (link.symm.trans other))
          exact isLinked missing

include fresh in
/-- **One round**: what the node has for the next entry is computed again. -/
theorem rebuild (maintained : node.Maintained) :
    RebuildsTo address node (done ++ [hash]) (index.rebuild newAddress hash entry) := by
  obtain ⟨invalid, header, same⟩ := RebuiltIndex.rebuild_eq newAddress hash entry index
  have work := rebuilds.setChainWork isEntry above maintained
  obtain ⟨counts, unlinked, distinct⟩ := rebuilds.setChainTx fresh isEntry above maintained
  rw [same, RebuiltIndex.addCandidate_eq]
  refine ⟨fun other mem => ?_, counts, unlinked, distinct, fun other mem data => ?_⟩
  · rw [RebuiltIndex.setChainTx_nChainWork]
    exact work other mem
  · rcases mem_append.mp mem with before | here
    · refine RebuiltIndex.subset_addCandidate ?_
      rw [RebuiltIndex.setChainTx_candidates]
      exact rebuilds.candidates other before data
    · obtain rfl := mem_singleton.mp here
      have linked := (maintained.complete.linking.nChainTx_ne_zero_iff isEntry.known).mpr data
      have level := maintained.complete.level _ isEntry.known
        (data _ (BlockTree.isAncestor_refl _)) (maintained.unfailed _ isEntry.known)
      have valid : entry.isValid .transactions = true := by
        rw [isEntry.isValid, BlockMarks.isValid, maintained.unfailed _ isEntry.known]
        exact decide_eq_true level
      have counted : ((index.setChainWork other entry).setChainTx other entry).nChainTx other ≠
          0 := by
        intro zero
        have value := counts other
        rw [zero, if_pos mem] at value
        exact linked value.symm
      unfold RebuiltIndex.addCandidate
      rw [if_pos (by rw [valid, decide_eq_true counted]; rfl)]
      exact List.mem_insert_self

end RebuildsTo

end Round

/-! ## The whole index -/

section Index

variable {Ptr : Type} [LinearOrder Ptr] {env : IndexEnv} {address newAddress : UInt256 ↪ Ptr}
  {node : NodeIndex Ptr} {tree : IndexTree env} {others : OtherRecords} {load : IndexLoad}

/-- The entries are those of the node. -/
structure Describes (address : UInt256 ↪ Ptr) (tree : IndexTree env) (node : NodeIndex Ptr) :
    Prop where
  entries : ∀ pair ∈ tree.entries, IsEntryFor address node pair.1 pair.2
  blocks : ∀ b ∈ node.tree.blocks, ∃ pair ∈ tree.entries, address pair.1 = b

/-- What was computed again is what the node has, under the hashes of the blocks. -/
structure Restores (address : UInt256 ↪ Ptr) (node : NodeIndex Ptr) (index : RebuiltIndex) :
    Prop where
  nChainWork : ∀ hash, address hash ∈ node.tree.blocks →
    (index.nChainWork hash).toNat = node.tree.nChainWork (address hash)
  nChainTx : ∀ hash, address hash ∈ node.tree.blocks →
    (index.nChainTx hash).toNat = (node.marks (address hash)).nChainTx
  unlinked : (index.mapBlocksUnlinked.map (Prod.map address address)).Perm node.mapBlocksUnlinked
  candidates : ∀ hash, address hash ∈ node.tree.blocks → node.HasChainData (address hash) →
    node.tree.nChainWork node.tip ≤ node.tree.nChainWork (address hash) →
    hash ∈ index.setBlockIndexCandidates

theorem RebuildsTo.restores {done : List UInt256} {index : RebuiltIndex}
    (rebuilds : RebuildsTo address node done index) (maintained : node.Maintained)
    (all : ∀ b ∈ node.tree.blocks, ∃ hash ∈ done, address hash = b) :
    Restores address node index := by
  have known : ∀ hash, address hash ∈ node.tree.blocks → hash ∈ done := by
    intro hash mem
    obtain ⟨other, present, same⟩ := all _ mem
    exact address.injective same ▸ present
  have distinct : (index.mapBlocksUnlinked.map (Prod.map address address)).Nodup :=
    rebuilds.distinct.map (address.injective.prodMap address.injective)
  refine ⟨fun hash mem => rebuilds.nChainWork hash (known hash mem), fun hash mem => ?_,
    (List.perm_ext_iff_of_nodup distinct ?_).mpr ?_,
    fun hash mem data _ => rebuilds.candidates hash (known hash mem) data⟩
  · rw [rebuilds.nChainTx hash, if_pos (known hash mem)]
  · exact maintained.complete.linking.distinct.of_map Prod.snd
  · rintro ⟨p, b⟩
    constructor
    · intro mem
      obtain ⟨⟨q, hash⟩, pair, same⟩ := mem_map.mp mem
      cases same
      exact ((rebuilds.unlinked q hash).mp pair).2
    · intro pair
      obtain ⟨above, -, -⟩ := maintained.complete.linking.unlinked p b pair
      obtain ⟨here, there⟩ := node.tree.known b p above
      obtain ⟨hash, present, rfl⟩ := all b here
      obtain ⟨q, -, rfl⟩ := all p there
      exact mem_map.mpr ⟨(q, hash), (rebuilds.unlinked q hash).mpr ⟨present, pair⟩, rfl⟩

omit [LinearOrder Ptr] in
theorem IsEntryFor.restored {pair : UInt256 × CBlockIndex} {block : Wire.CBlock}
    (isEntry : IsEntryFor address node pair.1 pair.2) (madeFrom : IsEntryOf env block pair) :
    IsEntryFor address node pair.1 (restored env.params pair.2) := by
  have parent : pointer (pair.2.pprev.getD 0) = pair.2.pprev := by
    rw [madeFrom.pprev, getD_pointer]
  refine ⟨isEntry.known, ?_, isEntry.nHeight, isEntry.nBits, isEntry.nTx, isEntry.nStatus⟩
  exact (congrArg (Option.map address) parent).trans isEntry.pprev

def IndexLoad.pprevOf (load : IndexLoad) (hash : UInt256) : Option UInt256 :=
  (load.mapBlockIndex.lookup hash).bind CBlockIndex.pprev

def IndexLoad.heightOf (load : IndexLoad) (hash : UInt256) : Int :=
  (entryAt load.mapBlockIndex hash).nHeight.toInt

section Loaded

variable (loaded : loadBlockIndexGuts env .init
  (tree.entries.map (writeRecord env.params) ++ others.1) = some load)
include loaded

theorem mem_sortedByHeight {item : Sigma fun _ : UInt256 => CBlockIndex} :
    item ∈ sortedByHeight newAddress load.mapBlockIndex ↔
      ∃ pair ∈ tree.entries, pair.1 = item.1 ∧ restored env.params pair.2 = item.2 :=
  (List.perm_insertionSort _ _).mem_iff.trans
    (KeyedMap.mem_entries_iff.trans (tree.lookup_of_loaded others loaded))

omit loaded in
theorem lookup_of_sortedByHeight {item : Sigma fun _ : UInt256 => CBlockIndex}
    (mem : item ∈ sortedByHeight newAddress load.mapBlockIndex) :
    load.mapBlockIndex.lookup item.1 = some item.2 :=
  KeyedMap.mem_entries_iff.mp ((List.perm_insertionSort _ _).mem_iff.mp mem)

theorem heightOf_of_pprevOf {hash p : UInt256} (above : load.pprevOf hash = some p) :
    load.heightOf hash = load.heightOf p + 1 ∧ p ∈ load.mapBlockIndex := by
  obtain ⟨entry, found, parent⟩ := Option.bind_eq_some_iff.mp above
  obtain ⟨pair, mem, rfl, rfl⟩ := (tree.lookup_of_loaded others loaded).mp found
  obtain ⟨block, madeFrom⟩ := tree.blocks pair mem
  have written : pair.2.pprev = some p := by
    change pointer (pair.2.pprev.getD 0) = some p at parent
    rwa [madeFrom.pprev, getD_pointer, ← madeFrom.pprev] at parent
  obtain ⟨other, present, rfl, height⟩ := tree.parent pair mem p written
  have there := (tree.lookup_of_loaded others loaded).mpr ⟨other, present, rfl, rfl⟩
  refine ⟨?_, AList.lookup_isSome.mp (by rw [there]; rfl)⟩
  rw [IndexLoad.heightOf, IndexLoad.heightOf, entryAt_eq found, entryAt_eq there]
  exact height

theorem parentsFirst_sortedByHeight :
    ParentsFirst load.pprevOf [] ((sortedByHeight newAddress load.mapBlockIndex).map Sigma.fst) := by
  have keys : ((sortedByHeight newAddress load.mapBlockIndex).map Sigma.fst).Perm
      load.mapBlockIndex.keys :=
    (List.perm_insertionSort _ _).map _
  refine ParentsFirst.of_sorted (fun b p above => (heightOf_of_pprevOf loaded above).1) ?_
    (fun b _ p above => ?_) ?_
  · exact keys.nodup_iff.mpr load.mapBlockIndex.nodupKeys
  · exact keys.mem_iff.mpr (heightOf_of_pprevOf loaded above).2
  · have sorted : (sortedByHeight newAddress load.mapBlockIndex).Pairwise fun first second =>
        toLex (first.2.nHeight.toInt, newAddress first.1) ≤
          toLex (second.2.nHeight.toInt, newAddress second.1) :=
      List.pairwise_insertionSort _ _
    refine List.pairwise_map.mpr (sorted.imp_of_mem fun {first second} here there ordered => ?_)
    rw [IndexLoad.heightOf, IndexLoad.heightOf, entryAt_eq (lookup_of_sortedByHeight here),
      entryAt_eq (lookup_of_sortedByHeight there)]
    exact Prod.Lex.monotone_fst _ _ ordered

theorem restores_of_loaded (maintained : node.Maintained)
    (describes : Describes address tree node) :
    Restores address node ((sortedByHeight newAddress load.mapBlockIndex).foldl
      (fun index item => index.rebuild newAddress item.1 item.2) {}) := by
  have rebuilds : RebuildsTo address node
      ([] ++ (sortedByHeight newAddress load.mapBlockIndex).map Sigma.fst)
      ((sortedByHeight newAddress load.mapBlockIndex).foldl
        (fun index item => index.rebuild newAddress item.1 item.2) {}) := by
    refine (parentsFirst_sortedByHeight loaded).foldl (RebuildsTo address node)
      (fun done item mem index fresh above rebuilds => ?_) ?_
    · obtain ⟨pair, known, same, entry⟩ := (mem_sortedByHeight loaded).mp mem
      obtain ⟨block, madeFrom⟩ := tree.blocks pair known
      have isEntry : IsEntryFor address node item.1 item.2 := by
        rw [← same, ← entry]
        exact (describes.entries pair known).restored madeFrom
      refine rebuilds.rebuild fresh isEntry (fun p parent => above p ?_) maintained
      rw [IndexLoad.pprevOf, lookup_of_sortedByHeight mem, Option.bind_some, parent]
    · exact ⟨nofun, fun _ => rfl, fun p hash => by simp,
        List.nodup_nil, nofun⟩
  refine rebuilds.restores maintained fun b mem => ?_
  obtain ⟨pair, known, same⟩ := describes.blocks b mem
  have mem : ⟨pair.1, restored env.params pair.2⟩ ∈ sortedByHeight newAddress load.mapBlockIndex :=
    (mem_sortedByHeight loaded).mpr ⟨pair, known, rfl, rfl⟩
  exact ⟨pair.1, List.mem_map_of_mem mem, same⟩

end Loaded

/-- **The rebuilt index is the maintained one**, after any additions and arrivals of blocks, unless
the number of transactions of a chain comes to zero as a 32-bit number. -/
theorem loadBlockIndexDB_restores (env : IndexEnv) (address newAddress : UInt256 ↪ Ptr)
    (header : Wire.CBlockHeader) (calls : List BlockCall) (node : NodeIndex Ptr)
    (runs : run (arrive env address) calls (.genesis env address header) = some node)
    (counted : node.ChainsCounted) (tree : IndexTree env)
    (describes : Describes address tree node) (others : OtherRecords) (index : RebuiltIndex)
    (loaded : loadBlockIndexDB newAddress env
      (tree.entries.map (writeRecord env.params) ++ others.1) = some index) :
    Restores address node index := by
  have maintained : node.Maintained :=
    NodeIndex.maintained_of_run runs counted (NodeIndex.maintained_genesis env address header)
  obtain ⟨load, guts, rfl⟩ := Option.map_eq_some_iff.mp loaded
  exact restores_of_loaded guts maintained describes

end Index

/-! ## A chain that arrives in the wrong order -/

section Sample

def nonceEnv : IndexEnv :=
  { twoBlockEnv with hash := fun header => BitVec.ofNat 256 (header.getD 76 0).toNat }

def thirdBlock : Wire.CBlock :=
  { secondBlock with header := { secondBlock.header with hashPrevBlock := 7, nNonce := 8 } }

def hashAddress : UInt256 ↪ ℕ := ⟨BitVec.toNat, fun _ _ same => BitVec.eq_of_toNat_eq same⟩

def arrivals (nTx : ℕ) : List BlockCall :=
  [.addToBlockIndex secondBlock.header, .addToBlockIndex thirdBlock.header,
    .receivedBlockTransactions 8 1, .receivedBlockTransactions 7 nTx]

/-- The entries of the two blocks and the genesis block. -/
def arrivedEntries (nTx : UInt32) : List (UInt256 × CBlockIndex) :=
  [(main.hashGenesisBlock, { ofBlock genesisBlock with nTx := 1, nStatus := 11 }),
    (7, { ofBlock secondBlock with
      pprev := some main.hashGenesisBlock
      nHeight := 1
      nTx := nTx
      nStatus := 11 }),
    (8, { ofBlock thirdBlock with
      pprev := some 7
      nHeight := 2
      nTx := 1
      nStatus := 11 })]

theorem getHash_secondBlock : 7 = secondBlock.header.getHash nonceEnv := by decide

theorem getHash_thirdBlock : 8 = thirdBlock.header.getHash nonceEnv := by decide

theorem forall_arrivedEntries {nTx : UInt32} {property : UInt256 × CBlockIndex → Prop}
    (first : property (main.hashGenesisBlock,
      { ofBlock genesisBlock with nTx := 1, nStatus := 11 }))
    (second : property (7, { ofBlock secondBlock with
      pprev := some main.hashGenesisBlock
      nHeight := 1
      nTx := nTx
      nStatus := 11 }))
    (third : property (8, { ofBlock thirdBlock with
      pprev := some 7
      nHeight := 2
      nTx := 1
      nStatus := 11 })) : ∀ pair ∈ arrivedEntries nTx, property pair :=
  List.forall_mem_cons.mpr ⟨first, List.forall_mem_cons.mpr
    ⟨second, List.forall_mem_singleton.mpr third⟩⟩

def arrivedTree (nTx : UInt32) : IndexTree nonceEnv where
  entries := arrivedEntries nTx
  distinct := by
    have keys : [main.hashGenesisBlock, 7, 8].Nodup := by decide
    exact keys
  blocks := forall_arrivedEntries ⟨genesisBlock, rfl, rfl, rfl⟩
    ⟨secondBlock, getHash_secondBlock, rfl, rfl⟩ ⟨thirdBlock, getHash_thirdBlock, rfl, rfl⟩
  parent := by
    refine forall_arrivedEntries (fun hash impossible => ?_) (fun hash above => ?_)
      fun hash above => ?_
    · cases impossible
    · obtain rfl : main.hashGenesisBlock = hash := Option.some.inj above
      exact ⟨_, mem_cons_self, rfl, rfl⟩
    · obtain rfl : 7 = hash := Option.some.inj above
      exact ⟨_, List.mem_cons_of_mem _ mem_cons_self, rfl, rfl⟩
  next := by
    refine forall_arrivedEntries (fun hash impossible => ?_) (fun hash impossible => ?_)
      fun hash impossible => ?_
    · cases impossible
    · cases impossible
    · cases impossible
  height := forall_arrivedEntries (Int32.le_refl 0)
    (Int32.le_iff_toInt_le.mpr Int.one_nonneg) (Int32.le_iff_toInt_le.mpr (Int.natCast_nonneg 2))
  mints := forall_arrivedEntries (Nat.two_pow_pos 64) (Nat.two_pow_pos 64) (Nat.two_pow_pos 64)

instance (node : NodeIndex ℕ) (hash : UInt256) (entry : CBlockIndex) :
    Decidable (IsEntryFor hashAddress node hash entry) :=
  decidable_of_iff _ (isEntryFor_iff hashAddress node hash entry).symm

/-- The node after the blocks have arrived has the three entries. -/
theorem exists_arrived (nTx : UInt32) (property : NodeIndex ℕ → Bool)
    (checked : (run (arrive nonceEnv hashAddress) (arrivals nTx.toNat)
      (.genesis nonceEnv hashAddress genesisBlock.header)).any (fun node =>
        decide (∀ pair ∈ arrivedEntries nTx, IsEntryFor hashAddress node pair.1 pair.2) &&
          decide (∀ b ∈ node.tree.blocks, ∃ pair ∈ arrivedEntries nTx, hashAddress pair.1 = b) &&
          property node) = true) :
    ∃ node, run (arrive nonceEnv hashAddress) (arrivals nTx.toNat)
        (.genesis nonceEnv hashAddress genesisBlock.header) = some node ∧
      Describes hashAddress (arrivedTree nTx) node ∧ property node = true := by
  obtain ⟨node, runs, facts⟩ := Option.any_eq_true _ _ |>.mp checked
  simp only [Bool.and_eq_true, decide_eq_true_eq] at facts
  exact ⟨node, runs, ⟨facts.1.1, facts.1.2⟩, facts.2⟩

theorem loadBlockIndexDB_restores_sample : ∃ node index,
    run (arrive nonceEnv hashAddress) (arrivals 3)
        (.genesis nonceEnv hashAddress genesisBlock.header) = some node ∧
      Describes hashAddress (arrivedTree 3) node ∧
      loadBlockIndexDB hashAddress nonceEnv
        ((arrivedTree 3).entries.map (writeRecord nonceEnv.params)) = some index ∧
      Restores hashAddress node index := by
  obtain ⟨node, runs, describes, counts⟩ :=
    exists_arrived 3 (fun node => decide (∀ b ∈ node.tree.blocks,
      node.tree.chainTx (fun a => (node.marks a).nTx) b % 2 ^ 32 ≠ 0)) (by decide)
  have found : (loadBlockIndexDB hashAddress nonceEnv
      ((arrivedTree 3).entries.map (writeRecord nonceEnv.params))).isSome := by
    decide +kernel
  obtain ⟨index, loaded⟩ := Option.isSome_iff_exists.mp found
  refine ⟨node, index, runs, describes, loaded, ?_⟩
  refine loadBlockIndexDB_restores nonceEnv hashAddress hashAddress genesisBlock.header
    (arrivals 3) node runs (fun b mem _ => of_decide_eq_true counts b mem) (arrivedTree 3)
    describes ⟨[], by simp⟩ index ?_
  exact loaded

/-- The first block, which stands for a long chain, brings the number of transactions to 2^32, so
that it counts none. The block after it, which was there before, is linked by the node all the same,
and waits after a restart. -/
theorem not_restores_sample : ∃ node index,
    run (arrive nonceEnv hashAddress) (arrivals 4294967295)
        (.genesis nonceEnv hashAddress genesisBlock.header) = some node ∧
      Describes hashAddress (arrivedTree 4294967295) node ∧
      loadBlockIndexDB hashAddress nonceEnv
        ((arrivedTree 4294967295).entries.map (writeRecord nonceEnv.params)) = some index ∧
      ¬Restores hashAddress node index := by
  obtain ⟨node, runs, describes, counts⟩ :=
    exists_arrived 4294967295 (fun node => (node.marks 8).nChainTx == 1) (by decide)
  have found : (loadBlockIndexDB hashAddress nonceEnv
      ((arrivedTree 4294967295).entries.map (writeRecord nonceEnv.params))).any
        (fun index => index.nChainTx 8 == 0) = true := by
    decide +kernel
  obtain ⟨index, loaded, waits⟩ := Option.any_eq_true _ _ |>.mp found
  refine ⟨node, index, runs, describes, loaded, fun restores => ?_⟩
  have known := (describes.entries _ (List.mem_cons_of_mem _ (List.mem_cons_of_mem _
    mem_cons_self))).known
  have same := restores.nChainTx 8 known
  rw [eq_of_beq waits] at same
  exact absurd (same.trans (eq_of_beq counts)) (by decide)

end Sample

end DogeCash
