import DogeCash.Chain.DiskBlockIndex
import DogeCash.Foundation.KeyedMap
import DogeCash.Staking.NextWork

/-! # Loading the block index

`LoadBlockIndexGuts` goes through the records of the database and fills in `mapBlockIndex`. The
key of an entry is computed from the header that was read, and the pointers to other entries from
their hashes; an entry that another one points to is there, with the values of a new one, before
its own record is read. What the entries are after a restart is therefore decided record by
record, and it is what they were before exactly if nothing of them is left out on disk.
-/

namespace DogeCash

/-- What the block index asks the rest of the program: the parameters of the network, and the hash
functions of the two kinds of headers. -/
structure IndexEnv where
  params : ChainParams
  fSkipProofOfWorkCheck : Bool
  hashQuark : List UInt8 → UInt256
  hash : List UInt8 → UInt256

/-- `CBlockHeader::GetHash`. The bytes of the fields in memory that it hashes, with the checkpoint
in the versions 4 to 6, are those that are written. -/
def Wire.CBlockHeader.getHash (env : IndexEnv) (header : Wire.CBlockHeader) : UInt256 :=
  if header.nVersion < 4 then env.hashQuark header.serialize else env.hash header.serialize

def CDiskBlockIndex.getBlockHash (env : IndexEnv) (disk : CDiskBlockIndex) : UInt256 :=
  (disk.headerAfter disk.hashPrev).getHash env

def IndexEnv.checkProofOfWork (env : IndexEnv) (hash : UInt256) (nBits : UInt32) : Bool :=
  let bnTarget := UInt256.setCompact nBits
  let (fNegative, fOverflow) := UInt256.compactFlags nBits
  if env.fSkipProofOfWorkCheck then true
  else if fNegative || bnTarget = 0 || fOverflow ||
    env.params.proofOfWorkLimit < bnTarget then false
  else !(bnTarget < hash)

/-- `mapBlockIndex` -/
abbrev BlockMap := AList fun _ : UInt256 => CBlockIndex

/-- `InsertBlockIndex`: the pointer, and the map with the entry. -/
def insertBlockIndex (mapBlockIndex : BlockMap) (hash : UInt256) : Option UInt256 × BlockMap :=
  if hash = 0 then (none, mapBlockIndex)
  else if (mapBlockIndex.lookup hash).isSome then (some hash, mapBlockIndex)
  else (some hash, mapBlockIndex.insert hash CBlockIndex.null)

/-- The assignments of `LoadBlockIndexGuts` to an entry. -/
def CDiskBlockIndex.assign (params : ChainParams) (diskindex : CDiskBlockIndex)
    (pprev pnext : Option UInt256) (pindexNew : CBlockIndex) : CBlockIndex :=
  { pindexNew with
    pprev := pprev
    pnext := pnext
    nHeight := diskindex.nHeight
    nFile := diskindex.nFile
    nDataPos := diskindex.nDataPos
    nUndoPos := diskindex.nUndoPos
    nVersion := diskindex.nVersion
    hashMerkleRoot := diskindex.hashMerkleRoot
    nTime := diskindex.nTime
    nBits := diskindex.nBits
    nNonce := diskindex.nNonce
    nStatus := diskindex.nStatus
    nTx := diskindex.nTx
    nAccumulatorCheckpoint := diskindex.nAccumulatorCheckpoint
    mapZerocoinSupply := diskindex.mapZerocoinSupply
    vMintDenominationsInBlock := diskindex.vMintDenominationsInBlock
    nMint := diskindex.nMint
    nMoneySupply := diskindex.nMoneySupply
    nFlags := diskindex.nFlags
    nStakeModifier :=
      if !params.isStakeModifierV2 diskindex.nHeight.toInt then diskindex.nStakeModifier
      else pindexNew.nStakeModifier
    nStakeModifierV2 :=
      if params.isStakeModifierV2 diskindex.nHeight.toInt then diskindex.nStakeModifierV2
      else pindexNew.nStakeModifierV2
    prevoutStake := diskindex.prevoutStake
    nStakeTime := diskindex.nStakeTime
    hashProofOfStake := diskindex.hashProofOfStake }

/-- The state of `LoadBlockIndexGuts`: the map, the last checkpoint, and the checkpoints whose
accumulator values it has asked for. -/
structure IndexLoad where
  mapBlockIndex : BlockMap
  nPreviousCheckpoint : UInt256
  accumulators : List UInt256

def IndexLoad.init : IndexLoad := ⟨∅, 0, []⟩

/-- The call of `LoadAccumulatorValuesFromDB`, which does not touch the index, with the checkpoint
of an entry that was filled in. -/
def IndexLoad.populate (params : ChainParams) (load : IndexLoad) (pindexNew : CBlockIndex) :
    IndexLoad :=
  if pindexNew.nAccumulatorCheckpoint ≠ 0 ∧
      pindexNew.nAccumulatorCheckpoint ≠ load.nPreviousCheckpoint then
    { load with
      nPreviousCheckpoint := pindexNew.nAccumulatorCheckpoint
      accumulators :=
        if params.nBlockZerocoinV2 ≤ pindexNew.nHeight.toInt then
          load.accumulators ++ [pindexNew.nAccumulatorCheckpoint]
        else load.accumulators }
  else load

/-- The body of the loop for an entry that was read; `none` where a null pointer is used, or where
the proof of work is refused. -/
def loadEntry (env : IndexEnv) (load : IndexLoad) (diskindex : CDiskBlockIndex) :
    Option IndexLoad := do
  let new := insertBlockIndex load.mapBlockIndex (diskindex.getBlockHash env)
  let prev := insertBlockIndex new.2 diskindex.hashPrev
  let next := insertBlockIndex prev.2 diskindex.hashNext
  let hash ← new.1
  let held ← next.2.lookup hash
  let pindexNew := diskindex.assign env.params prev.1 next.1 held
  if pindexNew.nHeight.toInt ≤ env.params.nLastPOWBlock ∧
      env.checkProofOfWork hash pindexNew.nBits = false then none
  else
    let mapBlockIndex := next.2.insert hash pindexNew
    some ({ load with mapBlockIndex := mapBlockIndex }.populate env.params pindexNew)

def blockIndexKey : UInt8 := UInt8.ofNat 'b'.toNat

/-- `CBlockTreeDB::LoadBlockIndexGuts`, from a position of the cursor on. It ends at the first key
of another kind; `none` where it returns `false`. -/
def loadBlockIndexGuts (env : IndexEnv) :
    IndexLoad → List (List UInt8 × List UInt8) → Option IndexLoad
  | load, [] => some load
  | _, ([], _) :: _ => none
  | load, (chType :: _, slValue) :: pcursor =>
    if chType = blockIndexKey then do
      let (diskindex, _) ← CDiskBlockIndex.unserialize env.params slValue
      let load ← loadEntry env load diskindex
      loadBlockIndexGuts env load pcursor
    else some load

/-- The record that `CBlockTreeDB::WriteBatchSync` writes for an entry. -/
def writeRecord (params : ChainParams) (pair : UInt256 × CBlockIndex) : List UInt8 × List UInt8 :=
  (blockIndexKey :: UInt256.serialize pair.1, (CDiskBlockIndex.ofIndex pair.2).serialize params)

/-! ## One record -/

def entryAt (mapBlockIndex : BlockMap) (hash : UInt256) : CBlockIndex :=
  (mapBlockIndex.lookup hash).getD CBlockIndex.null

variable {mapBlockIndex : BlockMap} {entry : CBlockIndex}

variable {hash : UInt256} {env : IndexEnv} {diskindex : CDiskBlockIndex}

theorem entryAt_eq (found : mapBlockIndex.lookup hash = some entry) :
    entryAt mapBlockIndex hash = entry := by
  rw [entryAt, found, Option.getD_some]

def pointer (hash : UInt256) : Option UInt256 := if hash = 0 then none else some hash

theorem insertBlockIndex_fst (mapBlockIndex : BlockMap) (hash : UInt256) :
    (insertBlockIndex mapBlockIndex hash).1 = pointer hash := by
  unfold insertBlockIndex pointer
  split_ifs <;> rfl

theorem lookup_insertBlockIndex (mapBlockIndex : BlockMap) (hash other : UInt256) :
    (insertBlockIndex mapBlockIndex hash).2.lookup other =
      if hash ≠ 0 ∧ other = hash then some (entryAt mapBlockIndex hash)
      else mapBlockIndex.lookup other := by
  unfold insertBlockIndex
  by_cases null : hash = 0
  · rw [if_pos null, if_neg fun here => here.1 null]
  · by_cases same : other = hash
    · have here : hash ≠ 0 ∧ other = hash := ⟨null, same⟩
      rw [if_pos here, same]
      split_ifs with found
      · obtain ⟨entry, known⟩ := Option.isSome_iff_exists.mp found
        rw [entryAt_eq known]
        exact known
      · rw [entryAt, Option.not_isSome_iff_eq_none.mp found]
        exact AList.lookup_insert _
    · have elsewhere : ¬(hash ≠ 0 ∧ other = hash) := fun here => same here.2
      split_ifs with found
      · rfl
      · exact AList.lookup_insert_ne same

theorem entryAt_insertBlockIndex (mapBlockIndex : BlockMap) (hash : UInt256) :
    entryAt (insertBlockIndex mapBlockIndex hash).2 = entryAt mapBlockIndex := by
  funext other
  rw [entryAt, lookup_insertBlockIndex]
  split_ifs with here
  · rw [Option.getD_some, here.2]
  · rfl

variable {hash other : UInt256}

theorem lookup_insertBlockIndex_of_some (found : mapBlockIndex.lookup other = some entry) :
    (insertBlockIndex mapBlockIndex hash).2.lookup other = some entry := by
  rw [lookup_insertBlockIndex]
  split_ifs with here
  · rw [← here.2, entryAt_eq found]
  · exact found

theorem mem_insertBlockIndex (mem : other ∈ (insertBlockIndex mapBlockIndex hash).2) :
    other ∈ mapBlockIndex ∨ pointer hash = some other := by
  rw [← AList.lookup_isSome, lookup_insertBlockIndex] at mem
  split_ifs at mem with here
  · exact .inr (by rw [pointer, if_neg here.1, here.2])
  · exact .inl (AList.lookup_isSome.mp mem)

@[simp] theorem IndexLoad.mapBlockIndex_populate (params : ChainParams) (load : IndexLoad)
    (entry : CBlockIndex) : (load.populate params entry).mapBlockIndex = load.mapBlockIndex := by
  unfold populate
  split_ifs <;> rfl

theorem mem_of_loadEntry {load after : IndexLoad} {other : UInt256}
    (loaded : loadEntry env load diskindex = some after) (mem : other ∈ after.mapBlockIndex) :
    other ∈ load.mapBlockIndex ∨ other = diskindex.getBlockHash env ∨
      pointer diskindex.hashPrev = some other ∨ pointer diskindex.hashNext = some other := by
  obtain ⟨hash, pointed, loaded⟩ := Option.bind_eq_some_iff.mp loaded
  obtain ⟨held, -, loaded⟩ := Option.bind_eq_some_iff.mp loaded
  obtain ⟨-, same⟩ := Option.ite_none_left_eq_some.mp loaded
  cases same
  rw [IndexLoad.mapBlockIndex_populate, AList.mem_insert] at mem
  rw [insertBlockIndex_fst] at pointed
  have own : hash = diskindex.getBlockHash env := by
    unfold pointer at pointed
    split_ifs at pointed
    exact (Option.some.inj pointed).symm
  rcases mem with rfl | mem
  · exact .inr (.inl own)
  · rcases mem_insertBlockIndex mem with mem | next
    · rcases mem_insertBlockIndex mem with mem | prev
      · rcases mem_insertBlockIndex mem with before | new
        · exact .inl before
        · rw [new] at pointed
          cases pointed
          exact .inr (.inl own)
      · exact .inr (.inr (.inl prev))
    · exact .inr (.inr (.inr next))

/-- An entry that was read is refused if its hash is the null hash or if it has no proof of work
where it needs one. -/
def IsRefused (env : IndexEnv) (hash : UInt256) (entry : CBlockIndex) : Prop :=
  hash = 0 ∨ (entry.nHeight.toInt ≤ env.params.nLastPOWBlock ∧
    env.checkProofOfWork hash entry.nBits = false)

/-- The entry of a hash has been filled in, and the other ones are left as they are. -/
structure Enters (hash : UInt256) (entry : CBlockIndex) (before after : BlockMap) : Prop where
  entered : after.lookup hash = some entry
  others : ∀ other, other ≠ hash → entryAt after other = entryAt before other
  kept : ∀ other held, other ≠ hash → before.lookup other = some held →
    after.lookup other = some held

theorem loadEntry_spec (load : IndexLoad) (hashed : diskindex.getBlockHash env = hash)
    (assigned : diskindex.assign env.params (pointer diskindex.hashPrev)
      (pointer diskindex.hashNext) (entryAt load.mapBlockIndex hash) = entry) :
    (IsRefused env hash entry → loadEntry env load diskindex = none) ∧
      (¬IsRefused env hash entry → ∃ after, loadEntry env load diskindex = some after ∧
        Enters hash entry load.mapBlockIndex after.mapBlockIndex) := by
  unfold loadEntry
  simp only [insertBlockIndex_fst, hashed]
  by_cases null : hash = 0
  · refine ⟨fun _ => ?_, fun accepted => absurd (Or.inl null) accepted⟩
    rw [pointer, if_pos null]
    rfl
  · rw [pointer, if_neg null]
    generalize inserted : insertBlockIndex (insertBlockIndex
      (insertBlockIndex load.mapBlockIndex hash).2 diskindex.hashPrev).2 diskindex.hashNext = next
    have same : entryAt next.2 = entryAt load.mapBlockIndex := by
      rw [← inserted, entryAt_insertBlockIndex, entryAt_insertBlockIndex, entryAt_insertBlockIndex]
    have kept : ∀ other held, load.mapBlockIndex.lookup other = some held →
        next.2.lookup other = some held := by
      intro other held found
      rw [← inserted]
      exact lookup_insertBlockIndex_of_some (lookup_insertBlockIndex_of_some
        (lookup_insertBlockIndex_of_some found))
    have found : next.2.lookup hash = some (entryAt load.mapBlockIndex hash) := by
      rw [← inserted]
      refine lookup_insertBlockIndex_of_some (lookup_insertBlockIndex_of_some ?_)
      rw [lookup_insertBlockIndex, if_pos ⟨null, rfl⟩]
    rw [Option.bind_eq_bind, Option.bind_some, Option.bind_eq_bind, found, Option.bind_some,
      assigned]
    by_cases refused : entry.nHeight.toInt ≤ env.params.nLastPOWBlock ∧
        env.checkProofOfWork hash entry.nBits = false
    · rw [if_pos refused]
      exact ⟨fun _ => rfl, fun accepted => absurd (Or.inr refused) accepted⟩
    · rw [if_neg refused]
      refine ⟨fun rejected => ?_, fun _ => ⟨_, rfl, ?_⟩⟩
      · exact rejected.elim (fun zero => absurd zero null) fun work => absurd work refused
      · rw [IndexLoad.mapBlockIndex_populate]
        refine ⟨AList.lookup_insert _, fun other ne => ?_, fun other held ne => ?_⟩
        · rw [← same, entryAt, AList.lookup_insert_ne ne]
          rfl
        · intro present
          exact (AList.lookup_insert_ne ne).trans (kept other held present)

end DogeCash
