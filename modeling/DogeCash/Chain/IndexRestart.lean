import DogeCash.Chain.LoadBlockIndex

/-! # The block index over a restart

Every entry of the index is written and, after a restart, loaded. What `LoadBlockIndexGuts`
assigns is the same as before exactly if the parts that are not written have the values of a new
entry: there is no next block, no hash of a proof of stake, no position of data or undo data that
the status does not announce, no staked output in a block of a proof of work, and no supply in a
block before version 4.
-/

namespace DogeCash

open CDiskBlockIndex (ofIndex)
open List (forall_mem_cons forall_mem_singleton map_cons mem_cons mem_cons_self)
open ChainParams (main)

/-- An entry with its key, whose header is as `AddToBlockIndex` makes it from a block. -/
structure IsEntryOf (env : IndexEnv) (block : Wire.CBlock) (pair : UInt256 × CBlockIndex) :
    Prop where
  key : pair.1 = block.header.getHash env
  header : pair.2.headerAfter 0 = (CBlockIndex.ofBlock block).headerAfter 0
  pprev : pair.2.pprev = pointer block.header.hashPrevBlock

/-- The entries of a block index, which form a tree below the blocks without a parent. -/
structure IndexTree (env : IndexEnv) where
  entries : List (UInt256 × CBlockIndex)
  distinct : (entries.map Prod.fst).Nodup
  blocks : ∀ pair ∈ entries, ∃ block, IsEntryOf env block pair
  parent : ∀ pair ∈ entries, ∀ hash, pair.2.pprev = some hash →
    ∃ above ∈ entries, above.1 = hash ∧ pair.2.nHeight.toInt = above.2.nHeight.toInt + 1
  next : ∀ pair ∈ entries, ∀ hash, pair.2.pnext = some hash → hash ∈ entries.map Prod.fst
  height : ∀ pair ∈ entries, 0 ≤ pair.2.nHeight
  mints : ∀ pair ∈ entries, pair.2.vMintDenominationsInBlock.length < 2 ^ 64

abbrev OtherRecords : Type :=
  { records : List (List UInt8 × List UInt8) //
    ∀ record ∈ records, ∃ chType rest, record.1 = chType :: rest ∧ chType ≠ blockIndexKey }

/-- The fields of an entry that `LoadBlockIndexGuts` assigns: one of the two stake modifiers, and
all others that are modelled. -/
def CBlockIndex.assignedFields (params : ChainParams) (pindex : CBlockIndex) : CBlockIndex :=
  { pindex with
    nStakeModifier :=
      if !params.isStakeModifierV2 pindex.nHeight.toInt then pindex.nStakeModifier else 0
    nStakeModifierV2 :=
      if params.isStakeModifierV2 pindex.nHeight.toInt then pindex.nStakeModifierV2 else 0 }

/-- The key of an entry is that of the header on disk, and its fields are loaded. -/
structure Reproduced (env : IndexEnv) (load : IndexLoad) (pair : UInt256 × CBlockIndex) : Prop where
  stored : ∃ diskindex,
    CDiskBlockIndex.unserialize env.params (writeRecord env.params pair).2 =
      some (diskindex, []) ∧ diskindex.getBlockHash env = pair.1
  loaded : ∃ pindexNew, load.mapBlockIndex.lookup pair.1 = some pindexNew ∧
    pindexNew.assignedFields env.params = pair.2.assignedFields env.params

/-- The index is loaded, and every entry is what it was. -/
def IndexTree.SurvivesRestart {env : IndexEnv} (tree : IndexTree env) (others : OtherRecords) :
    Prop :=
  ∃ load, loadBlockIndexGuts env .init
      (tree.entries.map (writeRecord env.params) ++ others.1) = some load ∧
    ∀ pair ∈ tree.entries, Reproduced env load pair

/-- Everything that is not written has the value of a new entry. -/
structure CBlockIndex.IsWritten (pindex : CBlockIndex) : Prop where
  pnext : pindex.pnext = none
  nFile : if pindex.hasFile then 0 ≤ pindex.nFile else pindex.nFile = 0
  nDataPos : ¬pindex.hasData → pindex.nDataPos = 0
  nUndoPos : ¬pindex.hasUndo → pindex.nUndoPos = 0
  prevoutStake : ¬pindex.isProofOfStake → pindex.prevoutStake = COutPoint.null
  nStakeTime : ¬pindex.isProofOfStake → pindex.nStakeTime = 0
  hashProofOfStake : pindex.hashProofOfStake = 0
  mapZerocoinSupply : ¬3 < pindex.nVersion → pindex.mapZerocoinSupply = CBlockIndex.noSupply
  vMintDenominationsInBlock : ¬3 < pindex.nVersion → pindex.vMintDenominationsInBlock = []

/-- Nothing of an entry is lost on disk, and it is read and accepted again. -/
structure IsRestorable (env : IndexEnv) (pair : UInt256 × CBlockIndex) : Prop where
  written : pair.2.IsWritten
  key : pair.1 ≠ 0
  mints : 3 < pair.2.nVersion → pair.2.vMintDenominationsInBlock.length ≤ maxSize
  work : pair.2.nHeight.toInt ≤ env.params.nLastPOWBlock →
    env.checkProofOfWork pair.1 pair.2.nBits = true

/-! ## The key -/

theorem Wire.CBlockHeader.getHash_checkpoint (env : IndexEnv) (header : Wire.CBlockHeader)
    {checkpoint : UInt256}
    (same : hasCheckpoint header.nVersion = true → checkpoint = header.nAccumulatorCheckpoint) :
    { header with nAccumulatorCheckpoint := checkpoint : Wire.CBlockHeader }.getHash env =
      header.getHash env := by
  have bytes : { header with nAccumulatorCheckpoint := checkpoint : Wire.CBlockHeader }.serialize =
      header.serialize := by
    unfold serialize
    by_cases present : hasCheckpoint header.nVersion = true
    · rw [same present]
    · simp [present]
  rw [getHash, bytes]
  rfl

section Entry

variable {env : IndexEnv} {pair : UInt256 × CBlockIndex} {block : Wire.CBlock}

theorem CBlockIndex.headerAfter_ofBlock (block : Wire.CBlock) (hashPrev : UInt256) :
    (ofBlock block).headerAfter hashPrev =
      { block.header with
        hashPrevBlock := hashPrev
        nAccumulatorCheckpoint :=
          if 3 < block.header.nVersion ∧ block.header.nVersion < 7 then
            block.header.nAccumulatorCheckpoint
          else 0 } := rfl

theorem getD_pointer (hash : UInt256) : (pointer hash).getD 0 = hash := by
  unfold pointer
  split_ifs with null
  · exact null.symm
  · rfl

section

variable (entry : IsEntryOf env block pair)
include entry

theorem IsEntryOf.headerAfter :
    pair.2.headerAfter (pair.2.pprev.getD 0) =
      (CBlockIndex.ofBlock block).headerAfter block.header.hashPrevBlock := by
  rw [entry.pprev, getD_pointer]
  have fields := entry.header
  simp only [CBlockIndex.headerAfter, Wire.CBlockHeader.mk.injEq, true_and] at fields ⊢
  exact fields

theorem IsEntryOf.checkpoint (old : ¬3 < pair.2.nVersion) : pair.2.nAccumulatorCheckpoint = 0 := by
  have fields := entry.header
  rw [CBlockIndex.headerAfter_ofBlock] at fields
  simp only [CBlockIndex.headerAfter, Wire.CBlockHeader.mk.injEq, true_and] at fields
  obtain ⟨version, -, -, -, -, stored⟩ := fields
  rw [stored, if_neg fun present => old (version ▸ present.1)]

theorem IsEntryOf.getBlockHash_reread :
    ((ofIndex pair.2).reread env.params).getBlockHash env = pair.1 := by
  have header : ((ofIndex pair.2).reread env.params).headerAfter
      (pair.2.pprev.getD 0) = pair.2.headerAfter (pair.2.pprev.getD 0) := by
    have checkpoint : (if 3 < pair.2.nVersion then pair.2.nAccumulatorCheckpoint else 0) =
        pair.2.nAccumulatorCheckpoint := by
      split_ifs with zerocoin
      · rfl
      · exact (entry.checkpoint zerocoin).symm
    exact congrArg (fun checkpoint => { pair.2.headerAfter (pair.2.pprev.getD 0) with
      nAccumulatorCheckpoint := checkpoint : Wire.CBlockHeader }) checkpoint
  change (((ofIndex pair.2).reread env.params).headerAfter
    (pair.2.pprev.getD 0)).getHash env = pair.1
  rw [header, entry.headerAfter, CBlockIndex.headerAfter_ofBlock, entry.key]
  refine block.header.getHash_checkpoint env fun present => ?_
  have versions : 3 < block.header.nVersion ∧ block.header.nVersion < 7 := by
    rwa [Wire.hasCheckpoint, Bool.and_eq_true, decide_eq_true_eq, decide_eq_true_eq] at present
  exact if_pos versions

end

/-! ## The fields -/

theorem varIntImage_eq_self (n : Int32) : varIntImage n = n ↔ 0 ≤ n := by
  unfold varIntImage
  split_ifs with negative
  · refine ⟨fun same => ?_, fun nonneg => absurd nonneg (Int32.not_le.mpr negative)⟩
    have value : (Int32.ofInt (n.toInt % 128)).toInt = n.toInt % 128 :=
      Int32.toInt_ofInt_of_le (by omega) (by omega)
    rw [same] at value
    rw [Int32.le_iff_toInt_le]
    have zero : (0 : Int32).toInt = 0 := rfl
    omega
  · exact iff_of_true rfl (Int32.not_lt.mp negative)

def restored (params : ChainParams) (pindex : CBlockIndex) : CBlockIndex :=
  let diskindex := (ofIndex pindex).reread params
  diskindex.assign params (pointer diskindex.hashPrev) (pointer diskindex.hashNext) CBlockIndex.null

theorem ite_repeat {α : Type} (c : Bool) (a b : α) :
    (if c then if c then if c then a else b else b else b) = if c then a else b := by
  cases c <;> rfl

theorem assignedFields_restored (params : ChainParams) (pindex : CBlockIndex) :
    (restored params pindex).assignedFields params =
      { pindex.assignedFields params with
        pprev := pointer (pindex.pprev.getD 0)
        pnext := pointer 0
        nFile := if pindex.hasFile then varIntImage pindex.nFile else 0
        nDataPos := if pindex.hasData then pindex.nDataPos else 0
        nUndoPos := if pindex.hasUndo then pindex.nUndoPos else 0
        prevoutStake := if pindex.isProofOfStake then pindex.prevoutStake else COutPoint.null
        nStakeTime := if pindex.isProofOfStake then pindex.nStakeTime else 0
        hashProofOfStake := 0
        nAccumulatorCheckpoint := if 3 < pindex.nVersion then pindex.nAccumulatorCheckpoint else 0
        mapZerocoinSupply :=
          if 3 < pindex.nVersion then pindex.mapZerocoinSupply else CBlockIndex.noSupply
        vMintDenominationsInBlock :=
          if 3 < pindex.nVersion then pindex.vMintDenominationsInBlock else [] } := by
  have modifier : ((restored params pindex).assignedFields params).nStakeModifier =
      (pindex.assignedFields params).nStakeModifier :=
    ite_repeat (!params.isStakeModifierV2 pindex.nHeight.toInt) pindex.nStakeModifier 0
  have modifierV2 : ((restored params pindex).assignedFields params).nStakeModifierV2 =
      (pindex.assignedFields params).nStakeModifierV2 :=
    ite_repeat (params.isStakeModifierV2 pindex.nHeight.toInt) pindex.nStakeModifierV2 0
  dsimp only
  rw [← modifier, ← modifierV2]
  rfl

theorem IsEntryOf.assignedFields_restored_iff (entry : IsEntryOf env block pair) :
    (restored env.params pair.2).assignedFields env.params = pair.2.assignedFields env.params ↔
      pair.2.IsWritten := by
  have parent : pointer (pair.2.pprev.getD 0) = pair.2.pprev := by rw [entry.pprev, getD_pointer]
  have next : pointer 0 = none := if_pos rfl
  have checkpoint := entry.checkpoint
  generalize pair.2 = pindex at parent checkpoint ⊢
  have nFile : (if pindex.hasFile = true then varIntImage pindex.nFile else 0) = pindex.nFile ↔
      if pindex.hasFile = true then 0 ≤ pindex.nFile else pindex.nFile = 0 := by
    split_ifs
    · exact varIntImage_eq_self pindex.nFile
    · exact eq_comm
  rw [assignedFields_restored, parent, next]
  simp only [CBlockIndex.assignedFields, CBlockIndex.mk.injEq, nFile, ite_eq_left_iff, true_and]
  constructor
  · intro same
    obtain ⟨pnext, nFile, nDataPos, nUndoPos, prevoutStake, nStakeTime, hashProofOfStake, -,
      mapZerocoinSupply, vMintDenominationsInBlock⟩ := same
    exact ⟨pnext.symm, nFile, fun absent => (nDataPos absent).symm,
      fun absent => (nUndoPos absent).symm, fun work => (prevoutStake work).symm,
      fun work => (nStakeTime work).symm, hashProofOfStake.symm,
      fun old => (mapZerocoinSupply old).symm, fun old => (vMintDenominationsInBlock old).symm⟩
  · intro written
    exact ⟨written.pnext.symm, written.nFile, fun absent => (written.nDataPos absent).symm,
      fun absent => (written.nUndoPos absent).symm, fun work => (written.prevoutStake work).symm,
      fun work => (written.nStakeTime work).symm, written.hashProofOfStake.symm,
      fun old => (checkpoint old).symm, fun old => (written.mapZerocoinSupply old).symm,
      fun old => (written.vMintDenominationsInBlock old).symm⟩

end Entry

/-! ## The run -/

section Load

variable {env : IndexEnv}

def IsLoadable (env : IndexEnv) (pair : UInt256 × CBlockIndex) : Prop :=
  (ofIndex pair.2).IsReadable ∧ ¬IsRefused env pair.1 (restored env.params pair.2)

/-- The entries of a tree, one by one. -/
structure IsEntry (env : IndexEnv) (pair : UInt256 × CBlockIndex) : Prop where
  block : ∃ block, IsEntryOf env block pair
  height : 0 ≤ pair.2.nHeight
  mints : pair.2.vMintDenominationsInBlock.length < 256 ^ 8

variable {pair : UInt256 × CBlockIndex}

theorem IsEntry.unserialize (entry : IsEntry env pair) :
    CDiskBlockIndex.unserialize env.params (writeRecord env.params pair).2 =
      if (ofIndex pair.2).IsReadable then some ((ofIndex pair.2).reread env.params, [])
      else none := by
  have read := CDiskBlockIndex.parses env.params (ofIndex pair.2) entry.height
    entry.mints []
  rw [List.append_nil] at read
  rw [writeRecord, read]
  split_ifs <;> rfl

theorem loadBlockIndexGuts_writeRecord (load : IndexLoad) (pair : UInt256 × CBlockIndex)
    (pcursor : List (List UInt8 × List UInt8)) :
    loadBlockIndexGuts env load (writeRecord env.params pair :: pcursor) =
      (CDiskBlockIndex.unserialize env.params (writeRecord env.params pair).2).bind fun read =>
        (loadEntry env load read.1).bind fun load => loadBlockIndexGuts env load pcursor := by
  rfl

/-- One round of the loop, for an entry that was not filled in before. -/
theorem loadBlockIndexGuts_cons (entry : IsEntry env pair) {load : IndexLoad}
    (fresh : entryAt load.mapBlockIndex pair.1 = CBlockIndex.null)
    (pcursor : List (List UInt8 × List UInt8)) :
    (¬IsLoadable env pair →
      loadBlockIndexGuts env load (writeRecord env.params pair :: pcursor) = none) ∧
      (IsLoadable env pair → ∃ after,
        loadBlockIndexGuts env load (writeRecord env.params pair :: pcursor) =
          loadBlockIndexGuts env after pcursor ∧
        Enters pair.1 (restored env.params pair.2) load.mapBlockIndex after.mapBlockIndex) := by
  obtain ⟨block, madeFrom⟩ := entry.block
  obtain ⟨refused, accepted⟩ := loadEntry_spec load madeFrom.getBlockHash_reread
    (congrArg _ fresh)
  rw [loadBlockIndexGuts_writeRecord, entry.unserialize]
  by_cases readable : (ofIndex pair.2).IsReadable
  · rw [if_pos readable, Option.bind_some]
    constructor
    · intro unloadable
      rw [refused (Classical.not_not.mp fun welcome => unloadable ⟨readable, welcome⟩)]
      rfl
    · intro loadable
      obtain ⟨after, loaded, enters⟩ := accepted loadable.2
      refine ⟨after, ?_, enters⟩
      rw [loaded, Option.bind_some]
  · rw [if_neg readable]
    exact ⟨fun _ => rfl, fun loadable => absurd loadable.1 readable⟩

theorem loadBlockIndexGuts_others (load : IndexLoad) (others : OtherRecords) :
    loadBlockIndexGuts env load others.1 = some load := by
  obtain ⟨records, kinds⟩ := others
  cases records with
  | nil => rfl
  | cons record records =>
    obtain ⟨chType, rest, key, ne⟩ := kinds record mem_cons_self
    obtain ⟨slKey, slValue⟩ := record
    obtain rfl : slKey = chType :: rest := key
    rw [loadBlockIndexGuts, if_neg ne]

/-- The loop fills in all entries, unless one of them is not accepted. -/
theorem loadBlockIndexGuts_spec (others : OtherRecords) (entries : List (UInt256 × CBlockIndex))
    (distinct : (entries.map Prod.fst).Nodup) (sound : ∀ pair ∈ entries, IsEntry env pair)
    (load : IndexLoad)
    (fresh : ∀ pair ∈ entries, entryAt load.mapBlockIndex pair.1 = CBlockIndex.null) :
    ((∃ pair ∈ entries, ¬IsLoadable env pair) →
      loadBlockIndexGuts env load (entries.map (writeRecord env.params) ++ others.1) = none) ∧
      ((∀ pair ∈ entries, IsLoadable env pair) → ∃ after,
        loadBlockIndexGuts env load (entries.map (writeRecord env.params) ++ others.1) =
          some after ∧
        (∀ pair ∈ entries, after.mapBlockIndex.lookup pair.1 = some (restored env.params pair.2)) ∧
        ∀ other held, other ∉ entries.map Prod.fst → load.mapBlockIndex.lookup other = some held →
          after.mapBlockIndex.lookup other = some held) := by
  induction entries generalizing load with
  | nil =>
    refine ⟨fun bad => ?_, fun _ => ⟨load, loadBlockIndexGuts_others load others, ?_⟩⟩
    · obtain ⟨pair, mem, -⟩ := bad
      cases mem
    · exact ⟨nofun, fun _ _ _ found => found⟩
  | cons first rest ih =>
    obtain ⟨absent, distinct⟩ := List.nodup_cons.mp distinct
    obtain ⟨entry, sound⟩ := forall_mem_cons.mp sound
    obtain ⟨new, fresh⟩ := forall_mem_cons.mp fresh
    obtain ⟨stops, goesOn⟩ := loadBlockIndexGuts_cons entry new
      (rest.map (writeRecord env.params) ++ others.1)
    rw [map_cons, List.cons_append]
    by_cases loadable : IsLoadable env first
    · obtain ⟨after, same, enters⟩ := goesOn loadable
      have ne : ∀ pair ∈ rest, pair.1 ≠ first.1 := fun pair mem =>
        ne_of_mem_of_not_mem (List.mem_map_of_mem mem) absent
      obtain ⟨fails, loads⟩ := ih distinct sound after fun pair mem =>
        (enters.others pair.1 (ne pair mem)).trans (fresh pair mem)
      rw [same]
      constructor
      · intro bad
        obtain ⟨pair, mem, unloadable⟩ := bad
        rcases mem_cons.mp mem with rfl | later
        · exact absurd loadable unloadable
        · exact fails ⟨pair, later, unloadable⟩
      · intro all
        obtain ⟨final, loaded, filled, kept⟩ := loads (forall_mem_cons.mp all).2
        refine ⟨final, loaded, forall_mem_cons.mpr ⟨?_, filled⟩, ?_⟩
        · exact kept first.1 _ absent enters.entered
        · intro other held outside found
          rw [map_cons, mem_cons, not_or] at outside
          exact kept other held outside.2 (enters.kept other held outside.1 found)
    · exact ⟨fun _ => stops loadable, fun all => absurd (all first mem_cons_self) loadable⟩

theorem mem_of_loadBlockIndexGuts (others : OtherRecords) {entries : List (UInt256 × CBlockIndex)}
    (sound : ∀ pair ∈ entries, IsEntry env pair) {load after : IndexLoad}
    (loaded : loadBlockIndexGuts env load
      (entries.map (writeRecord env.params) ++ others.1) = some after)
    {other : UInt256} (mem : other ∈ after.mapBlockIndex) :
    other ∈ load.mapBlockIndex ∨ ∃ pair ∈ entries, other = pair.1 ∨ pair.2.pprev = some other := by
  induction entries generalizing load with
  | nil =>
    have same := (loadBlockIndexGuts_others load others).symm.trans loaded
    cases same
    exact .inl mem
  | cons first rest ih =>
    obtain ⟨entry, sound⟩ := forall_mem_cons.mp sound
    rw [map_cons, List.cons_append, loadBlockIndexGuts_writeRecord, entry.unserialize]
      at loaded
    obtain ⟨read, readable, loaded⟩ := Option.bind_eq_some_iff.mp loaded
    obtain ⟨-, same⟩ := Option.ite_none_right_eq_some.mp readable
    cases same
    obtain ⟨next, round, loaded⟩ := Option.bind_eq_some_iff.mp loaded
    rcases ih sound loaded with before | ⟨pair, later, names⟩
    · obtain ⟨block, madeFrom⟩ := entry.block
      rcases mem_of_loadEntry round before with old | own | above | below
      · exact .inl old
      · rw [madeFrom.getBlockHash_reread] at own
        exact .inr ⟨first, mem_cons_self, .inl own⟩
      · refine .inr ⟨first, mem_cons_self, .inr ?_⟩
        change pointer (first.2.pprev.getD 0) = some other at above
        rwa [madeFrom.pprev, getD_pointer, ← madeFrom.pprev] at above
      · cases below
    · exact .inr ⟨pair, List.mem_cons_of_mem _ later, names⟩

theorem IsEntry.isRestorable_iff (entry : IsEntry env pair) :
    IsRestorable env pair ↔ IsLoadable env pair ∧
      (restored env.params pair.2).assignedFields env.params =
        pair.2.assignedFields env.params := by
  obtain ⟨block, madeFrom⟩ := entry.block
  rw [madeFrom.assignedFields_restored_iff]
  constructor
  · intro restorable
    refine ⟨⟨restorable.mints, fun refused => ?_⟩, restorable.written⟩
    rcases refused with null | ⟨early, fails⟩
    · exact restorable.key null
    · exact Bool.false_ne_true (fails.symm.trans (restorable.work early))
  · intro both
    obtain ⟨⟨readable, welcome⟩, written⟩ := both
    exact ⟨written, fun null => welcome (.inl null), readable, fun early =>
      Bool.eq_true_of_not_eq_false fun fails => welcome (.inr ⟨early, fails⟩)⟩

end Load

namespace IndexTree

variable {env : IndexEnv} (tree : IndexTree env) (others : OtherRecords)

theorem isEntry {pair : UInt256 × CBlockIndex} (mem : pair ∈ tree.entries) : IsEntry env pair :=
  ⟨tree.blocks pair mem, tree.height pair mem, tree.mints pair mem⟩

/-- What the loop does with the records of the tree. -/
theorem load_spec :
    ((∃ pair ∈ tree.entries, ¬IsLoadable env pair) →
      loadBlockIndexGuts env .init (tree.entries.map (writeRecord env.params) ++ others.1) = none) ∧
      ((∀ pair ∈ tree.entries, IsLoadable env pair) → ∃ load,
        loadBlockIndexGuts env .init (tree.entries.map (writeRecord env.params) ++ others.1) =
          some load ∧
        ∀ pair ∈ tree.entries,
          load.mapBlockIndex.lookup pair.1 = some (restored env.params pair.2)) := by
  obtain ⟨fails, loads⟩ := loadBlockIndexGuts_spec others tree.entries tree.distinct
    (fun pair mem => tree.isEntry mem) .init fun pair _ => rfl
  refine ⟨fails, fun all => ?_⟩
  obtain ⟨load, loaded, filled, -⟩ := loads all
  exact ⟨load, loaded, filled⟩

theorem isLoadable {load : IndexLoad}
    (loaded : loadBlockIndexGuts env .init
      (tree.entries.map (writeRecord env.params) ++ others.1) = some load) :
    ∀ pair ∈ tree.entries, IsLoadable env pair := by
  intro pair mem
  by_contra unloadable
  rw [(tree.load_spec others).1 ⟨pair, mem, unloadable⟩] at loaded
  cases loaded

theorem lookup_of_loaded {load : IndexLoad}
    (loaded : loadBlockIndexGuts env .init
      (tree.entries.map (writeRecord env.params) ++ others.1) = some load)
    {hash : UInt256} {entry : CBlockIndex} : load.mapBlockIndex.lookup hash = some entry ↔
      ∃ pair ∈ tree.entries, pair.1 = hash ∧ restored env.params pair.2 = entry := by
  obtain ⟨other, also, filled⟩ := (tree.load_spec others).2 (tree.isLoadable others loaded)
  obtain rfl : other = load := Option.some.inj (also.symm.trans loaded)
  constructor
  · intro found
    have mem : hash ∈ other.mapBlockIndex := AList.lookup_isSome.mp (by rw [found]; rfl)
    have named : ∃ pair ∈ tree.entries, pair.1 = hash := by
      rcases mem_of_loadBlockIndexGuts others (fun pair => tree.isEntry) loaded mem with
        empty | ⟨pair, known, own | above⟩
      · exact absurd empty (AList.notMem_empty hash)
      · exact ⟨pair, known, own.symm⟩
      · obtain ⟨parent, known, same, -⟩ := tree.parent pair known hash above
        exact ⟨parent, known, same⟩
    obtain ⟨pair, known, rfl⟩ := named
    rw [filled pair known] at found
    exact ⟨pair, known, rfl, Option.some.inj found⟩
  · rintro ⟨pair, known, rfl, rfl⟩
    exact filled pair known

variable {tree others}

theorem SurvivesRestart.isRestorable (survives : tree.SurvivesRestart others) :
    ∀ pair ∈ tree.entries, IsRestorable env pair := by
  obtain ⟨load, loaded, reproduced⟩ := survives
  have all := tree.isLoadable others loaded
  obtain ⟨other, also, filled⟩ := (tree.load_spec others).2 all
  obtain rfl : other = load := Option.some.inj (also.symm.trans loaded)
  intro pair mem
  obtain ⟨pindexNew, found, same⟩ := (reproduced pair mem).loaded
  obtain rfl := Option.some.inj ((filled pair mem).symm.trans found)
  exact (tree.isEntry mem).isRestorable_iff.mpr ⟨all pair mem, same⟩

theorem survivesRestart (restorable : ∀ pair ∈ tree.entries, IsRestorable env pair) :
    tree.SurvivesRestart others := by
  have parts := fun pair mem =>
    (tree.isEntry mem).isRestorable_iff.mp (restorable pair mem)
  obtain ⟨load, loaded, filled⟩ := (tree.load_spec others).2 fun pair mem =>
    (parts pair mem).1
  refine ⟨load, loaded, fun pair mem => ⟨?_, _, filled pair mem, (parts pair mem).2⟩⟩
  obtain ⟨block, madeFrom⟩ := tree.blocks pair mem
  refine ⟨_, ?_, madeFrom.getBlockHash_reread⟩
  rw [(tree.isEntry mem).unserialize, if_pos (parts pair mem).1.1]

end IndexTree

/-- **The block index survives a restart** exactly if nothing is lost of any entry on disk and
every entry is accepted again. -/
theorem IndexTree.survivesRestart_iff (env : IndexEnv) (tree : IndexTree env)
    (others : OtherRecords) :
    tree.SurvivesRestart others ↔ ∀ pair ∈ tree.entries, IsRestorable env pair :=
  ⟨SurvivesRestart.isRestorable, survivesRestart⟩

/-- The header of the genesis block of the main network. -/
def genesisBlock : Wire.CBlock where
  header :=
    { nVersion := 1
      hashPrevBlock := 0
      hashMerkleRoot := 0x7c3f1b5874e38c421d07fc20ce79ddb3bbaad19cdbad903a0b185070d6005b8c
      nTime := 1558130910
      nBits := 0x1e0ffff0
      nNonce := 5510938
      nAccumulatorCheckpoint := 0 }
  vtx := []
  vchBlockSig := []
  payee := []
  fChecked := false

def secondBlock : Wire.CBlock :=
  { genesisBlock with
    header :=
      { genesisBlock.header with
        nVersion := 4
        hashPrevBlock := main.hashGenesisBlock
        hashMerkleRoot := 1
        nTime := 1557599900
        nNonce := 7 } }

def secondHash : UInt256 := 0xeabc5aa22baaed5202bad1bb71e7001849d66d367aa3cac6ad87a7ca7240f556

/-- The main network, with the hashes of the two blocks. -/
def twoBlockEnv : IndexEnv where
  params := main
  fSkipProofOfWorkCheck := true
  hashQuark := fun _ => main.hashGenesisBlock
  hash := fun _ => secondHash

/-- The genesis block and the block after it, which `AddToBlockIndex` has linked both ways. -/
def linkedEntries : List (UInt256 × CBlockIndex) :=
  [(main.hashGenesisBlock, { CBlockIndex.ofBlock genesisBlock with pnext := some secondHash }),
    (secondHash,
      { CBlockIndex.ofBlock secondBlock with
        pprev := some main.hashGenesisBlock
        nHeight := 1 })]

def linkedTree : IndexTree twoBlockEnv where
  entries := linkedEntries
  distinct := by decide
  blocks := forall_mem_cons.mpr ⟨⟨genesisBlock, rfl, rfl, rfl⟩,
    forall_mem_singleton.mpr ⟨secondBlock, rfl, rfl, rfl⟩⟩
  parent := by
    refine forall_mem_cons.mpr ⟨fun hash impossible => (by cases impossible), ?_⟩
    refine forall_mem_singleton.mpr fun hash above => ?_
    obtain rfl : main.hashGenesisBlock = hash := Option.some.inj above
    exact ⟨_, mem_cons_self, rfl, rfl⟩
  next := by
    refine forall_mem_cons.mpr ⟨fun hash below => ?_, ?_⟩
    · obtain rfl : secondHash = hash := Option.some.inj below
      exact List.mem_cons_of_mem _ mem_cons_self
    · exact forall_mem_singleton.mpr fun hash impossible => (by cases impossible)
  height := forall_mem_cons.mpr ⟨by decide, forall_mem_singleton.mpr (by decide)⟩
  mints := forall_mem_cons.mpr ⟨Nat.two_pow_pos 64, forall_mem_singleton.mpr
    (Nat.two_pow_pos 64)⟩

/-- The pointer to the next block is lost. -/
theorem IndexTree.not_survivesRestart_linkedTree :
    ¬∀ (env : IndexEnv) (tree : IndexTree env) (others : OtherRecords),
      tree.SurvivesRestart others := by
  intro survives
  have restorable := (survives twoBlockEnv linkedTree ⟨[], by simp⟩).isRestorable _
    mem_cons_self
  cases restorable.written.pnext

end DogeCash
