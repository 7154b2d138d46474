import DogeCash.Primitives.BlockEncoding
import DogeCash.Primitives.VarInt
import DogeCash.Zerocoin.Supply

/-! # The block index on disk

`CDiskBlockIndex` is what the database keeps of an entry of the block index. What is written
depends on the status bits, the height, the stake flag and the version that are written before,
and the reader decides by the same values; what is not written has the value of a new entry after
it was read. The pointers to other entries are written as their hashes: the one to the parent is
taken over from the entry, the one to the next block is not, and the hash of the proof of stake
is never written.
-/

namespace DogeCash

open LittleEndian (bytes)
open Parses (onlyIf_some)
open Reader (many onlyIf)

/-- `BLOCK_HAVE_DATA` -/
def blockHaveData : UInt32 := 8

/-- `BLOCK_HAVE_UNDO` -/
def blockHaveUndo : UInt32 := 16

/-- `CBlockIndex::BLOCK_PROOF_OF_STAKE` -/
def blockProofOfStake : UInt32 := 1

/-- `CLIENT_VERSION` -/
def clientVersion : Int := 5020400

def hasBits (flags bits : UInt32) : Bool := flags &&& bits != 0

/-- `std::map<CoinDenomination, int64_t>` -/
abbrev DenominationCounts := CoinDenomination → Option Int64

/-- `CBlockIndex`, as far as it is written. A pointer to an entry is the key of that entry in
`mapBlockIndex`. -/
structure CBlockIndex where
  pprev : Option UInt256
  pnext : Option UInt256
  nHeight : Int32
  nFile : Int32
  nDataPos : UInt32
  nUndoPos : UInt32
  nTx : UInt32
  nStatus : UInt32
  nFlags : UInt32
  nStakeModifier : UInt64
  nStakeModifierV2 : UInt256
  prevoutStake : COutPoint
  nStakeTime : UInt32
  hashProofOfStake : UInt256
  nMint : Int64
  nMoneySupply : Int64
  nVersion : Int32
  hashMerkleRoot : UInt256
  nTime : UInt32
  nBits : UInt32
  nNonce : UInt32
  nAccumulatorCheckpoint : UInt256
  mapZerocoinSupply : DenominationCounts
  vMintDenominationsInBlock : List CoinDenomination

namespace CBlockIndex

def noSupply : DenominationCounts := fun denom =>
  if denom ∈ CoinDenomination.denomList then some 0 else none

/-- `CBlockIndex::SetNull`, and the pointers and hashes that it leaves alone. -/
def null : CBlockIndex where
  pprev := none
  pnext := none
  nHeight := 0
  nFile := 0
  nDataPos := 0
  nUndoPos := 0
  nTx := 0
  nStatus := 0
  nFlags := 0
  nStakeModifier := 0
  nStakeModifierV2 := 0
  prevoutStake := COutPoint.null
  nStakeTime := 0
  hashProofOfStake := 0
  nMint := 0
  nMoneySupply := 0
  nVersion := 0
  hashMerkleRoot := 0
  nTime := 0
  nBits := 0
  nNonce := 0
  nAccumulatorCheckpoint := 0
  mapZerocoinSupply := noSupply
  vMintDenominationsInBlock := []

/-- The output that a proof of stake stakes: `vtx[1].vin[0].prevout`. -/
def stakedPrevout (vtx : List CTransaction) : COutPoint :=
  ((vtx[1]?.bind fun tx => tx.vin.head?).map CTxIn.prevout).getD COutPoint.null

/-- `CBlockIndex(const CBlock& block)` -/
def ofBlock (block : Wire.CBlock) : CBlockIndex :=
  { null with
    nVersion := block.header.nVersion
    hashMerkleRoot := block.header.hashMerkleRoot
    nTime := block.header.nTime
    nBits := block.header.nBits
    nNonce := block.header.nNonce
    nAccumulatorCheckpoint :=
      if 3 < block.header.nVersion ∧ block.header.nVersion < 7 then
        block.header.nAccumulatorCheckpoint
      else null.nAccumulatorCheckpoint
    nFlags :=
      if Wire.isProofOfStake block.vtx then null.nFlags ||| blockProofOfStake else null.nFlags
    prevoutStake :=
      if Wire.isProofOfStake block.vtx then stakedPrevout block.vtx else null.prevoutStake
    nStakeTime := if Wire.isProofOfStake block.vtx then block.header.nTime else null.nStakeTime }

def isProofOfStake (pindex : CBlockIndex) : Bool := hasBits pindex.nFlags blockProofOfStake

/-- The header of an entry with the hash of its parent, as the methods of the index fill it in. -/
def headerAfter (pindex : CBlockIndex) (hashPrevBlock : UInt256) : Wire.CBlockHeader where
  nVersion := pindex.nVersion
  hashPrevBlock := hashPrevBlock
  hashMerkleRoot := pindex.hashMerkleRoot
  nTime := pindex.nTime
  nBits := pindex.nBits
  nNonce := pindex.nNonce
  nAccumulatorCheckpoint := pindex.nAccumulatorCheckpoint

def hasFile (pindex : CBlockIndex) : Bool :=
  hasBits pindex.nStatus (blockHaveData ||| blockHaveUndo)

def hasData (pindex : CBlockIndex) : Bool := hasBits pindex.nStatus blockHaveData

def hasUndo (pindex : CBlockIndex) : Bool := hasBits pindex.nStatus blockHaveUndo

end CBlockIndex

/-! ## Denominations -/

namespace CoinDenomination

def all : List CoinDenomination := error :: denomList

/-- `Serialize` of a denomination. -/
def serialize (denom : CoinDenomination) : List UInt8 :=
  bytes 4 (Int32.ofInt denom.toInt).toUInt32.toNat

/-- `Unserialize` of a denomination. -/
def unserialize : Reader UInt8 CoinDenomination :=
  (fun f : Int32 => ofInt f.toInt) <$> Int32.unserialize

end CoinDenomination

/-- `Serialize` of an entry of a map. -/
def serializeCount (item : CoinDenomination × Int64) : List UInt8 :=
  item.1.serialize ++ bytes 8 item.2.toUInt64.toNat

/-- `Unserialize` of an entry of a map. -/
def unserializeCount : Reader UInt8 (CoinDenomination × Int64) := do
  let first ← CoinDenomination.unserialize
  let second ← Int64.unserialize
  pure (first, second)

/-- `Serialize` of a map. -/
def DenominationCounts.serialize (map : DenominationCounts) : List UInt8 :=
  serializeVector serializeCount (entriesOf CoinDenomination.all map)

/-- `Unserialize` of a map. -/
def DenominationCounts.unserialize : Reader UInt8 DenominationCounts := do
  let nSize ← readCompactSize
  let items ← many unserializeCount nSize
  pure (items.foldl insertNew fun _ => none)

/-- `ReadVarInt<int>` -/
def Int32.unserializeVarInt : Reader UInt8 Int32 := Int32.ofNat <$> (readVarInt : Reader UInt8 ℕ)

/-- What `ReadVarInt<int>` makes of a number that `WriteVarInt` has written. -/
def varIntImage (n : Int32) : Int32 := if n < 0 then Int32.ofInt (n.toInt % 128) else n

/-- `ReadVarInt<unsigned int>` -/
def UInt32.unserializeVarInt : Reader UInt8 UInt32 := UInt32.ofNat <$> (readVarInt : Reader UInt8 ℕ)

/-! ## The entry on disk -/

structure CDiskBlockIndex extends CBlockIndex where
  hashPrev : UInt256
  hashNext : UInt256

namespace CDiskBlockIndex

/-- `CDiskBlockIndex(const CBlockIndex* pindex)` -/
def ofIndex (pindex : CBlockIndex) : CDiskBlockIndex where
  toCBlockIndex := pindex
  hashPrev := pindex.pprev.getD 0
  hashNext := 0

variable (params : ChainParams) (disk : CDiskBlockIndex)

/-- `CDiskBlockIndex::SerializationOp`, writing. -/
def serialize : List UInt8 :=
  writeVarInt clientVersion ++
  writeVarInt disk.nHeight.toInt ++
  writeVarInt disk.nStatus.toNat ++
  writeVarInt disk.nTx.toNat ++
  (if disk.hasFile then writeVarInt disk.nFile.toInt else []) ++
  (if disk.hasData then writeVarInt disk.nDataPos.toNat else []) ++
  (if disk.hasUndo then writeVarInt disk.nUndoPos.toNat else []) ++
  bytes 8 disk.nMint.toUInt64.toNat ++
  bytes 8 disk.nMoneySupply.toUInt64.toNat ++
  bytes 4 disk.nFlags.toNat ++
  (if !params.isStakeModifierV2 disk.nHeight.toInt then
    bytes 8 disk.nStakeModifier.toNat else []) ++
  (if params.isStakeModifierV2 disk.nHeight.toInt then
    UInt256.serialize disk.nStakeModifierV2 else []) ++
  (if disk.isProofOfStake then COutPoint.serialize disk.prevoutStake else []) ++
  (if disk.isProofOfStake then bytes 4 disk.nStakeTime.toNat else []) ++
  bytes 4 disk.nVersion.toUInt32.toNat ++
  UInt256.serialize disk.hashPrev ++
  UInt256.serialize disk.hashNext ++
  UInt256.serialize disk.hashMerkleRoot ++
  bytes 4 disk.nTime.toNat ++
  bytes 4 disk.nBits.toNat ++
  bytes 4 disk.nNonce.toNat ++
  (if 3 < disk.nVersion then UInt256.serialize disk.nAccumulatorCheckpoint else []) ++
  (if 3 < disk.nVersion then disk.mapZerocoinSupply.serialize else []) ++
  (if 3 < disk.nVersion then
    serializeVector CoinDenomination.serialize disk.vMintDenominationsInBlock else [])

/-- `CDiskBlockIndex::SerializationOp`, reading into a new object. The version in front of the
entry is read and not used. -/
def unserialize : Reader UInt8 CDiskBlockIndex := do
  let _ ← (readVarInt : Reader UInt8 ℕ)
  let nHeight ← Int32.unserializeVarInt
  let nStatus ← UInt32.unserializeVarInt
  let nTx ← UInt32.unserializeVarInt
  let nFile ← onlyIf (hasBits nStatus (blockHaveData ||| blockHaveUndo))
    Int32.unserializeVarInt 0
  let nDataPos ← onlyIf (hasBits nStatus blockHaveData) UInt32.unserializeVarInt 0
  let nUndoPos ← onlyIf (hasBits nStatus blockHaveUndo) UInt32.unserializeVarInt 0
  let nMint ← Int64.unserialize
  let nMoneySupply ← Int64.unserialize
  let nFlags ← UInt32.unserialize
  let nStakeModifier ← onlyIf (!params.isStakeModifierV2 nHeight.toInt)
    UInt64.unserialize 0
  let nStakeModifierV2 ← onlyIf (params.isStakeModifierV2 nHeight.toInt)
    UInt256.unserialize 0
  let prevoutStake ← onlyIf (hasBits nFlags blockProofOfStake) COutPoint.unserialize
    COutPoint.null
  let nStakeTime ← onlyIf (hasBits nFlags blockProofOfStake) UInt32.unserialize 0
  let nVersion ← Int32.unserialize
  let hashPrev ← UInt256.unserialize
  let hashNext ← UInt256.unserialize
  let hashMerkleRoot ← UInt256.unserialize
  let nTime ← UInt32.unserialize
  let nBits ← UInt32.unserialize
  let nNonce ← UInt32.unserialize
  let nAccumulatorCheckpoint ← onlyIf (3 < nVersion) UInt256.unserialize 0
  let mapZerocoinSupply ← onlyIf (3 < nVersion) DenominationCounts.unserialize
    CBlockIndex.noSupply
  let vMintDenominationsInBlock ← onlyIf (3 < nVersion)
    (unserializeVector CoinDenomination.unserialize 4 (by decide)) []
  pure
    { pprev := none
      pnext := none
      nHeight := nHeight
      nFile := nFile
      nDataPos := nDataPos
      nUndoPos := nUndoPos
      nTx := nTx
      nStatus := nStatus
      nFlags := nFlags
      nStakeModifier := nStakeModifier
      nStakeModifierV2 := nStakeModifierV2
      prevoutStake := prevoutStake
      nStakeTime := nStakeTime
      hashProofOfStake := 0
      nMint := nMint
      nMoneySupply := nMoneySupply
      nVersion := nVersion
      hashMerkleRoot := hashMerkleRoot
      nTime := nTime
      nBits := nBits
      nNonce := nNonce
      nAccumulatorCheckpoint := nAccumulatorCheckpoint
      mapZerocoinSupply := mapZerocoinSupply
      vMintDenominationsInBlock := vMintDenominationsInBlock
      hashPrev := hashPrev
      hashNext := hashNext }

def reread : CDiskBlockIndex where
  toCBlockIndex := { disk.toCBlockIndex with
    pprev := none
    pnext := none
    nFile := if disk.hasFile then varIntImage disk.nFile else 0
    nDataPos := if disk.hasData then disk.nDataPos else 0
    nUndoPos := if disk.hasUndo then disk.nUndoPos else 0
    nStakeModifier :=
      if !params.isStakeModifierV2 disk.nHeight.toInt then disk.nStakeModifier else 0
    nStakeModifierV2 :=
      if params.isStakeModifierV2 disk.nHeight.toInt then disk.nStakeModifierV2 else 0
    prevoutStake := if disk.isProofOfStake then disk.prevoutStake else COutPoint.null
    nStakeTime := if disk.isProofOfStake then disk.nStakeTime else 0
    hashProofOfStake := 0
    nAccumulatorCheckpoint := if 3 < disk.nVersion then disk.nAccumulatorCheckpoint else 0
    mapZerocoinSupply := if 3 < disk.nVersion then disk.mapZerocoinSupply else CBlockIndex.noSupply
    vMintDenominationsInBlock := if 3 < disk.nVersion then disk.vMintDenominationsInBlock else [] }
  hashPrev := disk.hashPrev
  hashNext := disk.hashNext

end CDiskBlockIndex

/-! ## What is read back -/

theorem CoinDenomination.parses (denom : CoinDenomination) :
    Parses unserialize denom.serialize (some denom) := by
  have back : ofInt (Int32.ofInt denom.toInt).toInt = denom := by cases denom <;> rfl
  have value := (Int32.codes.parses (a := Int32.ofInt denom.toInt) trivial).map
    fun f => ofInt f.toInt
  rwa [Option.map_some, back] at value

theorem parses_unserializeCount (item : CoinDenomination × Int64) :
    Parses unserializeCount (serializeCount item) (some item) :=
  item.1.parses.bind ((Int64.codes.parses trivial).last _)

theorem CoinDenomination.nodup_all : all.Nodup := by decide

theorem CoinDenomination.mem_all (denom : CoinDenomination) : denom ∈ all := by
  cases denom <;> decide

theorem DenominationCounts.parses (map : DenominationCounts) :
    Parses unserialize map.serialize (some map) := by
  have size : (entriesOf CoinDenomination.all map).length ≤ 9 := List.length_filterMap_le _ _
  have limit : 9 ≤ maxSize := by decide
  have count := parses_readCompactSize (n := (entriesOf CoinDenomination.all map).length)
    (by omega)
  rw [if_pos (size.trans limit)] at count
  have items := (Parses.many parses_unserializeCount (entriesOf CoinDenomination.all map)).last
    fun items => items.foldl insertNew fun _ => none
  have same : (entriesOf CoinDenomination.all map).foldl insertNew (fun _ => none) = map := by
    funext denom
    rw [foldl_insertNew_entriesOf CoinDenomination.nodup_all map _ fun _ _ => rfl,
      if_pos denom.mem_all]
  rw [Option.map_some, same] at items
  exact count.bind items

theorem parses_readVarInt {n : Int} (nonneg : 0 ≤ n) :
    Parses (readVarInt : Reader UInt8 ℕ) (writeVarInt n) (some n.toNat) :=
  fun rest => readVarInt_writeVarInt nonneg rest

theorem UInt32.parses_varInt (n : UInt32) :
    Parses UInt32.unserializeVarInt (writeVarInt n.toNat) (some n) := by
  have read := (parses_readVarInt (Int.natCast_nonneg n.toNat)).map UInt32.ofNat
  rw [Int.toNat_natCast] at read
  rwa [Option.map_some, UInt32.ofNat_toNat] at read

theorem Int32.parses_varInt (n : Int32) :
    Parses Int32.unserializeVarInt (writeVarInt n.toInt) (some (varIntImage n)) := by
  have sign : n < 0 ↔ n.toInt < 0 := Int32.lt_iff_toInt_lt
  unfold varIntImage
  by_cases negative : n.toInt < 0
  · have value : Parses (readVarInt : Reader UInt8 ℕ) (writeVarInt n.toInt)
        (some (n.toInt % 128).toNat) := fun rest => readVarInt_writeVarInt_neg negative rest
    have read := value.map Int32.ofNat
    have same : Int32.ofNat (n.toInt % 128).toNat = Int32.ofInt (n.toInt % 128) := by
      rw [← Int32.ofInt_eq_ofNat, Int.toNat_of_nonneg (Int.emod_nonneg _ (by decide))]
    rw [if_pos (sign.mpr negative)]
    rwa [Option.map_some, same] at read
  · have read := (parses_readVarInt (Int.not_lt.mp negative)).map Int32.ofNat
    have same : Int32.ofNat n.toInt.toNat = n := by
      rw [← Int32.ofInt_eq_ofNat, Int.toNat_of_nonneg (Int.not_lt.mp negative), Int32.ofInt_toInt]
    rw [if_neg (mt sign.mp negative)]
    rwa [Option.map_some, same] at read

theorem Int32.parses_varInt_nonneg {n : Int32} (nonneg : 0 ≤ n) :
    Parses Int32.unserializeVarInt (writeVarInt n.toInt) (some n) := by
  have read := Int32.parses_varInt n
  rwa [varIntImage, if_neg (Int32.not_lt.mpr nonneg)] at read

namespace CDiskBlockIndex

def IsReadable (disk : CDiskBlockIndex) : Prop :=
  3 < disk.nVersion → disk.vMintDenominationsInBlock.length ≤ maxSize

instance (disk : CDiskBlockIndex) : Decidable disk.IsReadable := inferInstanceAs (Decidable (_ → _))

theorem clientVersion_nonneg : 0 ≤ clientVersion := by decide

theorem parses (params : ChainParams) (disk : CDiskBlockIndex) (nonneg : 0 ≤ disk.nHeight)
    (fits : disk.vMintDenominationsInBlock.length < 256 ^ 8) :
    Parses (unserialize params) (disk.serialize params)
      (if disk.IsReadable then some (disk.reread params) else none) := by
  unfold serialize unserialize
  simp only [List.append_assoc]
  refine (parses_readVarInt clientVersion_nonneg).bind ?_
  refine (Int32.parses_varInt_nonneg nonneg).bind ?_
  refine (UInt32.parses_varInt disk.nStatus).bind ?_
  refine (UInt32.parses_varInt disk.nTx).bind ?_
  refine (onlyIf_some (fun _ => Int32.parses_varInt disk.nFile) 0).bind ?_
  refine (onlyIf_some (fun _ => UInt32.parses_varInt disk.nDataPos) 0).bind ?_
  refine (onlyIf_some (fun _ => UInt32.parses_varInt disk.nUndoPos) 0).bind ?_
  refine (Int64.codes.parses trivial).bind ((Int64.codes.parses trivial).bind ?_)
  refine (UInt32.codes.parses trivial).bind ?_
  refine (onlyIf_some (fun _ => UInt64.codes.parses trivial) 0).bind ?_
  refine (onlyIf_some (fun _ => UInt256.codes.parses trivial) 0).bind ?_
  refine (onlyIf_some (fun _ => COutPoint.codes.parses trivial) COutPoint.null).bind ?_
  refine (onlyIf_some (fun _ => UInt32.codes.parses trivial) 0).bind ?_
  refine (Int32.codes.parses trivial).bind ?_
  refine (UInt256.codes.parses trivial).bind ((UInt256.codes.parses trivial).bind ?_)
  refine (UInt256.codes.parses trivial).bind ?_
  refine (UInt32.codes.parses trivial).bind ((UInt32.codes.parses trivial).bind ?_)
  refine (UInt32.codes.parses trivial).bind ?_
  refine (onlyIf_some (fun _ => UInt256.codes.parses trivial) 0).bind ?_
  refine (onlyIf_some (fun _ => DenominationCounts.parses disk.mapZerocoinSupply) _).bind ?_
  have mints := parses_unserializeVector CoinDenomination.parses 4 (by decide) fits
  by_cases readable : disk.IsReadable
  · rw [if_pos readable]
    refine (onlyIf_some (fun zerocoin => ?_) []).last _
    rwa [if_pos (readable zerocoin)] at mints
  · obtain ⟨zerocoin, exceeds⟩ := Classical.not_imp.mp readable
    have refused : (if 3 < disk.nVersion then none else some ([] : List CoinDenomination)) = none :=
      if_pos zerocoin
    have last := Parses.onlyIf (fun _ : 3 < disk.nVersion => mints) []
    rw [if_neg exceeds, refused] at last
    rw [if_neg readable]
    exact last.last _

end CDiskBlockIndex

end DogeCash
