import DogeCash.Primitives.Unserialize

/-! # The encoding of blocks

A header has an accumulator checkpoint in the versions 4 to 6 only, and a block has a signature
only if the transactions that were just read say that it is a proof of stake. Both are decided
by what comes before them, so that a block still has one encoding: what is written for a block
is read as that block, and whatever is accepted is what is written for the block that was read.
-/

namespace DogeCash.Wire

structure CBlockHeader where
  nVersion : Int32
  hashPrevBlock : UInt256
  hashMerkleRoot : UInt256
  nTime : UInt32
  nBits : UInt32
  nNonce : UInt32
  nAccumulatorCheckpoint : UInt256

/-- `CBlock`; `payee` and `fChecked` are only in memory. -/
structure CBlock where
  header : CBlockHeader
  vtx : List CTransaction
  vchBlockSig : List UInt8
  payee : CScript
  fChecked : Bool

def hasCheckpoint (nVersion : Int32) : Bool := 3 < nVersion && nVersion < 7

/-- `CBlock::IsProofOfStake`, which is also the condition for a signature. -/
def isProofOfStake (vtx : List CTransaction) : Bool :=
  match vtx with
  | _ :: second :: _ => second.isCoinStake
  | _ => false

/-! ## Writing -/

/-- `CBlockHeader::SerializationOp` -/
def CBlockHeader.serialize (header : CBlockHeader) : List UInt8 :=
  LittleEndian.bytes 4 header.nVersion.toUInt32.toNat ++
    (UInt256.serialize header.hashPrevBlock ++
      (UInt256.serialize header.hashMerkleRoot ++
        (LittleEndian.bytes 4 header.nTime.toNat ++
          (LittleEndian.bytes 4 header.nBits.toNat ++
            (LittleEndian.bytes 4 header.nNonce.toNat ++
              if hasCheckpoint header.nVersion then UInt256.serialize header.nAccumulatorCheckpoint
              else [])))))

/-- `CBlock::SerializationOp` -/
def CBlock.serialize (block : CBlock) : List UInt8 :=
  block.header.serialize ++
    (serializeVector CTransaction.serialize block.vtx ++
      if isProofOfStake block.vtx then serializeBytes block.vchBlockSig else [])

/-! ## Reading -/

/-- `CBlockHeader::SerializationOp` of a header that was just made. -/
def CBlockHeader.unserialize : Reader UInt8 CBlockHeader := do
  let nVersion ← Int32.unserialize
  let hashPrevBlock ← UInt256.unserialize
  let hashMerkleRoot ← UInt256.unserialize
  let nTime ← UInt32.unserialize
  let nBits ← UInt32.unserialize
  let nNonce ← UInt32.unserialize
  let nAccumulatorCheckpoint ← Reader.onlyIf (hasCheckpoint nVersion) UInt256.unserialize 0
  pure ⟨nVersion, hashPrevBlock, hashMerkleRoot, nTime, nBits, nNonce, nAccumulatorCheckpoint⟩

section Blocks

variable (serializeHash : List UInt8 → UInt256) (sizes : ElementSizes)

/-- `CBlock::SerializationOp` of a block that was just made. -/
def CBlock.unserialize : Reader UInt8 CBlock := do
  let header ← CBlockHeader.unserialize
  let vtx ← unserializeVector (CTransaction.unserialize serializeHash sizes) sizes.ctransaction
    sizes.ctransaction_fits
  let vchBlockSig ← Reader.onlyIf (isProofOfStake vtx) unserializeBytes []
  pure ⟨header, vtx, vchBlockSig, [], false⟩

def CBlock.reread (block : CBlock) : CBlock :=
  { block with
    vtx := block.vtx.map (CTransaction.reread serializeHash)
    payee := []
    fChecked := false }

end Blocks

/-! ## Headers -/

def CBlockHeader.CheckpointInVersion (header : CBlockHeader) : Prop :=
  hasCheckpoint header.nVersion = false → header.nAccumulatorCheckpoint = 0

theorem CBlockHeader.codes : Codes CBlockHeader.unserialize CBlockHeader.serialize
    CBlockHeader.CheckpointInVersion := by
  intro s header rest
  simp only [CBlockHeader.unserialize, Int32.codes.bind_eq_some, UInt256.codes.bind_eq_some,
    UInt32.codes.bind_eq_some, (Reader.codes_onlyIf UInt256.codes _ _).bind_eq_some,
    Reader.pure_eq_some]
  constructor
  · intro found
    obtain ⟨nVersion, _, ⟨-, rfl⟩, hashPrevBlock, _, ⟨-, rfl⟩, hashMerkleRoot, _, ⟨-, rfl⟩, nTime,
      _, ⟨-, rfl⟩, nBits, _, ⟨-, rfl⟩, nNonce, _, ⟨-, rfl⟩, checkpoint, _, ⟨valid, rfl⟩, rfl,
      rfl⟩ := found
    refine ⟨?_, by simp [CBlockHeader.serialize]⟩
    intro without
    rwa [if_neg (Bool.not_eq_true _ ▸ without)] at valid
  · intro found
    obtain ⟨valid, rfl⟩ := found
    refine ⟨header.nVersion, _, ⟨trivial, ?_⟩, header.hashPrevBlock, _, ⟨trivial, rfl⟩,
      header.hashMerkleRoot, _, ⟨trivial, rfl⟩, header.nTime, _, ⟨trivial, rfl⟩, header.nBits, _,
      ⟨trivial, rfl⟩, header.nNonce, _, ⟨trivial, rfl⟩, header.nAccumulatorCheckpoint, rest,
      ⟨?_, rfl⟩, rfl, rfl⟩
    · simp [CBlockHeader.serialize]
    · split_ifs with present
      exact valid (Bool.eq_false_iff.mpr present)

/-! ## Blocks -/

structure CBlock.Sized (block : CBlock) : Prop where
  vtx : block.vtx.length ≤ maxSize
  transactions : ∀ tx ∈ block.vtx, tx.Sized
  signature : block.vchBlockSig.length ≤ maxSize

/-- There is a signature only in a proof of stake, and a checkpoint only in the versions that
have one. -/
structure CBlock.InForm (block : CBlock) : Prop where
  signature : isProofOfStake block.vtx = false → block.vchBlockSig = []
  checkpoint : block.header.CheckpointInVersion

section Blocks

variable (serializeHash : List UInt8 → UInt256) (sizes : ElementSizes)

theorem CBlock.codes : Codes (CBlock.unserialize serializeHash sizes) CBlock.serialize
    (fun block => block.Sized ∧ block.InForm ∧ block.reread serializeHash = block) := by
  intro s block rest
  simp only [CBlock.unserialize, CBlockHeader.codes.bind_eq_some,
    (codes_unserializeVector (CTransaction.codes serializeHash sizes) _ _).bind_eq_some,
    (Reader.codes_onlyIf codes_unserializeBytes _ _).bind_eq_some, Reader.pure_eq_some]
  constructor
  · intro found
    obtain ⟨header, _, ⟨checkpoint, rfl⟩, vtx, _, ⟨txs, rfl⟩, vchBlockSig, _, ⟨signature, rfl⟩, rfl,
      rfl⟩ := found
    have same : vtx.map (CTransaction.reread serializeHash) = vtx :=
      map_eq_self.mpr fun tx mem => (txs.2 tx mem).2
    refine ⟨⟨⟨txs.1, fun tx mem => (txs.2 tx mem).1, ?_⟩, ⟨?_, checkpoint⟩, ?_⟩, ?_⟩
    · split_ifs at signature
      · exact signature
      · rw [signature]
        exact Nat.zero_le _
    · intro unsigned
      rwa [if_neg (Bool.not_eq_true _ ▸ unsigned)] at signature
    · simp only [CBlock.reread, same]
    · simp [CBlock.serialize]
  · intro found
    obtain ⟨⟨sized, form, same⟩, rfl⟩ := found
    have txs : block.vtx.map (CTransaction.reread serializeHash) = block.vtx :=
      congrArg CBlock.vtx same
    refine ⟨block.header, _, ⟨form.checkpoint, ?_⟩, block.vtx, _, ⟨⟨sized.vtx, ?_⟩, rfl⟩,
      block.vchBlockSig, rest, ⟨?_, rfl⟩, ?_, rfl⟩
    · simp [CBlock.serialize]
    · exact fun tx mem => ⟨sized.transactions tx mem, map_eq_self.mp txs tx mem⟩
    · split_ifs with signed
      · exact sized.signature
      · exact form.signature (Bool.eq_false_iff.mpr signed)
    · refine Eq.trans ?_ same
      rw [CBlock.reread, txs]

theorem isProofOfStake_reread (vtx : List CTransaction) :
    isProofOfStake (vtx.map (CTransaction.reread serializeHash)) = isProofOfStake vtx := by
  rcases vtx with _ | ⟨-, _ | ⟨second, -⟩⟩
  · rfl
  · rfl
  · exact second.isCoinStake_reread serializeHash

theorem CBlock.serialize_reread (block : CBlock) :
    (block.reread serializeHash).serialize = block.serialize := by
  have txs : serializeVector CTransaction.serialize
      (block.vtx.map (CTransaction.reread serializeHash)) =
        serializeVector CTransaction.serialize block.vtx := by
    rw [serializeVector, serializeVector, List.length_map, List.flatMap_map]
    exact congrArg _ (List.flatMap_congr fun tx _ => tx.serialize_reread serializeHash)
  change _ ++ (serializeVector CTransaction.serialize
    (block.vtx.map (CTransaction.reread serializeHash)) ++
      if isProofOfStake (block.vtx.map (CTransaction.reread serializeHash)) then _ else []) = _
  rw [txs, isProofOfStake_reread]
  rfl

variable {serializeHash}

theorem CBlock.reread_reread (block : CBlock) :
    (block.reread serializeHash).reread serializeHash = block.reread serializeHash := by
  have txs : (block.vtx.map (CTransaction.reread serializeHash)).map
      (CTransaction.reread serializeHash) = block.vtx.map (CTransaction.reread serializeHash) := by
    rw [List.map_map]
    exact List.map_congr_left fun tx _ => tx.reread_reread
  change CBlock.mk block.header ((block.vtx.map (CTransaction.reread serializeHash)).map
    (CTransaction.reread serializeHash)) block.vchBlockSig [] false = _
  rw [txs]
  rfl

variable {block : CBlock}

theorem CBlock.Sized.reread (sized : block.Sized) : (block.reread serializeHash).Sized where
  vtx := by
    change (block.vtx.map (CTransaction.reread serializeHash)).length ≤ maxSize
    rw [List.length_map]
    exact sized.vtx
  transactions := by
    intro tx mem
    obtain ⟨before, inside, rfl⟩ := List.mem_map.mp
      (mem : tx ∈ block.vtx.map (CTransaction.reread serializeHash))
    exact (sized.transactions before inside).reread
  signature := sized.signature

theorem CBlock.InForm.reread (form : block.InForm) : (block.reread serializeHash).InForm where
  signature := by
    intro unsigned
    apply form.signature
    rwa [← isProofOfStake_reread serializeHash]
  checkpoint := form.checkpoint

/-- **Blocks are read back.** -/
theorem CBlock.unserialize_serialize (sized : block.Sized) (form : block.InForm)
    (suffix : List UInt8) :
    CBlock.unserialize serializeHash sizes (block.serialize ++ suffix) =
      some (block.reread serializeHash, suffix) := by
  rw [← CBlock.serialize_reread serializeHash]
  exact (CBlock.codes serializeHash sizes).roundTrip
    ⟨sized.reread, form.reread, block.reread_reread⟩ suffix

theorem CBlock.reread_eq_self :
    block.reread serializeHash = block ↔
      (∀ tx ∈ block.vtx, tx.reread serializeHash = tx) ∧ block.payee = [] ∧
        block.fChecked = false := by
  rw [← map_eq_self]
  constructor
  · intro same
    exact ⟨congrArg CBlock.vtx same, (congrArg CBlock.payee same).symm,
      (congrArg CBlock.fChecked same).symm⟩
  · intro initial
    obtain ⟨vtx, payee, fChecked⟩ := initial
    rw [CBlock.reread, vtx, ← payee, ← fChecked]

end Blocks

def roundsTx : CTransaction :=
  { hash := 0, nVersion := 1, vin := [], vout := [⟨0, [], 0⟩], nLockTime := 0 }

end DogeCash.Wire
