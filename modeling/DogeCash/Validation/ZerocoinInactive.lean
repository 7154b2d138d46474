import DogeCash.Validation.Overmint

/-! # Zerocoin spends while zerocoin is inactive

The proofs and the amounts of zerocoin spends are checked by `CheckTransaction` once
zerocoin is active. `ConnectBlock` accepts spends at any time, skips the checks of
ordinary inputs for them and credits the denominations they claim. Hence the outputs of
a transaction are covered by what it takes out of the view for all transactions but
these.
-/

namespace DogeCash

namespace Node

variable {node : Node} {entry : BlockEntry} {block : CBlock} {view : CoinsMap}

/-- The outputs of every transaction, coinbases and coinstakes apart, are worth at most
the outputs it takes from the view or from earlier transactions of the block. -/
def OutputsCovered (entry : BlockEntry) (view : CoinsMap) (block : CBlock) : Prop :=
  ∀ pair ∈ view.withViews (Int32.ofInt entry.nHeight) block.vtx,
    pair.1.isCoinBase = false → pair.1.isCoinStake = false →
      pair.1.valueOut ≤ pair.2.consumed pair.1

instance : Decidable (OutputsCovered entry view block) :=
  inferInstanceAs (Decidable (∀ pair ∈ _, _))

/-- Zerocoin is inactive for a block: neither the checks that start with a time nor
those that start with a height are made. -/
def ZerocoinInactive (node : Node) (entry : BlockEntry) (block : CBlock) : Prop :=
  block.nTime.toNat ≤ node.params.nZerocoinStartTime ∧
    entry.nHeight < node.params.nZerocoinStartHeight ∧ entry.nHeight < node.params.nBlockZerocoinV2

instance : Decidable (node.ZerocoinInactive entry block) := inferInstanceAs (Decidable (_ ∧ _ ∧ _))

variable {tx : CTransaction}

theorem consumed_of_isZerocoinSpend (spend : tx.isZerocoinSpend = true) : view.consumed tx = 0 := by
  simp [CoinsMap.consumed, CTransaction.spendsCoins, spend]

theorem Round.covered {before after : Accounting} (round : node.Round entry tx before after)
    (notCoinBase : tx.isCoinBase = false) (notCoinStake : tx.isCoinStake = false) :
    tx.valueOut ≤ before.view.consumed tx ∨ (tx.isZerocoinSpend = true ∧ 0 < tx.valueOut) := by
  by_cases spend : tx.isZerocoinSpend = true
  · rw [consumed_of_isZerocoinSpend spend]
    by_cases positive : 0 < tx.valueOut
    · exact .inr ⟨spend, positive⟩
    · exact .inl (by omega)
  · have spends : tx.spendsCoins = true :=
      CTransaction.spendsCoins_iff.mpr ⟨notCoinBase, by simpa using spend⟩
    left
    rw [CoinsMap.consumed, if_pos spends]
    exact CheckInputs.valueOut_le_of_checkInputs (round.inputs spends).2 spends notCoinStake

theorem outputsCovered_of_connectTransactions {acct : Accounting}
    (ok : node.connectTransactions entry block view = .ok acct) :
    OutputsCovered entry view block ↔
      ∀ tx ∈ block.vtx, tx.isCoinStake = false → tx.isZerocoinSpend = true → tx.valueOut ≤ 0 := by
  constructor
  · intro covered tx mem notCoinStake spend
    rw [← map_fst_withViews ok] at mem
    obtain ⟨pair, inside, rfl⟩ := List.mem_map.mp mem
    have bounded := covered pair inside
      (CTransaction.isCoinBase_eq_false_of_isZerocoinSpend spend) notCoinStake
    rwa [consumed_of_isZerocoinSpend spend] at bounded
  · intro unpaid
    refine foldlM_forall_withViews (fun tx before => tx.isCoinBase = false →
      tx.isCoinStake = false → tx.valueOut ≤ before.consumed tx) ok ?_
    intro tx mem before after round notCoinBase notCoinStake
    rcases round.covered notCoinBase notCoinStake with covered | ⟨spend, positive⟩
    · exact covered
    · have nothing := unpaid tx mem notCoinStake spend
      omega

/-- **Which accepted blocks create no value in ordinary transactions.** Exactly those in
which no zerocoin spend other than a coinstake pays anything. This holds whether zerocoin
is active or not. -/
theorem outputsCovered_iff {hashBestBlock : UInt256} {fJustCheck fAlreadyChecked : Bool}
    {connected : Connected}
    (accepted : node.connectBlock entry view hashBestBlock block fJustCheck fAlreadyChecked =
      .ok connected)
    (genesis : block.hash = node.params.hashGenesisBlock → ∀ tx ∈ block.vtx, tx.isCoinBase = true) :
    OutputsCovered entry view block ↔
      ∀ tx ∈ block.vtx, tx.isCoinStake = false → tx.isZerocoinSpend = true → tx.valueOut ≤ 0 := by
  by_cases isGenesis : block.hash = node.params.hashGenesisBlock
  · have coinBases := genesis isGenesis
    constructor
    · intro _ tx mem _ spend
      have notCoinBase := CTransaction.isCoinBase_eq_false_of_isZerocoinSpend spend
      rw [coinBases tx mem] at notCoinBase
      cases notCoinBase
    · intro _ pair mem notCoinBase
      rw [coinBases pair.1 (CoinsMap.mem_of_mem_withViews mem)] at notCoinBase
      cases notCoinBase
  · obtain ⟨acct, connectedBy, -⟩ := connectBlock_eq_ok accepted isGenesis
    exact outputsCovered_of_connectTransactions connectedBy.loop

/-! ## A forged spend -/

/-- A serialized spend of 5 DOGEC with serial number 1 and empty proofs: after the
opcode and the pushed length come the denomination, the hash of the outputs, the
checksum, the two commitments, the serial number and the three proofs. -/
def forgedScript : CScript :=
  [Op.OP_ZEROCOINSPEND, 0x02, 0x67, 0x00] ++ [5, 0, 0, 0] ++ List.replicate 32 0 ++
    List.replicate 4 0 ++ [0, 0] ++ [1, 1] ++ List.replicate 21 0 ++ [0, 0] ++
    List.replicate 32 0 ++ List.replicate 4 0

/-- What that script decodes to. -/
def forgedSpend : CoinSpend where
  denomination := .five
  ptxHash := 0
  accChecksum := 0
  coinSerialNumber := 1
  version := 1
  spendType := .spend
  hasValidSignature := .valid
  hasValidSerial _ := true
  verify _ _ := false

/-- A node of the main network that is still downloading blocks. -/
def downloadingNode : Node :=
  { Node.sample .main with
    isInitialBlockDownload := true
    isSynced := false
    totalBlocksEstimate := 570000
    zerocoin :=
      { ZerocoinEnv.sample with
        txInToZerocoinSpend := fun txin =>
          if txin.scriptSig = forgedScript then some forgedSpend else none } }

/-- A block with a coinbase and the forged spend. -/
def forgedBlock : CBlock where
  hash := 2
  hashPrevBlock := 149
  hashMerkleRoot := 42
  nTime := 1600000060
  nBits := 0
  vtx :=
    [{ hash := 1, nVersion := 1, vin := [⟨.null, [0x51, 0x51], 0xffffffff⟩],
       vout := [.of 1080000000 [0x51]], nLockTime := 0 },
     { hash := 3, nVersion := 1, vin := [⟨.null, forgedScript, 5⟩],
       vout := [.of (5 * COIN) [0x51]], nLockTime := 0 }]

/-- `CheckBlock` and `ConnectBlock` accept the block while zerocoin is inactive, and the
forged spend pays 5 DOGEC although it takes nothing from the view. -/
theorem not_outputsCovered_forgedBlock :
    downloadingNode.ZerocoinInactive ⟨some 2, 150, downloadingNode.tip⟩ forgedBlock ∧
    downloadingNode.checkBlock forgedBlock true = .ok () ∧
    (downloadingNode.connectBlock ⟨some 2, 150, downloadingNode.tip⟩ (fun _ => {}) 149 forgedBlock
      false false).isOk = true ∧
    ¬OutputsCovered ⟨some 2, 150, downloadingNode.tip⟩ (fun _ => {}) forgedBlock := by
  refine ⟨?_, ?_, ?_, ?_⟩
  · decide
  · decide
  · decide
  · decide

/-- The sample block of the mint limit has no such spend. -/
theorem outputsCovered_sampleBlock :
    ∃ connected, (Node.sample .regtest).connectBlock sampleEntry sampleView 149 sampleBlock false
        false = .ok connected ∧ OutputsCovered sampleEntry sampleView sampleBlock := by
  obtain ⟨connected, accepted⟩ : ∃ connected, (Node.sample .regtest).connectBlock sampleEntry
      sampleView 149 sampleBlock false false = .ok connected := by
    apply exists_eq_ok_of_isOk
    decide
  refine ⟨connected, accepted, ?_⟩
  refine (outputsCovered_iff accepted ?_).mpr ?_
  · decide
  · decide

end Node

end DogeCash
