import DogeCash.Validation.Accounting

/-! # What a block may create

The mint limit of `ConnectBlock` compares `nMint` with the block value. The value a
block really creates is what its coinbase pays and its coinstake adds; `nMint` leaves
out of it the unspendable outputs of the block, which `nMoneySupply` does not count,
and, in a proof-of-stake block, what zerocoin spends redeem and do not pay out. Both
sides of the comparison wrap around.
-/

namespace DogeCash

namespace Node

variable (node : Node) (entry : BlockEntry) (view : CoinsMap) (block : CBlock)

/-- What one transaction creates: the outputs of a coinbase, and what the outputs of a
coinstake are worth more than its inputs. -/
def createdBy (tx : CTransaction) (before : CoinsMap) : Int :=
  if tx.isCoinBase then tx.valueOut
  else if tx.isCoinStake then tx.valueOut - node.valueIn before tx
  else 0

def leftBy (tx : CTransaction) (before : CoinsMap) : Int :=
  if tx.isCoinBase || tx.isCoinStake then 0 else node.valueIn before tx - tx.valueOut

def redeemedBy (tx : CTransaction) (before : CoinsMap) : Int :=
  if tx.isZerocoinSpend && !tx.isCoinStake then node.valueIn before tx - tx.valueOut else 0

def created : Int := sumOver entry block view node.createdBy

/-- The value the block may create: the block value, and what the other transactions
leave over if the block is proof-of-work. -/
def mintLimit : Int :=
  node.getBlockValue entry.nHeight +
    if block.isProofOfWork then sumOver entry block view node.leftBy else 0

/-- What `nMint` counts of the created value, before it wraps around. -/
def countedMint : Int :=
  node.created entry view block -
    sumOver entry block view (fun tx _ => tx.getValueOutUnspendable) -
      sumOver entry block view node.redeemedBy

/-- What `nExpectedMint` counts of the limit, before it wraps around. -/
def countedLimit : Int :=
  node.getBlockValue entry.nHeight +
    if block.isProofOfWork then sumOver entry block view (fun tx before => fee before tx) else 0

/-- The value the comparison does not see: unspendable outputs, in a proof-of-stake block
what zerocoin spends do not pay out, and what is lost where a side wraps around. -/
def hiddenValue : Int :=
  sumOver entry block view (fun tx _ => tx.getValueOutUnspendable) +
    (if block.isProofOfWork then 0 else sumOver entry block view node.redeemedBy) +
      (lostInt64 (node.countedMint entry view block) -
        lostInt64 (node.countedLimit entry view block))

/-- The loop of `ConnectBlock` and its check of the block value succeed. -/
def valueAccepted : Bool :=
  match node.connectTransactions entry block view with
  | .ok acct => node.isBlockValueValid block (node.expectedMint entry block acct) (acct.nMint entry)
  | .error _ => false

section

variable {node entry view block}

theorem valueAccepted_iff : node.valueAccepted entry view block = true ↔
    ∃ acct, node.connectTransactions entry block view = .ok acct ∧
      node.isBlockValueValid block (node.expectedMint entry block acct) (acct.nMint entry) =
        true := by
  unfold valueAccepted
  split
  · rename_i acct ok
    simp [ok]
  · rename_i failure failed
    simp [failed]

theorem valueOut_sub_valueIn_add_fee (tx : CTransaction) (before : CoinsMap) :
    tx.valueOut - node.valueIn before tx + fee before tx =
      node.createdBy tx before - node.redeemedBy tx before := by
  rcases tx.kind_cases with ⟨spend, coinBase, spends⟩ | ⟨spend, coinBase, spends⟩ |
    ⟨spend, coinBase, spends⟩
  · cases coinStake : tx.isCoinStake <;>
      simp [createdBy, redeemedBy, fee, spend, coinBase, spends, coinStake]
  · simp [createdBy, redeemedBy, fee, valueIn, CoinsMap.consumed, spend, coinBase, spends]
  · cases coinStake : tx.isCoinStake <;>
      simp [createdBy, redeemedBy, fee, valueIn, spend, coinBase, spends, coinStake]

theorem leftBy_eq (tx : CTransaction) (before : CoinsMap) :
    node.leftBy tx before = fee before tx + node.redeemedBy tx before := by
  rcases tx.kind_cases with ⟨spend, coinBase, spends⟩ | ⟨spend, coinBase, spends⟩ |
    ⟨spend, coinBase, spends⟩
  · cases coinStake : tx.isCoinStake <;>
      simp [leftBy, redeemedBy, fee, spend, coinBase, spends, coinStake]
  · simp [leftBy, redeemedBy, fee, spend, coinBase, spends]
  · cases coinStake : tx.isCoinStake <;>
      simp [leftBy, redeemedBy, fee, valueIn, spend, coinBase, spends, coinStake]

variable {acct : Accounting} {tip : ChainTip}

/-- `nMint` is what is counted of the created value, wrapped once. -/
theorem nMint_eq_countedMint (ok : node.connectTransactions entry block view = .ok acct) :
    acct.nMint entry = wrapInt64 (node.countedMint entry view block) := by
  obtain ⟨nValueOut, nValueOutUnspendable, nValueIn, nFees⟩ := connectTransactions_totals ok
  have totals :
      sumOver entry block view (fun tx _ => tx.valueOut) +
        sumOver entry block view (fun tx before => fee before tx) +
        sumOver entry block view node.redeemedBy =
      sumOver entry block view node.createdBy +
        sumOver entry block view (fun tx before => node.valueIn before tx) := by
    rw [← sumOver_add, ← sumOver_add, ← sumOver_add]
    congr 1
    funext tx before
    have each : tx.valueOut - node.valueIn before tx + fee before tx =
        node.createdBy tx before - node.redeemedBy tx before :=
      valueOut_sub_valueIn_add_fee tx before
    omega
  rw [acct.nMint_eq, countedMint, created]
  congr 1
  omega

/-- The block value fits an `int64_t`. -/
theorem getBlockValue_bounds (nHeight : Int) :
    0 ≤ node.getBlockValue nHeight ∧ node.getBlockValue nHeight ≤ 7000000 * COIN :=
  ⟨node.params.getBlockValue_nonneg _ _,
    (node.params.getBlockValue_le_subsidy _ _).trans (node.params.subsidy_le _)⟩

theorem expectedMint_eq (ok : node.connectTransactions entry block view = .ok acct) :
    node.expectedMint entry block acct = wrapInt64 (node.countedLimit entry view block) := by
  obtain ⟨-, -, -, nFees⟩ := connectTransactions_totals ok
  rw [expectedMint, countedLimit, nFees]
  split_ifs
  · rfl
  · obtain ⟨nonneg, bounded⟩ := node.getBlockValue_bounds entry.nHeight
    rw [COIN] at bounded
    rw [Int.add_zero, wrapInt64_of_fits ⟨by omega, by omega⟩]

theorem mintLimit_eq : node.mintLimit entry view block = node.countedLimit entry view block +
    if block.isProofOfWork then sumOver entry block view node.redeemedBy else 0 := by
  have left : sumOver entry block view node.leftBy =
      sumOver entry block view (fun tx before => fee before tx) +
        sumOver entry block view node.redeemedBy := by
    rw [← sumOver_add]
    congr 1
    funext tx before
    exact leftBy_eq tx before
  simp only [mintLimit, countedLimit]
  split_ifs
  · omega
  · omega

theorem isBlockValueValid_iff (tipIs : node.tip = some tip) (synced : node.isSynced = true)
    (ordinary : node.isBudgetPaymentBlock (node.heightFor tip block) = false)
    (nExpectedValue nMinted : Int) :
    node.isBlockValueValid block nExpectedValue nMinted = true ↔ nMinted ≤ nExpectedValue := by
  simp [isBlockValueValid, tipIs, synced, ordinary]

theorem created_le (tipIs : node.tip = some tip) (synced : node.isSynced = true)
    (ordinary : node.isBudgetPaymentBlock (node.heightFor tip block) = false)
    (accepted : node.valueAccepted entry view block = true) :
    node.created entry view block ≤
      node.mintLimit entry view block + node.hiddenValue entry view block := by
  obtain ⟨acct, ok, valid⟩ := valueAccepted_iff.mp accepted
  have minted := (isBlockValueValid_iff tipIs synced ordinary _ _).mp valid
  rw [nMint_eq_countedMint ok, expectedMint_eq ok] at minted
  have counted : node.countedMint entry view block = node.created entry view block -
      sumOver entry block view (fun tx _ => tx.getValueOutUnspendable) -
        sumOver entry block view node.redeemedBy := rfl
  rw [mintLimit_eq, hiddenValue, lostInt64, lostInt64]
  split_ifs
  · omega
  · omega

end

/-! ## A coinbase that pays more

Every hidden amount can be created on top of the limit: a coinbase takes the block
value and adds an unspendable output of that amount.
-/

/-- A coinbase that pays the block value to anyone and burns an amount. -/
def burningCoinBase (nBlockValue burned : Int) : CTransaction where
  hash := 1
  nVersion := 1
  vin := [⟨.null, [0x51, 0x51], 0xffffffff⟩]
  vout := [.of nBlockValue [0x51], .of burned [Op.OP_RETURN]]
  nLockTime := 0

/-- The block with that coinbase alone. -/
def burningBlock (hashPrevBlock : UInt256) (nBlockValue burned : Int) : CBlock where
  hash := 2
  hashPrevBlock := hashPrevBlock
  hashMerkleRoot := 1
  nTime := 0
  nBits := 0
  vtx := [burningCoinBase nBlockValue burned]

section

variable {node entry}

theorem sumOver_burningBlock (hashPrevBlock : UInt256) (nBlockValue burned : Int)
    (amount : CTransaction → CoinsMap → Int) :
    sumOver entry (burningBlock hashPrevBlock nBlockValue burned) (fun _ => {}) amount =
      amount (burningCoinBase nBlockValue burned) fun _ => {} := by
  have single : CoinsMap.withViews (fun _ => {}) (Int32.ofInt entry.nHeight)
      (burningBlock hashPrevBlock nBlockValue burned).vtx =
        [(burningCoinBase nBlockValue burned, fun _ => {})] := rfl
  rw [sumOver, single]
  simp

variable {nBlockValue burned : Int}

theorem burningCoinBase_getValueOut (nonneg : 0 ≤ nBlockValue) (positive : 0 ≤ burned)
    (fits : nBlockValue + burned ≤ int64Max) :
    (burningCoinBase nBlockValue burned).getValueOut = some (nBlockValue + burned) := by
  have first : CTransaction.addValueOut 0 (.of nBlockValue [0x51]) = some (0 + nBlockValue) :=
    CTransaction.addValueOut_of_fits nonneg (by rw [CTxOut.of_nValue]; omega)
  have second : CTransaction.addValueOut nBlockValue (.of burned [Op.OP_RETURN]) =
      some (nBlockValue + burned) :=
    CTransaction.addValueOut_of_fits positive fits
  simp [CTransaction.getValueOut, burningCoinBase, first, second]

theorem connectTransactions_burningBlock (node : Node) (entry : BlockEntry)
    (hashPrevBlock : UInt256) (nonneg : 0 ≤ nBlockValue) (positive : 0 ≤ burned)
    (fits : nBlockValue + burned ≤ int64Max) :
    ∃ acct, node.connectTransactions entry (burningBlock hashPrevBlock nBlockValue burned)
      (fun _ => {}) = .ok acct := by
  have sigOps : (burningCoinBase nBlockValue burned).getLegacySigOpCount = 0 := rfl
  have coinBase : (burningCoinBase nBlockValue burned).isCoinBase = true := rfl
  have notSpend : (burningCoinBase nBlockValue burned).isZerocoinSpend = false := rfl
  have notZerocoin : (burningCoinBase nBlockValue burned).containsZerocoins = false := rfl
  have valueOut : (burningCoinBase nBlockValue burned).getValueOutOrThrow =
      .ok (nBlockValue + burned) := by
    rw [CTransaction.getValueOutOrThrow, burningCoinBase_getValueOut nonneg positive fits]
  have stepped : ∃ acct, node.connectTransaction entry
      (burningBlock hashPrevBlock nBlockValue burned) { view := fun _ => {} }
      (burningCoinBase nBlockValue burned) = .ok acct := by
    simp only [connectTransaction, sigOps, notZerocoin, Bool.and_false, Bool.not_false, valueOut,
      connectKind, notSpend, coinBase]
    exact ⟨_, rfl⟩
  obtain ⟨acct, stepped⟩ := stepped
  exact ⟨acct, foldlM_cons_eq_ok.mpr ⟨acct, stepped, rfl⟩⟩

theorem burningCoinBase_createdBy (node : Node) (before : CoinsMap) (nBlockValue burned : Int) :
    node.createdBy (burningCoinBase nBlockValue burned) before = nBlockValue + burned := by
  have coinBase : (burningCoinBase nBlockValue burned).isCoinBase = true := rfl
  rw [createdBy, if_pos coinBase]
  simp [CTransaction.valueOut, burningCoinBase]

theorem burningCoinBase_unspendable (positive : 0 ≤ burned) :
    (burningCoinBase nBlockValue burned).getValueOutUnspendable = burned := by
  have spendable : CScript.isUnspendable [0x51] = false := rfl
  have unspendable : CScript.isUnspendable [Op.OP_RETURN] = true := rfl
  have notNull : (CTxOut.of burned [Op.OP_RETURN]).isNull = false :=
    CTxOut.not_isNull_of_nonneg positive
  have notEmpty : (CTxOut.of burned [Op.OP_RETURN]).isEmpty = false := by
    simp [CTxOut.isEmpty, CTxOut.of]
  simp [CTransaction.getValueOutUnspendable, burningCoinBase, notNull, notEmpty]
  simp [CTxOut.of, spendable, unspendable]

theorem burningBlock_exceeds (entry : BlockEntry) {tip : ChainTip} {hashPrevBlock : UInt256}
    {burned : Int}
    (tipIs : node.tip = some tip) (synced : node.isSynced = true)
    (ordinary : ∀ block : CBlock, block.hashPrevBlock = hashPrevBlock →
      node.isBudgetPaymentBlock (node.heightFor tip block) = false)
    (positive : 0 ≤ burned) (fits : burned + 7000000 * COIN ≤ int64Max) :
    let block := burningBlock hashPrevBlock (node.getBlockValue entry.nHeight) burned
    node.valueAccepted entry (fun _ => {}) block = true ∧
      node.hiddenValue entry (fun _ => {}) block = burned ∧
      node.created entry (fun _ => {}) block =
        node.mintLimit entry (fun _ => {}) block + burned := by
  intro block
  obtain ⟨nonneg, bounded⟩ := node.getBlockValue_bounds entry.nHeight
  obtain ⟨acct, ok⟩ :=
    connectTransactions_burningBlock node entry hashPrevBlock nonneg positive (by omega)
  have work : block.isProofOfWork = true := rfl
  have redeemed : sumOver entry block (fun _ => {}) node.redeemedBy = 0 := by
    rfl
  have fees : sumOver entry block (fun _ => {}) (fun tx before => fee before tx) = 0 := by
    rfl
  have burns : sumOver entry block (fun _ => {}) (fun tx _ => tx.getValueOutUnspendable) =
      burned := by
    rw [sumOver_burningBlock, burningCoinBase_unspendable positive]
  have creates : node.created entry (fun _ => {}) block =
      node.getBlockValue entry.nHeight + burned := by
    rw [created, sumOver_burningBlock, burningCoinBase_createdBy]
  -- Both sides of the comparison are the block value, which fits.
  have mints : node.countedMint entry (fun _ => {}) block = node.getBlockValue entry.nHeight := by
    rw [countedMint, creates, burns, redeemed]
    omega
  have limits : node.countedLimit entry (fun _ => {}) block = node.getBlockValue entry.nHeight := by
    rw [countedLimit, if_pos work, fees, Int.add_zero]
  have hidden : node.hiddenValue entry (fun _ => {}) block = burned := by
    rw [hiddenValue, burns, if_pos work, mints, limits]
    omega
  have limit : node.mintLimit entry (fun _ => {}) block = node.getBlockValue entry.nHeight := by
    rw [mintLimit_eq, if_pos work, redeemed, limits, Int.add_zero]
  refine ⟨?_, hidden, by rw [creates, limit]⟩
  refine valueAccepted_iff.mpr ⟨acct, ok, ?_⟩
  refine (isBlockValueValid_iff tipIs synced (ordinary block rfl) _ _).mpr ?_
  rw [nMint_eq_countedMint ok, expectedMint_eq ok, mints, limits]

/-- **When the mint limit bounds what is created.** On a synced node, outside budget
payment blocks, the accepted blocks that hide a given value from `nMint` create at most
the limit exactly when that value is not positive. -/
theorem created_le_mintLimit_iff (node : Node) (entry : BlockEntry) (tip : ChainTip)
    (hidden : Int) (tipIs : node.tip = some tip) (synced : node.isSynced = true)
    (ordinary : node.isBudgetPaymentBlock entry.nHeight = false)
    (atHeight : ∃ block, node.heightFor tip block = entry.nHeight)
    (fits : hidden + 7000000 * COIN ≤ int64Max) :
    (∀ view block, node.heightFor tip block = entry.nHeight →
      node.valueAccepted entry view block = true → node.hiddenValue entry view block = hidden →
      node.created entry view block ≤ node.mintLimit entry view block) ↔ hidden ≤ 0 := by
  constructor
  · intro bounded
    by_contra positive
    obtain ⟨child, childHeight⟩ := atHeight
    have sameHeight : ∀ block : CBlock, block.hashPrevBlock = child.hashPrevBlock →
        node.heightFor tip block = entry.nHeight := by
      intro block sameParent
      rw [← childHeight, heightFor, heightFor, sameParent]
    obtain ⟨accepted, hides, exceeds⟩ := burningBlock_exceeds entry tipIs synced
      (fun block sameParent => by rw [sameHeight block sameParent]; exact ordinary)
      (by omega : 0 ≤ hidden) fits
    have within := bounded (fun _ => {})
      (burningBlock child.hashPrevBlock (node.getBlockValue entry.nHeight) hidden)
      (sameHeight _ rfl) accepted hides
    omega
  · intro nothing view block height accepted hides
    have created := created_le tipIs synced (by rw [height]; exact ordinary) accepted
    omega

end

def sampleEntry : BlockEntry := ⟨some 2, 150, (Node.sample .regtest).tip⟩

/-- The limit on the regression test network at height 150, for blocks that hide
nothing. -/
theorem created_le_mintLimit_sample :
    (Node.sample .regtest).isBudgetPaymentBlock 150 = false ∧
    ∀ view block, (Node.sample .regtest).heightFor ⟨149, 149, 1600000000, 8000000 * COIN⟩ block =
        150 →
      (Node.sample .regtest).valueAccepted sampleEntry view block = true →
      (Node.sample .regtest).hiddenValue sampleEntry view block = 0 →
      (Node.sample .regtest).created sampleEntry view block ≤
        (Node.sample .regtest).mintLimit sampleEntry view block :=
  ⟨rfl, (created_le_mintLimit_iff (Node.sample .regtest) sampleEntry
    ⟨149, 149, 1600000000, 8000000 * COIN⟩ 0 rfl rfl rfl ⟨burningBlock 149 0 0, rfl⟩
    (by decide)).mpr (Int.le_refl 0)⟩

def sampleView : CoinsMap := fun txid =>
  if txid = 7 then { vout := [.of (5 * COIN) [0x51]], nHeight := 100, nVersion := 1 } else {}

/-- A block whose second transaction burns that coin and whose coinbase takes 5 DOGEC
more than the block value. -/
def sampleBlock : CBlock where
  hash := 2
  hashPrevBlock := 149
  hashMerkleRoot := 42
  nTime := 1600000060
  nBits := 0
  vtx :=
    [{ hash := 1, nVersion := 1, vin := [⟨.null, [0x51, 0x51], 0xffffffff⟩],
       vout := [.of (1080000000 + 5 * COIN) [0x51]], nLockTime := 0 },
     { hash := 3, nVersion := 1, vin := [⟨⟨7, 0⟩, [], 0xffffffff⟩],
       vout := [.of (5 * COIN) [Op.OP_RETURN]], nLockTime := 0 }]

/-- The block is accepted although it creates 5 DOGEC more than it may. -/
theorem mintLimit_lt_created_sampleBlock :
    (Node.sample .regtest).isSynced = true ∧
    (Node.sample .regtest).isBudgetPaymentBlock 150 = false ∧
    (Node.sample .regtest).valueAccepted sampleEntry sampleView
      sampleBlock = true ∧
    (Node.sample .regtest).created sampleEntry sampleView
      sampleBlock = 1580000000 ∧
    (Node.sample .regtest).mintLimit sampleEntry sampleView
      sampleBlock = 1080000000 := by
  refine ⟨rfl, rfl, ?_, ?_, ?_⟩
  · decide
  · decide
  · decide

end Node

end DogeCash
