import DogeCash.Foundation.Run
import DogeCash.Validation.Superblocks
import DogeCash.Validation.Supply

/-! # The money supply along a chain

A chain of blocks is connected one after another from the genesis block, each while its
parent is the active tip. The supply recorded for every block is the value of the coin set
after it, as an `int64_t` keeps it, and the mint limit keeps it under the cap where the sums
of no block wrap around.
-/

namespace DogeCash

open ChainParams (ofNetwork)
open CheckInputs (checkFee)

/-- A free output stays free when another one is spent. -/
theorem Node.Free.updateCoins {node : Node} {entry : BlockEntry} {view final : CoinsMap}
    {tx : CTransaction} {nHeight : Int32} {txundo : CTxUndo} {other : COutPoint}
    (free : Node.Free node entry view other) (wellFormed : view.WellFormed)
    (ok : view.updateCoins tx nHeight = some (final, txundo)) (elsewhere : other.hash ≠ tx.hash)
    (unspent : other ∉ tx.vin.map CTxIn.prevout) : Node.Free node entry final other := by
  refine ⟨?_, ?_⟩
  · rw [CoinsMap.updateCoins_outputFor wellFormed ok elsewhere, if_neg fun spent => unspent spent.2]
    exact free.output
  · obtain ⟨vout, marks⟩ := CoinsMap.updateCoins_marks ok elsewhere
    rw [marks]
    exact free.mature

structure ChainState where
  coins : CoinsMap
  tip : ChainTip

/-- A block that is connected: the node that connects it, the height its index entry has,
and the node as it was when the block was first checked. -/
structure Connection where
  node : Node
  nHeight : Int
  block : CBlock
  checkedBy : Node
  fAlreadyChecked : Bool

namespace ChainState

def genesis (params : ChainParams) (nTime : Int) : ChainState where
  coins _ := {}
  tip := ⟨params.hashGenesisBlock, 0, nTime, 0⟩

variable (params : ChainParams)

def childEntry (state : ChainState) (connection : Connection) : BlockEntry :=
  ⟨some connection.block.hash, connection.nHeight, some state.tip⟩

def nodeAt (state : ChainState) (connection : Connection) : Node :=
  { connection.node with params := params, tip := some state.tip }

/-- Connect a block to the active tip. No block but the first has the hash of the genesis
block, the index having one entry for each hash. -/
def connectNext (connection : Connection) (state : ChainState) : Option ChainState :=
  if connection.block.hash = params.hashGenesisBlock ∨
      connection.block.hashPrevBlock ≠ state.tip.hash ∨
      connection.nHeight ≠ state.tip.nHeight + 1 then none
  else
    match connection.checkedBy.checkBlock connection.block true,
      (state.nodeAt params connection).connectBlock (state.childEntry connection) state.coins
        state.tip.hash connection.block false connection.fAlreadyChecked with
    | .ok _, .ok connected =>
      some {
        coins := connected.view
        tip := ⟨connection.block.hash, connection.nHeight, connection.block.nTime.toNat,
          connected.nMoneySupply⟩ }
    | _, _ => none

variable {params} {connection : Connection} {state next : ChainState}

theorem connectNext_eq_some (connected : connectNext params connection state = some next) :
    connection.block.hash ≠ params.hashGenesisBlock ∧
    connection.block.hashPrevBlock = state.tip.hash ∧
    connection.nHeight = state.tip.nHeight + 1 ∧
    connection.checkedBy.checkBlock connection.block true = .ok () ∧
    ∃ result, (state.nodeAt params connection).connectBlock (state.childEntry connection)
        state.coins state.tip.hash connection.block false connection.fAlreadyChecked = .ok result ∧
      next.coins = result.view ∧ next.tip.nMoneySupply = result.nMoneySupply ∧
      next.tip.nHeight = connection.nHeight := by
  unfold connectNext at connected
  split at connected
  · cases connected
  · rename_i extends'
    simp only [not_or, ne_eq, not_not] at extends'
    obtain ⟨notGenesis, parent, height⟩ := extends'
    split at connected
    · rename_i result checked ok
      cases connected
      exact ⟨notGenesis, parent, height, checked, result, ok, rfl, rfl, rfl⟩
    · cases connected

/-- The supply recorded for the tip is what an `int64_t` keeps of the value of the coin set. -/
structure SupplyExact (state : ChainState) : Prop where
  height : 0 ≤ state.tip.nHeight
  wellFormed : state.coins.WellFormed
  valued : state.coins.Valued
  exact : state.tip.nMoneySupply = wrapInt64 state.coins.total

theorem supplyExact_genesis (params : ChainParams) (nTime : Int) :
    (genesis params nTime).SupplyExact ∧ (genesis params nTime).coins.total = 0 := by
  have nothing : (genesis params nTime).coins.total = 0 := by
    have each : ∀ txid, ((genesis params nTime).coins txid).value = 0 := fun _ => rfl
    simp [CoinsMap.total, each]
  refine ⟨⟨Int.le_refl 0, fun _ => CCoins.default_wellFormed,
    fun _ _ mem => absurd mem List.not_mem_nil, ?_⟩, nothing⟩
  rw [nothing]
  rfl

/-- What connecting a block does to the coin set, with the result of the loop. -/
theorem SupplyExact.connectNext (supply : state.SupplyExact)
    (connected : connectNext params connection state = some next)
    (noZerocoin : ∀ tx ∈ connection.block.vtx, tx.containsZerocoins = false)
    (identified : connection.block.Identified) :
    next.SupplyExact ∧ ∃ acct,
      (state.nodeAt params connection).connectTransactions (state.childEntry connection)
        connection.block state.coins = .ok acct ∧
      next.coins.total =
        state.coins.total + acct.nValueOut - acct.nValueIn - acct.nValueOutUnspendable ∧
      (state.nodeAt params connection).isBlockValueValid connection.block
        ((state.nodeAt params connection).expectedMint (state.childEntry connection)
          connection.block acct) (acct.nMint (state.childEntry connection)) = true := by
  obtain ⟨notGenesis, -, height, checked, result, ok, coins, nMoneySupply, nHeight⟩ :=
    connectNext_eq_some connected
  obtain ⟨acct, connectedBy, -⟩ := Node.connectBlock_eq_ok ok notGenesis
  have aboveGenesis : connection.nHeight ≠ 0 := by
    have := supply.height
    omega
  have enforced : (state.childEntry connection).fEnforceBIP30 = true := by
    simp [BlockEntry.fEnforceBIP30, childEntry, aboveGenesis]
  obtain ⟨wellFormed, valued, total⟩ := Node.connectTransactions_total supply.wellFormed
    supply.valued connectedBy.loop (Node.checkBlock_shape checked) noZerocoin identified
    (connectedBy.bip30 enforced)
  rw [← connectedBy.view_eq, ← coins] at wellFormed valued total
  refine ⟨⟨?_, wellFormed, valued, ?_⟩, acct, connectedBy.loop, total, connectedBy.value⟩
  · have := supply.height
    omega
  · have previous : (state.childEntry connection).nMoneySupplyPrev = state.tip.nMoneySupply := rfl
    rw [nMoneySupply, connectedBy.nMoneySupply_eq, total, Accounting.nMoneySupply, previous,
      supply.exact]
    simp only [Int.sub_eq_add_neg, Int.add_assoc]
    rw [wrapInt64_wrap_add]

/-- The recorded supply is exact and the coin set under the cap. -/
structure UnderCap (params : ChainParams) (state : ChainState) : Prop where
  supply : state.SupplyExact
  below : state.coins.total ≤ params.nMaxMoneyOut

/-- The outputs of the block, with the cap on top, are worth less than an `int64_t` holds. -/
def OutputsFit (params : ChainParams) (block : CBlock) : Prop :=
  (block.vtx.map CTransaction.valueOut).sum + params.nMaxMoneyOut < 2 ^ 63

instance (block : CBlock) : Decidable (OutputsFit params block) :=
  inferInstanceAs (Decidable (_ < _))

/-- **One block keeps the coin set under the cap**, if the node is synced, the block is no
budget payment block and its outputs fit. -/
theorem total_le_connectNext (supply : state.SupplyExact)
    (below : state.coins.total ≤ params.nMaxMoneyOut)
    (connected : connectNext params connection state = some next)
    (noZerocoin : ∀ tx ∈ connection.block.vtx, tx.containsZerocoins = false)
    (identified : connection.block.Identified)
    (synced : connection.node.isSynced = true)
    (ordinary : connection.node.isBudgetPaymentBlock connection.nHeight = false)
    (fits : OutputsFit params connection.block) :
    next.coins.total ≤ params.nMaxMoneyOut := by
  obtain ⟨after, acct, loop, total, value⟩ := supply.connectNext connected noZerocoin identified
  obtain ⟨-, parent, height, -⟩ := connectNext_eq_some connected
  have atHeight : (state.nodeAt params connection).heightFor state.tip connection.block =
      connection.nHeight := by
    rw [Node.heightFor, if_pos parent.symm, height]
  have tipIs : (state.nodeAt params connection).tip = some state.tip := rfl
  have isSynced : (state.nodeAt params connection).isSynced = true := synced
  have notBudget : (state.nodeAt params connection).isBudgetPaymentBlock
      ((state.nodeAt params connection).heightFor state.tip connection.block) = false := by
    rw [atHeight]
    exact ordinary
  have minted := (Node.isBlockValueValid_iff tipIs isSynced notBudget _ _).mp value
  -- What the totals are, and that neither side of the comparison wraps around.
  have before := supply.valued.total_nonneg
  have result := after.valued.total_nonneg
  obtain ⟨feesNonneg, fees⟩ := Node.connectTransactions_nFees_bounds noZerocoin loop
  obtain ⟨out, unspendable⟩ := Node.connectTransactions_out loop
  have nMoneySupply : state.tip.nMoneySupply = state.coins.total := by
    rw [supply.exact, wrapInt64_of_fits ⟨by omega, by rw [OutputsFit] at fits; omega⟩]
  have blockValue : (state.nodeAt params connection).getBlockValue connection.nHeight =
      params.getBlockValue state.coins.total connection.nHeight := by
    rw [← nMoneySupply]
    rfl
  have capped := params.getBlockValue_le state.coins.total connection.nHeight below
  have blockValueNonneg := params.getBlockValue_nonneg state.coins.total connection.nHeight
  have entryHeight : (state.childEntry connection).nHeight = connection.nHeight := rfl
  rw [OutputsFit, ← out] at fits
  rw [Node.expectedMint, acct.nMint_eq, entryHeight, blockValue] at minted
  generalize params.getBlockValue state.coins.total connection.nHeight = nBlockValue at *
  generalize state.coins.total = supply at *
  generalize next.coins.total = supplyAfter at *
  have mintFits : FitsInt64 (acct.nValueOut - acct.nValueIn - acct.nValueOutUnspendable +
      acct.nFees) := ⟨by omega, by omega⟩
  have limitFits : FitsInt64 (nBlockValue + acct.nFees) := ⟨by omega, by omega⟩
  rw [wrapInt64_of_fits mintFits, wrapInt64_of_fits limitFits] at minted
  -- Proof-of-work pays the fees back to the miner, proof-of-stake destroys them.
  split_ifs at minted
  · omega
  · omega

/-- **The money supply of a chain.** The supply recorded for the last block of every chain
without zerocoin transactions is what an `int64_t` keeps of the value of the coin set after it;
if every block was connected by a synced node, none is a budget payment block and the outputs of
each fit, it is that value and does not exceed the cap. -/
theorem nMoneySupply_run (network : Network) (nTime : Int) (connections : List Connection)
    (final : ChainState)
    (runs : run (connectNext (.ofNetwork network)) connections
      (genesis (.ofNetwork network) nTime) = some final)
    (noZerocoin : ∀ connection ∈ connections, ∀ tx ∈ connection.block.vtx,
      tx.containsZerocoins = false)
    (identified : ∀ connection ∈ connections, connection.block.Identified) :
    final.tip.nMoneySupply = wrapInt64 final.coins.total ∧
      ((∀ connection ∈ connections, connection.node.isSynced = true ∧
        connection.node.isBudgetPaymentBlock connection.nHeight = false ∧
        OutputsFit (.ofNetwork network) connection.block) →
        final.tip.nMoneySupply = final.coins.total ∧
          final.tip.nMoneySupply ≤ (ofNetwork network).nMaxMoneyOut) := by
  obtain ⟨start, nothing⟩ := supplyExact_genesis (.ofNetwork network) nTime
  refine ⟨?_, fun ordinary => ?_⟩
  · have supply := run_invariant SupplyExact
      (fun connection mem before after supply connected =>
        (supply.connectNext connected (noZerocoin connection mem)
          (identified connection mem)).1)
      runs start
    exact supply.exact
  · have cap : 0 ≤ (ofNetwork network).nMaxMoneyOut ∧
        (ofNetwork network).nMaxMoneyOut < 2 ^ 63 := by
      cases network <;> decide
    have kept : UnderCap (.ofNetwork network) final := by
      refine run_invariant (UnderCap (.ofNetwork network)) ?_ runs ⟨start, nothing ▸ cap.1⟩
      rintro connection mem before after ⟨supply, below⟩ connected
      obtain ⟨synced, notBudget, fits⟩ := ordinary connection mem
      have next := supply.connectNext connected (noZerocoin connection mem)
        (identified connection mem)
      exact ⟨next.1, total_le_connectNext supply below connected (noZerocoin connection mem)
        (identified connection mem) synced notBudget fits⟩
    obtain ⟨supply, below⟩ := kept
    have fits : FitsInt64 final.coins.total :=
      ⟨(by decide : (-2 ^ 63 : Int) ≤ 0).trans supply.valued.total_nonneg, below.trans_lt cap.2⟩
    have exact := supply.exact
    rw [wrapInt64_of_fits fits] at exact
    exact ⟨exact, by rw [exact]; exact below⟩

/-- A block with a coinbase alone, after the given one. -/
def sampleConnection (nHeight : Int) (hashPrevBlock hash : UInt256) (outs : List CTxOut) :
    Connection where
  node := Node.sample .regtest
  nHeight := nHeight
  block :=
    { hash := hash, hashPrevBlock := hashPrevBlock, hashMerkleRoot := 42, nTime := 1600000060,
      nBits := 0
      vtx :=
        [{ hash := hash + 1, nVersion := 1, vin := [⟨.null, [0x51, 0x51], 0xffffffff⟩],
           vout := outs, nLockTime := 0 }] }
  checkedBy := Node.sample .regtest
  fAlreadyChecked := true

def sampleChain : List Connection :=
  [sampleConnection 1 (ofNetwork .regtest).hashGenesisBlock 10
    [.of (7000000 * COIN) [0x51]],
   sampleConnection 2 10 20 [.of (8 * COIN) [0x51], .of (2 * COIN) [Op.OP_RETURN]]]

theorem nMoneySupply_run_sampleChain :
    ∃ final, run (connectNext (.ofNetwork .regtest)) sampleChain
        (genesis (.ofNetwork .regtest) 0) = some final ∧
      final.tip.nMoneySupply = wrapInt64 final.coins.total ∧
      final.tip.nMoneySupply = final.coins.total ∧
      final.tip.nMoneySupply ≤ (ofNetwork .regtest).nMaxMoneyOut := by
  have ok : (run (connectNext (.ofNetwork .regtest)) sampleChain
      (genesis (.ofNetwork .regtest) 0)).isSome = true := by
    decide
  obtain ⟨final, runs⟩ := Option.isSome_iff_exists.mp ok
  obtain ⟨wrapped, capped⟩ := nMoneySupply_run .regtest 0 sampleChain final runs
    (by decide) (by decide)
  exact ⟨final, runs, wrapped, capped (by decide)⟩

/-! ## Above an `int64_t` -/

/-- Spends an output of the first block of `mintingChain`. All but the first of them mint as much
as a transaction may. -/
def mintingTransaction (number : ℕ) : CTransaction where
  hash := BitVec.ofNat 256 (1000 + number)
  nVersion := 1
  vin := [⟨⟨11, UInt32.ofNat number⟩, [], 0xffffffff⟩]
  vout :=
    match number with
    | 0 => [.of 0 [0x51]]
    | _ + 1 => [.of 0 [], .of (21000000 * COIN) [0x51]]
  nLockTime := 0

def mintingConnection (nHeight : ℕ) (outs : List CTxOut) (vtx : List CTransaction) : Connection where
  node := { Node.sample .testnet with isSynced := false }
  nHeight := nHeight
  block :=
    { hash := BitVec.ofNat 256 (10 * nHeight)
      hashPrevBlock :=
        if nHeight = 1 then (ofNetwork .testnet).hashGenesisBlock
        else BitVec.ofNat 256 (10 * (nHeight - 1))
      hashMerkleRoot := 42, nTime := 1600000060, nBits := 0
      vtx :=
        { hash := BitVec.ofNat 256 (10 * nHeight + 1), nVersion := 1,
          vin := [⟨.null, [0x51, 0x51], 0xffffffff⟩], vout := outs, nLockTime := 0 } :: vtx }
  checkedBy := { Node.sample .testnet with tip := none }
  fAlreadyChecked := true

def maturingChain : List Connection :=
  mintingConnection 1 (List.replicate 4394 (.of 0 [0x51])) [] ::
    (List.range 14).map fun number => mintingConnection (number + 2) [.of 0 [0x51]] []

/-- The numbers of the transactions of the last block. -/
def mintingNumbers : List ℕ := 0 :: List.range' 1 4393

def mintingTransactions : List CTransaction := mintingNumbers.map mintingTransaction

/-- A proof-of-work block with 4393 coinstakes. -/
def mintingBlock : Connection := mintingConnection 16 [.of 0 [0x51]] mintingTransactions

def mintingChain : List Connection := maturingChain ++ [mintingBlock]

section

variable {number other : ℕ}

theorem mintingTransaction_hash (few : number < 4394) :
    (mintingTransaction number).hash.toNat = 1000 + number := by
  simp only [mintingTransaction, BitVec.toNat_ofNat]
  omega

theorem mintingTransaction_inj (few : number < 4394) (fewOther : other < 4394)
    (same : (mintingTransaction number).hash = (mintingTransaction other).hash) :
    number = other := by
  have equal := congrArg BitVec.toNat same
  rw [mintingTransaction_hash few, mintingTransaction_hash fewOther] at equal
  omega

theorem mem_mintingNumbers : number ∈ mintingNumbers ↔ number < 4394 := by
  rw [mintingNumbers, List.mem_cons, List.mem_range'_1]
  omega

theorem nodup_mintingTransactions : mintingTransactions.Nodup := by
  have nodup : mintingNumbers.Nodup :=
    List.nodup_cons.mpr ⟨by simp [List.mem_range'_1], List.nodup_range'⟩
  refine nodup.map_on fun number listed other alsoListed same => ?_
  exact mintingTransaction_inj (mem_mintingNumbers.mp listed) (mem_mintingNumbers.mp alsoListed)
    (congrArg CTransaction.hash same)

/-- The loop of `ConnectBlock` after some of the minting transactions. -/
structure Minting (node : Node) (entry : BlockEntry) (done : List CTransaction)
    (acct : Accounting) : Prop where
  wellFormed : acct.view.WellFormed
  free : ∀ number < 4394, mintingTransaction number ∉ done →
    node.Free entry acct.view ⟨11, UInt32.ofNat number⟩
  nSigOps : acct.nSigOps = 0
  nValueIn : acct.nValueIn = 0
  nValueOutUnspendable : acct.nValueOutUnspendable = 0

variable {node : Node} {entry : BlockEntry} {block : CBlock} {done : List CTransaction}
  {acct : Accounting} (onTestnet : node.params = ofNetwork .testnet)
  (valid : ∀ out, node.validOutPoint out entry.nHeight = true)
include onTestnet valid

theorem Minting.step (minting : Minting node entry done acct) (few : number < 4394)
    (fresh : mintingTransaction number ∉ done) :
    ∃ next, node.connectTransaction entry block acct (mintingTransaction number) = .ok next ∧
      Minting node entry (done ++ [mintingTransaction number]) next := by
  have inputs : (mintingTransaction number).vin = [⟨⟨11, UInt32.ofNat number⟩, [], 0xffffffff⟩] :=
    rfl
  have spends : (mintingTransaction number).spendsCoins = true := by cases number <;> rfl
  have fee : checkFee node.params (mintingTransaction number) 0 = .ok () := by
    rw [onTestnet]
    cases number <;> rfl
  have zero : node.params.moneyRange 0 = true := by
    rw [onTestnet]
    rfl
  have mints : (mintingTransaction number).vout.filter CTxOut.isZerocoinMint = [] := by
    cases number <;> rfl
  have noSigOps : (mintingTransaction number).getLegacySigOpCount = 0 := by cases number <;> rfl
  have unspendable : (mintingTransaction number).getValueOutUnspendable = 0 := by
    cases number <;> rfl
  have plain : (mintingTransaction number).containsZerocoins = false := by cases number <;> rfl
  obtain ⟨nValueOut, value⟩ : ∃ nValueOut,
      (mintingTransaction number).getValueOutOrThrow = .ok nValueOut := by
    cases number <;> exact ⟨_, rfl⟩
  have nonneg := (CTransaction.getValueOutOrThrow_eq_ok value).2
  have sigOps : acct.nSigOps + (mintingTransaction number).getLegacySigOpCount ≤ maxBlockSigOps := by
    rw [noSigOps, minting.nSigOps]
    decide
  have free : node.Free entry acct.view ⟨11, UInt32.ofNat number⟩ := minting.free number few fresh
  obtain ⟨middle, kind, view, nSigOps, nValueIn, nValueOutUnspendable⟩ :
      ∃ middle, node.connectKind entry (mintingTransaction number) { acct with
          nSigOps := acct.nSigOps + (mintingTransaction number).getLegacySigOpCount } =
        .ok middle ∧ middle.view = acct.view ∧ _ ∧ middle.nValueIn = acct.nValueIn ∧
          middle.nValueOutUnspendable = acct.nValueOutUnspendable :=
    Node.connectKind_free inputs spends fee zero (valid _) (by rw [mints]; nofun) sigOps free
  have wellFormed : middle.view.WellFormed := view ▸ minting.wellFormed
  obtain ⟨after, txundo, updated⟩ := Node.updateCoins_free inputs (view ▸ free)
    (Int32.ofInt entry.nHeight)
  refine ⟨_, Node.connectTransaction_of_parts block sigOps (by rw [plain, Bool.and_false]) kind
    value updated, wellFormed.updateCoins nonneg updated, ?_, ?_, ?_, ?_⟩
  · intro other fewOther left
    rw [List.mem_append, not_or, List.mem_singleton] at left
    refine Node.Free.updateCoins (view ▸ minting.free other fewOther left.1) wellFormed updated
      (fun same => ?_) fun same => left.2 ?_
    · have equal := (congrArg BitVec.toNat same).trans (mintingTransaction_hash few)
      have eleven : BitVec.toNat (11 : UInt256) = 11 := rfl
      dsimp only at equal
      omega
    · rw [inputs, List.map_singleton, List.mem_singleton] at same
      have equal := congrArg UInt32.toNat (COutPoint.mk.inj same).2
      rw [UInt32.toNat_ofNat_of_lt' (by change _ < 2 ^ 32; omega),
        UInt32.toNat_ofNat_of_lt' (by change _ < 2 ^ 32; omega)] at equal
      rw [equal]
  · rw [nSigOps]
    exact (congrArg₂ _ minting.nSigOps noSigOps).trans rfl
  · exact nValueIn.trans minting.nValueIn
  · rw [nValueOutUnspendable, minting.nValueOutUnspendable, unspendable]
    rfl

theorem Minting.run (start : Minting node entry [] acct) :
    ∃ final, mintingTransactions.foldlM (node.connectTransaction entry block) acct = .ok final ∧
      Minting node entry mintingTransactions final := by
  refine foldlM_performed (Minting node entry) [] (fun before item after state split held => ?_) start
  obtain ⟨number, listed, rfl⟩ := List.mem_map.mp
    (split ▸ List.mem_append_right before List.mem_cons_self : item ∈ mintingTransactions)
  have fresh : mintingTransaction number ∉ before := by
    have nodup := nodup_mintingTransactions
    rw [split] at nodup
    exact fun earlier => (List.disjoint_of_nodup_append nodup) earlier List.mem_cons_self
  exact held.step onTestnet valid (mem_mintingNumbers.mp listed) fresh

end

set_option maxRecDepth 100000 in
theorem run_maturingChain :
    (run (connectNext (.ofNetwork .testnet)) maturingChain (genesis (.ofNetwork .testnet) 0)).any
      (fun state => state.tip.hash = 150 ∧ state.tip.nHeight = 15 ∧
        state.coins 11 = ⟨true, false, List.replicate 4394 (.of 0 [0x51]), 1, 1⟩) = true ∧
    ∀ connection ∈ maturingChain, (∀ tx ∈ connection.block.vtx, tx.containsZerocoins = false) ∧
      connection.block.Identified ∧ ∀ tx ∈ connection.block.vtx, tx.hash.toNat < 161 := by
  decide +kernel

/-- A block with minting transactions of which the first is no coinstake passes `CheckBlock`. -/
theorem checkBlock_minting (rest : List ℕ) (few : rest.length ≤ 10000) (connection : Connection)
    (minting : connection = mintingConnection 16 [.of 0 [0x51]]
      ((0 :: rest).map mintingTransaction)) :
    connection.checkedBy.checkBlock connection.block true = .ok () := by
  subst minting
  have others : ((0 :: rest).map mintingTransaction).all (fun tx => !tx.isCoinBase) = true := by
    rw [List.all_map]
    exact List.all_eq_true.mpr fun number _ => by cases number <;> rfl
  have unlocked : ((0 :: rest).map mintingTransaction).all (fun tx => tx.isCoinBase ||
      tx.vin.all fun _ => true) = true := by
    rw [List.all_map]
    exact List.all_eq_true.mpr fun number _ => rfl
  have loop (active : Bool) (numbers : List ℕ) : (numbers.map mintingTransaction).foldlM
      (Node.checkBlockTransaction { Node.sample .testnet with tip := none } active true) [] =
        .ok [] := by
    induction numbers with
    | nil => rfl
    | cons number rest ih =>
      exact foldlM_cons_eq_ok.mpr ⟨[], by cases number <;> cases active <;> rfl, ih⟩
  have sigOps : (((0 :: rest).map mintingTransaction).map CTransaction.getLegacySigOpCount).sum =
      0 := by
    refine List.sum_eq_zero fun count mem => ?_
    obtain ⟨tx, listed, rfl⟩ := List.mem_map.mp mem
    obtain ⟨number, -, rfl⟩ := List.mem_map.mp listed
    cases number <;> rfl
  refine bind_eq_ok.mpr ⟨(), rfl, bind_eq_ok.mpr ⟨(), rfl, require_bind_eq_ok.mpr ⟨?_,
    bind_eq_ok.mpr ⟨(), require_bind_eq_ok.mpr ⟨rfl, require_eq_ok.mpr others⟩,
      bind_eq_ok.mpr ⟨(), rfl, bind_eq_ok.mpr ⟨(), require_eq_ok.mpr ?_,
        bind_eq_ok.mpr ⟨true, rfl, bind_eq_ok.mpr ⟨[], foldlM_cons_eq_ok.mpr ⟨[], rfl, loop _ _⟩,
          require_eq_ok.mpr ?_⟩⟩⟩⟩⟩⟩⟩⟩
  · have length : (mintingConnection 16 [.of 0 [0x51]]
        ((0 :: rest).map mintingTransaction)).block.vtx.length = rest.length + 2 := by
      simp [mintingConnection]
    rw [length]
    have fits : rest.length + 2 ≤ maxBlockSizeCurrent := by
      unfold maxBlockSizeCurrent
      omega
    rw [decide_eq_true fits]
    rfl
  · exact Bool.or_eq_true_iff.mpr (.inr unlocked)
  · refine decide_eq_true ?_
    exact le_of_eq_of_le (congrArg (0 + ·) sigOps) (Nat.zero_le _)

theorem checkBlock_mintingBlock :
    mintingBlock.checkedBy.checkBlock mintingBlock.block true = .ok () := by
  refine checkBlock_minting (List.range' 1 4393) ?_ mintingBlock rfl
  rw [List.length_range']
  decide

/-- A transaction id that no transaction of a chain has keeps no unspent outputs. -/
theorem isPruned_run {params : ChainParams} {connections : List Connection}
    {start final : ChainState} {txid : UInt256}
    (runs : run (connectNext params) connections start = some final)
    (apart : ∀ connection ∈ connections, ∀ tx ∈ connection.block.vtx, txid ≠ tx.hash)
    (pruned : (start.coins txid).isPruned = true) : (final.coins txid).isPruned = true := by
  refine run_invariant (fun state => (state.coins txid).isPruned = true) ?_ runs pruned
  intro connection mem before after pruned connected
  obtain ⟨notGenesis, -, -, -, result, ok, coins, -⟩ := connectNext_eq_some connected
  obtain ⟨acct, connectedBy, -⟩ := Node.connectBlock_eq_ok ok notGenesis
  rw [coins, connectedBy.view_eq]
  refine foldlM_invariant (fun acct => (acct.view txid).isPruned = true) ?_ connectedBy.loop pruned
  intro tx listed before after pruned stepped
  obtain ⟨txundo, updated⟩ := (Node.connectTransaction_eq_ok stepped).updated
  exact CoinsMap.updateCoins_isPruned updated (apart connection mem tx listed) pruned

def mintingCoinBase : CTransaction where
  hash := 161
  nVersion := 1
  vin := [⟨.null, [0x51, 0x51], 0xffffffff⟩]
  vout := [.of 0 [0x51]]
  nLockTime := 0

theorem mintingBlock_vtx : mintingBlock.block.vtx = mintingCoinBase :: mintingTransactions := rfl

/-- The last block of `mintingChain` is connected to what its other blocks leave. -/
theorem connectNext_mintingBlock {state : ChainState} (hash : state.tip.hash = 150)
    (nHeight : state.tip.nHeight = 15)
    (coins : state.coins 11 = ⟨true, false, List.replicate 4394 (.of 0 [0x51]), 1, 1⟩)
    (wellFormed : state.coins.WellFormed)
    (bip30 : state.coins.passesBIP30 mintingBlock.block = true) :
    ∃ next acct, connectNext (.ofNetwork .testnet) mintingBlock state = some next ∧
      (state.nodeAt (.ofNetwork .testnet) mintingBlock).connectTransactions
        (state.childEntry mintingBlock) mintingBlock.block state.coins = .ok acct ∧
      acct.nValueIn = 0 ∧ acct.nValueOutUnspendable = 0 := by
  have free : ∀ number < 4394, (state.nodeAt (.ofNetwork .testnet) mintingBlock).Free
      (state.childEntry mintingBlock)
      (state.coins.addOutputs mintingCoinBase (Int32.ofInt 16)) ⟨11, UInt32.ofNat number⟩ := by
    intro number few
    have entry : state.coins.addOutputs mintingCoinBase (Int32.ofInt 16) 11 = state.coins 11 :=
      CoinsMap.modifyCoins_of_ne _ (by decide) _
    have position : (UInt32.ofNat number).toNat = number :=
      UInt32.toNat_ofNat_of_lt' (by change _ < 2 ^ 32; omega)
    refine ⟨?_, ?_⟩
    · rw [CoinsMap.outputFor, entry, coins, position, List.getD_eq_getElem?_getD,
        List.getElem?_replicate_of_lt few]
      rfl
    · have spendHeight : (state.childEntry mintingBlock).spendHeight = 16 := by
        rw [BlockEntry.spendHeight, childEntry]
        simp only [nHeight]
        rfl
      rw [entry, coins, spendHeight]
      rfl
  obtain ⟨first, stepped, start⟩ : ∃ first,
      (state.nodeAt (.ofNetwork .testnet) mintingBlock).connectTransaction
        (state.childEntry mintingBlock) mintingBlock.block { view := state.coins }
        mintingCoinBase = .ok first ∧
      Minting (state.nodeAt (.ofNetwork .testnet) mintingBlock) (state.childEntry mintingBlock) []
        first := by
    have maintenance : ((mintingBlock.node.getSporkValue .zerocoinMaintenanceMode <
        mintingBlock.block.nTime.toNat) && !mintingBlock.node.isInitialBlockDownload &&
          mintingCoinBase.containsZerocoins) = false := Bool.and_false _
    have nonneg : ∀ out ∈ mintingCoinBase.vout, 0 ≤ out.nValue := by decide
    exact ⟨_, Node.connectTransaction_of_parts _ (Nat.zero_le _) maintenance rfl rfl rfl,
      wellFormed.updateCoins nonneg rfl, fun number few _ => free number few, rfl, rfl, rfl⟩
  obtain ⟨acct, loop, minted⟩ := Minting.run rfl (fun _ => rfl) start
  have connects : (state.nodeAt (.ofNetwork .testnet) mintingBlock).connectTransactions
      (state.childEntry mintingBlock) mintingBlock.block state.coins = .ok acct := by
    exact foldlM_cons_eq_ok.mpr ⟨first, stepped, loop⟩
  have heightFor : (state.nodeAt (.ofNetwork .testnet) mintingBlock).heightFor state.tip
      mintingBlock.block = 16 := by
    have parent : mintingBlock.block.hashPrevBlock = 150 := rfl
    rw [Node.heightFor, hash, parent, if_pos rfl, nHeight]
    rfl
  have unsynced (nExpectedValue nMinted : Int) :
      (state.nodeAt (.ofNetwork .testnet) mintingBlock).isBlockValueValid mintingBlock.block
        nExpectedValue nMinted = true := by
    have tip : (state.nodeAt (.ofNetwork .testnet) mintingBlock).tip = some state.tip := rfl
    simp only [Node.isBlockValueValid, tip, heightFor]
    rfl
  have notGenesis : mintingBlock.block.hash ≠ (ofNetwork .testnet).hashGenesisBlock := by decide
  have unrepeated : (!(state.childEntry mintingBlock).fEnforceBIP30 ||
      state.coins.passesBIP30 mintingBlock.block) = true := by
    rw [bip30, Bool.or_true]
  obtain ⟨result, checked⟩ : ∃ result,
      (state.nodeAt (.ofNetwork .testnet) mintingBlock).connectChecked
        (state.childEntry mintingBlock) state.coins mintingBlock.block false = .ok result :=
    ⟨_, require_bind_eq_ok.mpr ⟨rfl, require_bind_eq_ok.mpr ⟨rfl,
      require_bind_eq_ok.mpr ⟨unrepeated, bind_eq_ok.mpr ⟨acct, connects,
        require_bind_eq_ok.mpr ⟨rfl, require_bind_eq_ok.mpr ⟨rfl, require_bind_eq_ok.mpr ⟨rfl,
          require_bind_eq_ok.mpr ⟨unsynced _ _, require_bind_eq_ok.mpr ⟨rfl,
            require_bind_eq_ok.mpr ⟨rfl, rfl⟩⟩⟩⟩⟩⟩⟩⟩⟩⟩⟩
  have connected : (state.nodeAt (.ofNetwork .testnet) mintingBlock).connectBlock
      (state.childEntry mintingBlock) state.coins state.tip.hash mintingBlock.block false true =
        .ok result :=
    bind_eq_ok.mpr ⟨(), rfl, require_bind_eq_ok.mpr ⟨beq_self_eq_true _,
      (if_neg notGenesis).trans checked⟩⟩
  have extends' : ¬(mintingBlock.block.hash = (ofNetwork .testnet).hashGenesisBlock ∨
      mintingBlock.block.hashPrevBlock ≠ state.tip.hash ∨
      mintingBlock.nHeight ≠ state.tip.nHeight + 1) := by
    rw [hash, nHeight]
    decide
  have already : mintingBlock.fAlreadyChecked = true := rfl
  exact ⟨_, acct, by rw [connectNext, if_neg extends', checkBlock_mintingBlock, already, connected],
    connects, minted.nValueIn, minted.nValueOutUnspendable⟩

theorem eq_of_mem_mintingBlock {tx : CTransaction} (listed : tx ∈ mintingBlock.block.vtx) :
    tx = mintingCoinBase ∨ ∃ number < 4394, tx = mintingTransaction number := by
  rcases List.mem_cons.mp listed with first | later
  · exact .inl first
  · obtain ⟨number, inside, rfl⟩ := List.mem_map.mp later
    exact .inr ⟨number, mem_mintingNumbers.mp inside, rfl⟩

theorem le_hash_of_mem {tx : CTransaction} (listed : tx ∈ mintingBlock.block.vtx) :
    161 ≤ tx.hash.toNat := by
  rcases eq_of_mem_mintingBlock listed with rfl | ⟨number, few, rfl⟩
  · decide
  · rw [mintingTransaction_hash few]
    omega

theorem noZerocoin_mintingBlock : ∀ tx ∈ mintingBlock.block.vtx, tx.containsZerocoins = false := by
  intro tx listed
  rcases eq_of_mem_mintingBlock listed with rfl | ⟨number, -, rfl⟩
  · rfl
  · cases number <;> rfl

theorem identified_mintingBlock : mintingBlock.block.Identified := by
  intro tx listed other alsoListed same
  have first : mintingCoinBase.hash.toNat = 161 := rfl
  have equal := congrArg BitVec.toNat same
  rcases eq_of_mem_mintingBlock listed with rfl | ⟨number, few, rfl⟩
  · rcases eq_of_mem_mintingBlock alsoListed with rfl | ⟨number, few, rfl⟩
    · rfl
    · rw [first, mintingTransaction_hash few] at equal
      omega
  · rcases eq_of_mem_mintingBlock alsoListed with rfl | ⟨another, alsoFew, rfl⟩
    · rw [first, mintingTransaction_hash few] at equal
      omega
    · rw [mintingTransaction_inj few alsoFew same]

theorem valueOut_minting (count : ℕ) :
    (((List.range' 1 count).map mintingTransaction).map CTransaction.valueOut).sum =
      count * (21000000 * COIN) := by
  have each : ∀ tx ∈ (List.range' 1 count).map mintingTransaction,
      tx.valueOut = 21000000 * COIN := by
    intro tx listed
    obtain ⟨number, inside, rfl⟩ := List.mem_map.mp listed
    obtain ⟨-, rfl⟩ := Nat.exists_eq_add_of_le (List.mem_range'_1.mp inside).1
    rw [Nat.add_comm]
    rfl
  rw [List.map_congr_left each, List.map_const', List.sum_replicate, List.length_map,
    List.length_range', nsmul_eq_mul]

theorem valueOut_mintingBlock :
    2 ^ 63 ≤ (mintingBlock.block.vtx.map CTransaction.valueOut).sum := by
  have first : mintingCoinBase.valueOut = 0 := rfl
  have second : (mintingTransaction 0).valueOut = 0 := rfl
  rw [mintingBlock_vtx, mintingTransactions, mintingNumbers, List.map_cons, List.map_cons,
    List.map_cons, List.sum_cons, List.sum_cons, valueOut_minting, first, second]
  decide

/-- The supply recorded for the last block of `mintingChain` is not the value of the coin set. -/
theorem not_nMoneySupply_run : ∃ final,
    run (connectNext (.ofNetwork .testnet)) mintingChain (genesis (.ofNetwork .testnet) 0) =
      some final ∧
    (∀ connection ∈ mintingChain, (∀ tx ∈ connection.block.vtx, tx.containsZerocoins = false) ∧
      connection.block.Identified) ∧
    final.tip.nMoneySupply ≠ final.coins.total := by
  obtain ⟨maturing, blocks⟩ := run_maturingChain
  obtain ⟨state, runs, reached⟩ := (Option.any_eq_true _ _).mp maturing
  obtain ⟨hash, nHeight, coins⟩ := of_decide_eq_true reached
  have start : (genesis (.ofNetwork .testnet) 0).SupplyExact := (supplyExact_genesis _ 0).1
  have supply : state.SupplyExact := run_invariant SupplyExact
    (fun connection mem before after supply connected =>
      (supply.connectNext connected (blocks connection mem).1 (blocks connection mem).2.1).1)
    runs start
  have bip30 : state.coins.passesBIP30 mintingBlock.block = true := by
    refine List.all_eq_true.mpr fun tx listed => isPruned_run runs ?_ rfl
    intro connection mem other inside same
    have low := (blocks connection mem).2.2 other inside
    have high := le_hash_of_mem listed
    rw [same] at high
    omega
  obtain ⟨next, acct, connected, loop, nValueIn, unspendable⟩ :=
    connectNext_mintingBlock hash nHeight coins supply.wellFormed bip30
  obtain ⟨after, other, again, total, -⟩ :=
    supply.connectNext connected noZerocoin_mintingBlock identified_mintingBlock
  cases loop.symm.trans again
  have out := (Node.connectTransactions_out loop).1
  have minted := valueOut_mintingBlock
  have before := supply.valued.total_nonneg
  refine ⟨next, ?_, ?_, ?_⟩
  · rw [mintingChain, run_append runs, run, connected]
    rfl
  · intro connection mem
    rcases List.mem_append.mp mem with earlier | last
    · exact ⟨(blocks connection earlier).1, (blocks connection earlier).2.1⟩
    · rw [List.mem_singleton.mp last]
      exact ⟨noZerocoin_mintingBlock, identified_mintingBlock⟩
  · have fits := fits_wrapInt64 next.coins.total
    rw [after.exact]
    intro same
    have upper := fits.2
    generalize state.coins.total = supply at *
    generalize (mintingBlock.block.vtx.map CTransaction.valueOut).sum = value at *
    omega

end ChainState

end DogeCash
