import DogeCash.Validation.Disconnect
import DogeCash.Zerocoin.ForkedStake

/-! # Verifying the chain

`VerifyDB` disconnects blocks from the tip down and, at level 4, connects them again, on a
view of its own of the coins. The zerocoin database has no such view: `DisconnectBlock`
erases the serials and the mints of a block there and `ConnectBlock` writes them. So the
database is as before exactly if what was erased is written again, or nothing was erased
(`verifyDB_keeps_iff`).
-/

namespace DogeCash

open Prod (fst)

/-- What a transaction enters in the database of mints, each with the id of the
transaction. -/
def CTransaction.recordedMints (zerocoin : ZerocoinEnv) (tx : CTransaction) :
    List (PublicCoin × UInt256) :=
  ((tx.vout.filter CTxOut.isZerocoinMint).filterMap zerocoin.txOutToPublicCoin).map
    fun coin => (coin, tx.hash)

namespace Node

variable {node : Node} {entry : BlockEntry} {block : CBlock} {tx : CTransaction}
  {before after : Accounting}

theorem vMints_of_connectMints (ok : node.connectMints entry tx before = .ok after) :
    after.vMints = before.vMints ++ tx.recordedMints node.zerocoin := by
  have appended := foldlM_appends Accounting.vMints
    (fun out => ((node.zerocoin.txOutToPublicCoin out).map fun coin => (coin, tx.hash)).toList)
    (fun out acct next stepped => by
      unfold connectMintOutput at stepped
      cases decodes : node.zerocoin.txOutToPublicCoin out with
      | none =>
        rw [decodes] at stepped
        cases stepped
      | some coin =>
        rw [decodes] at stepped
        obtain ⟨-, stepped⟩ := require_bind_eq_ok.mp stepped
        cases stepped
        rfl)
    ok
  rw [appended, CTransaction.recordedMints, List.map_filterMap, List.filterMap_eq_flatMap_toList]

theorem recordedMints_of_isCoinBase {zerocoin : ZerocoinEnv} (coinBase : tx.isCoinBase = true) :
    tx.recordedMints zerocoin = [] := by
  have noMints : tx.vout.filter CTxOut.isZerocoinMint = [] := by
    rw [List.filter_eq_nil_iff]
    intro out mem mint
    unfold CTransaction.isCoinBase at coinBase
    split at coinBase
    · have mints : tx.isZerocoinMint = true :=
        List.any_eq_true.mpr ⟨out, mem, (Bool.and_eq_true_iff.mp mint).2⟩
      simp only [CTransaction.containsZerocoins, mints, Bool.or_true, Bool.not_true,
        Bool.and_false, Bool.false_eq_true] at coinBase
    · cases coinBase
  rw [CTransaction.recordedMints, noMints]
  rfl

theorem vMints_of_connectTransaction
    (ok : node.connectTransaction entry block before tx = .ok after) :
    after.vMints = before.vMints ++ tx.recordedMints node.zerocoin := by
  obtain ⟨middle, -, -, -, kind, -, -, rfl⟩ := connectTransaction_steps ok
  unfold connectKind at kind
  split at kind
  · obtain ⟨-, kind⟩ := require_bind_eq_ok.mp kind
    obtain ⟨spent, inputs, mints⟩ := bind_eq_ok.mp kind
    rw [vMints_of_connectMints mints, (foldlM_connectSpendInput _ _ _ inputs).1]
  · split at kind
    · rename_i coinBase
      cases kind
      rw [recordedMints_of_isCoinBase coinBase, List.append_nil]
    · obtain ⟨-, minted, -, mints, -, -, rfl⟩ := connectInputs_steps kind
      have minting := vMints_of_connectMints mints
      exact minting

theorem connectBlock_mints {view : CoinsMap} {hashBestBlock : UInt256}
    {fJustCheck fAlreadyChecked : Bool} {connected : Connected}
    (ok : node.connectBlock entry view hashBestBlock block fJustCheck fAlreadyChecked =
      .ok connected) (notGenesis : block.hash ≠ node.params.hashGenesisBlock) :
    connected.vMints = block.vtx.flatMap (·.recordedMints node.zerocoin) := by
  obtain ⟨acct, connectedBy, mints⟩ := connectBlock_eq_ok ok notGenesis
  rw [mints]
  exact foldlM_appends Accounting.vMints (·.recordedMints node.zerocoin)
    (fun _ _ _ stepped => vMints_of_connectTransaction stepped) connectedBy.loop

end Node

/-- The databases under `VerifyDB`: the coins behind its view, and the spends and the mints
of the zerocoin database. -/
structure ChainStores where
  coinsview : CoinsMap
  coinSpends : Int → Option UInt256
  coinMints : Int → Option UInt256

/-- What `VerifyDB` finds: the active chain above the genesis block, the tip first, and for
each block what the checks read of the node, its index entry, whether it can be read from the
disk, and its undo data, if there are any and they can be read. -/
structure VerifyEnv where
  params : ChainParams
  zerocoin : ZerocoinEnv
  chainActive : List CBlock
  genesis : CBlock
  notGenesis : ∀ block ∈ chainActive, block.hash ≠ params.hashGenesisBlock
  node : CBlock → Node
  entry : CBlock → BlockEntry
  readBlockFromDisk : CBlock → Bool
  readUndo : CBlock → Option (Option (List CTxUndo))
  /-- The caches are within `nCoinCacheSize`, after some blocks were disconnected. -/
  fits : List CBlock → Bool
  /-- `ShutdownRequested`, each time it is asked. -/
  shutdownRequested : Nat → Bool

/-- What `VerifyDB` works on. -/
structure Scratch where
  stores : ChainStores
  coins : CoinsMap
  hashBestBlock : UInt256

/-- The variables of the loop in `VerifyDB`: the blocks that were disconnected, the last one
first; whether `pindex == pindexState`; whether there is a `pindexFailure`. -/
structure Scan where
  scratch : Scratch
  undone : List CBlock
  attached : Bool
  failed : Bool

namespace CBlock

variable (zerocoin : ZerocoinEnv) (block : CBlock)

def spendEntries : List (Int × UInt256) :=
  (block.vtx.flatMap (·.recordedSpends zerocoin)).map
    fun spend => (spend.1.coinSerialNumber, spend.2)

def mintEntries : List (Int × UInt256) :=
  (block.vtx.flatMap (·.recordedMints zerocoin)).map fun mint => (mint.1.value, mint.2)

end CBlock

namespace ChainStores

variable (zerocoin : ZerocoinEnv) (stores : ChainStores)

/-- What `DisconnectBlock` does to the zerocoin database. The order of the erasures makes no
difference. -/
def eraseZerocoins (block : CBlock) : ChainStores :=
  { stores with
    coinSpends := eraseAll ((block.spendEntries zerocoin).map fst) stores.coinSpends
    coinMints := eraseAll ((block.mintEntries zerocoin).map fst) stores.coinMints }

end ChainStores

namespace VerifyEnv

variable (env : VerifyEnv)

/-- The spends and the mints of a transaction decode, so that `DisconnectBlock` can erase
them. -/
def erasesZerocoins (tx : CTransaction) : Bool :=
  (!tx.isZerocoinSpend ||
      tx.zerocoinInputs.all fun txin => (env.zerocoin.txInToZerocoinSpend txin).isSome) &&
    (tx.vout.filter CTxOut.isZerocoinMint).all fun out =>
      (env.zerocoin.txOutToPublicCoin out).isSome

/-- The node that looks at a block: `fVerifyingBlocks` is set, and the zerocoin database is
the one that changes. -/
def nodeOf (stores : ChainStores) (block : CBlock) : Node :=
  { env.node block with
    params := env.params
    zerocoin := { env.zerocoin with
      readCoinSpend := stores.coinSpends
      readCoinMint := stores.coinMints }
    fVerifyingBlocks := true }

/-- `DisconnectBlock` on the scratch view, with `fClean`. `none` stands for an error. -/
def disconnectBlock (block : CBlock) (hashPrevBlock : UInt256) (nHeight : Nat)
    (scratch : Scratch) : Option (Scratch × Bool) :=
  if scratch.hashBestBlock ≠ block.hash then none
  else
    match env.readUndo block with
    | some (some vtxundo) =>
      (DisconnectState.disconnectBlock env.erasesZerocoins (Int32.ofNat nHeight) block vtxundo
        scratch.coins).map fun state =>
          (⟨scratch.stores.eraseZerocoins env.zerocoin block, state.view, hashPrevBlock⟩,
            state.fClean)
    | _ => none

/-- `ConnectBlock` on the scratch view, with what it writes. -/
def connectBlock (scratch : Scratch) (block : CBlock) : Option Scratch :=
  match (env.nodeOf scratch.stores block).connectBlock (env.entry block) scratch.coins
    scratch.hashBestBlock block false false with
  | .error _ => none
  | .ok connected => some {
      stores := { scratch.stores with
        coinSpends := writeAll
          (connected.vSpends.map fun spend => (spend.1.coinSerialNumber, spend.2))
          scratch.stores.coinSpends
        coinMints := writeAll (connected.vMints.map fun mint => (mint.1.value, mint.2))
          scratch.stores.coinMints }
      coins := connected.view
      hashBestBlock := block.hash }

section Loop

variable (nCheckLevel : Int)

/-- Level 3 reaches the block: the loop is still at `pindexState` and the caches are small
enough. -/
def disconnects (undone : List CBlock) (attached : Bool) : Bool :=
  3 ≤ nCheckLevel && attached && env.fits undone

def readsBlock (stores : ChainStores) (block : CBlock) : Bool :=
  env.readBlockFromDisk block &&
    (!(1 ≤ nCheckLevel) || ((env.nodeOf stores block).checkBlock block true).isOk) &&
    (!(2 ≤ nCheckLevel) || env.readUndo block != some none)

def verifyBlock (block : CBlock) (below : List CBlock) (scan : Scan) : Option Scan :=
  if !env.readsBlock nCheckLevel scan.scratch.stores block then none
  else if env.disconnects nCheckLevel scan.undone scan.attached then
    (env.disconnectBlock block ((below.head?.getD env.genesis).hash) (below.length + 1)
      scan.scratch).map fun outcome =>
        ⟨outcome.1, block :: scan.undone, true, scan.failed || !outcome.2⟩
  else some { scan with attached := false }

/-- The loop, with the number of rounds so far, and whether it ends on a shutdown. -/
def scanBlocks (lowest : Int) : Nat → List CBlock → Scan → Option (Scan × Bool)
  | _, [], scan => some (scan, false)
  | rounds, block :: below, scan =>
    if (below.length + 1 : Int) < lowest then some (scan, false)
    else
      match env.verifyBlock nCheckLevel block below scan with
      | none => none
      | some next =>
        if env.shutdownRequested rounds then some (next, true)
        else scanBlocks lowest (rounds + 1) below next

end Loop

def reconnect (undone : List CBlock) (scratch : Scratch) : Option Scratch :=
  undone.foldlM env.connectBlock scratch

/-- `nCheckLevel`, between 0 and 4. -/
def checkLevel (nCheckLevel : Int) : Int := max 0 (min 4 nCheckLevel)

def lowestHeight (nCheckDepth : Int) : Int :=
  let chainHeight : Int := env.chainActive.length
  let nCheckDepth := if nCheckDepth ≤ 0 then 1000000000 else nCheckDepth
  chainHeight - min nCheckDepth chainHeight

/-- `VerifyDB`: the databases afterwards, `none` when it does not return true. -/
def verifyDB (nCheckLevel nCheckDepth : Int) (stores : ChainStores) : Option ChainStores :=
  match env.chainActive with
  | [] => some stores
  | tip :: _ =>
    match env.scanBlocks (checkLevel nCheckLevel) (env.lowestHeight nCheckDepth) 0
      env.chainActive ⟨⟨stores, stores.coinsview, tip.hash⟩, [], true, false⟩ with
    | none => none
    | some (scan, true) => some scan.scratch.stores
    | some (scan, false) =>
      if scan.failed then none
      else if 4 ≤ checkLevel nCheckLevel then
        (env.reconnect scan.undone scan.scratch).map Scratch.stores
      else some scan.scratch.stores

/-! ## What is erased and what is written again -/

/-- The blocks that the loop disconnects, the last one first, and whether a shutdown ends
it. The checks are left out. -/
def plan (nCheckLevel lowest : Int) : Nat → List CBlock → List CBlock → Bool → List CBlock × Bool
  | _, [], undone, _ => (undone, false)
  | rounds, block :: below, undone, attached =>
    if (below.length + 1 : Int) < lowest then (undone, false)
    else
      let takes := env.disconnects nCheckLevel undone attached
      let undone := if takes then block :: undone else undone
      if env.shutdownRequested rounds then (undone, true)
      else plan nCheckLevel lowest (rounds + 1) below undone takes

def planned (nCheckLevel nCheckDepth : Int) : List CBlock × Bool :=
  env.plan (checkLevel nCheckLevel) (env.lowestHeight nCheckDepth) 0 env.chainActive [] true

/-- The condition: where the blocks are connected again, the databases hold for their serials
and their mints what the last of them writes; otherwise they hold nothing for them. -/
def Restores (nCheckLevel nCheckDepth : Int) (stores : ChainStores) : Prop :=
  let undone := (env.planned nCheckLevel nCheckDepth).1
  let spends := undone.flatMap (·.spendEntries env.zerocoin)
  let mints := undone.flatMap (·.mintEntries env.zerocoin)
  if 4 ≤ checkLevel nCheckLevel ∧ (env.planned nCheckLevel nCheckDepth).2 = false then
    (∀ serial ∈ spends.map fst,
        stores.coinSpends serial = writeAll spends (fun _ => none) serial) ∧
      ∀ value ∈ mints.map fst, stores.coinMints value = writeAll mints (fun _ => none) value
  else
    (∀ serial ∈ spends.map fst, stores.coinSpends serial = none) ∧
      ∀ value ∈ mints.map fst, stores.coinMints value = none

/-- The databases without the entries of some blocks. -/
def withoutBlocks (stores : ChainStores) (undone : List CBlock) : ChainStores :=
  { stores with
    coinSpends := eraseAll ((undone.flatMap (·.spendEntries env.zerocoin)).map fst)
      stores.coinSpends
    coinMints := eraseAll ((undone.flatMap (·.mintEntries env.zerocoin)).map fst)
      stores.coinMints }

def withBlocks (stores : ChainStores) (blocks : List CBlock) : ChainStores :=
  { stores with
    coinSpends := writeAll (blocks.flatMap (·.spendEntries env.zerocoin)) stores.coinSpends
    coinMints := writeAll (blocks.flatMap (·.mintEntries env.zerocoin)) stores.coinMints }

variable {env} {nCheckLevel lowest : Int} {stores : ChainStores} {block : CBlock}
  {below : List CBlock} {scan next : Scan}

theorem eraseZerocoins_withoutBlocks (undone : List CBlock) :
    (env.withoutBlocks stores undone).eraseZerocoins env.zerocoin block =
      env.withoutBlocks stores (block :: undone) := by
  simp [ChainStores.eraseZerocoins, withoutBlocks, eraseAll_eraseAll]

theorem verifyBlock_eq_some (erased : scan.scratch.stores = env.withoutBlocks stores scan.undone)
    (verified : env.verifyBlock nCheckLevel block below scan = some next) :
    next.scratch.stores = env.withoutBlocks stores next.undone ∧
      next.attached = env.disconnects nCheckLevel scan.undone scan.attached ∧
      next.undone = if env.disconnects nCheckLevel scan.undone scan.attached
        then block :: scan.undone else scan.undone := by
  unfold verifyBlock at verified
  split_ifs at verified with reads takes
  · obtain ⟨⟨scratch, fClean⟩, disconnected, rfl⟩ := Option.map_eq_some_iff.mp verified
    rw [takes]
    refine ⟨?_, rfl, rfl⟩
    unfold disconnectBlock at disconnected
    split_ifs at disconnected
    split at disconnected
    · obtain ⟨state, -, same⟩ := Option.map_eq_some_iff.mp disconnected
      cases same
      rw [erased]
      exact eraseZerocoins_withoutBlocks scan.undone
    · cases disconnected
  · cases verified
    rw [Bool.not_eq_true] at takes
    rw [takes]
    exact ⟨erased, rfl, rfl⟩

variable {blocks : List CBlock} {scratch after : Scratch} {undone : List CBlock}

theorem scanBlocks_eq_some {rounds : Nat} {final : Scan} {shutdown : Bool}
    (erased : scan.scratch.stores = env.withoutBlocks stores scan.undone)
    (scanned : env.scanBlocks nCheckLevel lowest rounds blocks scan = some (final, shutdown)) :
    final.scratch.stores = env.withoutBlocks stores final.undone ∧
      env.plan nCheckLevel lowest rounds blocks scan.undone scan.attached =
        (final.undone, shutdown) ∧
      ∀ block ∈ final.undone, block ∈ scan.undone ∨ block ∈ blocks := by
  induction blocks generalizing rounds scan with
  | nil =>
    cases scanned
    exact ⟨erased, rfl, fun block mem => .inl mem⟩
  | cons block below ih =>
    unfold scanBlocks at scanned
    unfold plan
    by_cases beneath : (below.length + 1 : Int) < lowest
    · rw [if_pos beneath] at scanned ⊢
      cases scanned
      exact ⟨erased, rfl, fun block mem => .inl mem⟩
    · rw [if_neg beneath] at scanned ⊢
      cases verified : env.verifyBlock nCheckLevel block below scan with
      | none =>
        rw [verified] at scanned
        cases scanned
      | some next =>
        rw [verified] at scanned
        dsimp only at scanned ⊢
        obtain ⟨nextErased, attached, undone⟩ := verifyBlock_eq_some erased verified
        have known : ∀ other ∈ next.undone, other ∈ scan.undone ∨ other ∈ block :: below := by
          intro other mem
          rw [undone] at mem
          split_ifs at mem
          · rcases List.mem_cons.mp mem with rfl | old
            · exact .inr List.mem_cons_self
            · exact .inl old
          · exact .inl mem
        by_cases requested : env.shutdownRequested rounds = true
        · rw [if_pos requested] at scanned ⊢
          cases scanned
          exact ⟨nextErased, by rw [undone], known⟩
        · rw [if_neg requested] at scanned ⊢
          obtain ⟨finalErased, planned, members⟩ := ih nextErased scanned
          rw [undone, attached] at planned
          refine ⟨finalErased, planned, fun other mem => ?_⟩
          rcases members other mem with old | new
          · exact known other old
          · exact .inr (List.mem_cons_of_mem _ new)

theorem connectBlock_eq_some (notGenesis : block.hash ≠ env.params.hashGenesisBlock)
    (connected : env.connectBlock scratch block = some after) :
    after.stores = env.withBlocks scratch.stores [block] := by
  unfold connectBlock at connected
  split at connected
  · cases connected
  · rename_i result ok
    cases connected
    have spends := (Node.connectBlock_spends ok notGenesis).1
    have mints := Node.connectBlock_mints ok notGenesis
    rw [spends, mints]
    simp only [withBlocks, List.flatMap_cons, List.flatMap_nil, List.append_nil]
    rfl

theorem reconnect_eq_some (notGenesis : ∀ block ∈ blocks, block.hash ≠ env.params.hashGenesisBlock)
    (connected : env.reconnect blocks scratch = some after) :
    after.stores = env.withBlocks scratch.stores blocks := by
  induction blocks generalizing scratch with
  | nil =>
    cases connected
    rfl
  | cons block rest ih =>
    obtain ⟨first, others⟩ := List.forall_mem_cons.mp notGenesis
    obtain ⟨middle, stepped, later⟩ := Option.bind_eq_some_iff.mp connected
    rw [ih others later, connectBlock_eq_some first stepped]
    simp [withBlocks, ← writeAll_append]

theorem withoutBlocks_eq_self_iff :
    ((env.withoutBlocks stores undone).coinSpends = stores.coinSpends ∧
        (env.withoutBlocks stores undone).coinMints = stores.coinMints) ↔
      (∀ serial ∈ (undone.flatMap (·.spendEntries env.zerocoin)).map fst,
          stores.coinSpends serial = none) ∧
        ∀ value ∈ (undone.flatMap (·.mintEntries env.zerocoin)).map fst,
          stores.coinMints value = none :=
  and_congr eraseAll_eq_self_iff eraseAll_eq_self_iff

theorem withBlocks_withoutBlocks_eq_self_iff :
    ((env.withBlocks (env.withoutBlocks stores undone) undone).coinSpends = stores.coinSpends ∧
        (env.withBlocks (env.withoutBlocks stores undone) undone).coinMints = stores.coinMints) ↔
      (∀ serial ∈ (undone.flatMap (·.spendEntries env.zerocoin)).map fst,
          stores.coinSpends serial =
            writeAll (undone.flatMap (·.spendEntries env.zerocoin)) (fun _ => none) serial) ∧
        ∀ value ∈ (undone.flatMap (·.mintEntries env.zerocoin)).map fst,
          stores.coinMints value =
            writeAll (undone.flatMap (·.mintEntries env.zerocoin)) (fun _ => none) value :=
  and_congr writeAll_eraseAll_eq_self_iff writeAll_eraseAll_eq_self_iff

/-- **Verifying the chain** never changes the coins behind the view, and leaves the zerocoin
database as it was exactly if the entries of the disconnected blocks are written again as they
were, or there were none. -/
theorem verifyDB_keeps_iff (env : VerifyEnv) (nCheckLevel nCheckDepth : Int)
    (stores after : ChainStores)
    (verified : env.verifyDB nCheckLevel nCheckDepth stores = some after) :
    after.coinsview = stores.coinsview ∧
      ((after.coinSpends = stores.coinSpends ∧ after.coinMints = stores.coinMints) ↔
        env.Restores nCheckLevel nCheckDepth stores) := by
  unfold verifyDB at verified
  cases chain : env.chainActive with
  | nil =>
    rw [chain] at verified
    cases verified
    refine ⟨rfl, iff_of_true ⟨rfl, rfl⟩ ?_⟩
    have nothing : env.planned nCheckLevel nCheckDepth = ([], false) := by
      rw [planned, chain]
      rfl
    rw [Restores, nothing]
    simp
  | cons tip rest =>
    rw [chain] at verified
    dsimp only at verified
    rw [← chain] at verified
    have start : stores = env.withoutBlocks stores [] := rfl
    split at verified
    · cases verified
    · rename_i scan scanned
      cases verified
      obtain ⟨erased, plan, -⟩ := scanBlocks_eq_some start scanned
      have planned : env.planned nCheckLevel nCheckDepth = (scan.undone, true) := plan
      rw [erased, Restores, planned, if_neg (fun whole => Bool.noConfusion whole.2)]
      exact ⟨rfl, withoutBlocks_eq_self_iff⟩
    · rename_i scan scanned
      obtain ⟨erased, plan, members⟩ := scanBlocks_eq_some start scanned
      have planned : env.planned nCheckLevel nCheckDepth = (scan.undone, false) := plan
      rw [Restores, planned]
      split_ifs at verified with failed whole
      · obtain ⟨scratch, connected, rfl⟩ := Option.map_eq_some_iff.mp verified
        have notGenesis : ∀ block ∈ scan.undone, block.hash ≠ env.params.hashGenesisBlock := by
          intro block mem
          rcases members block mem with absurdly | inChain
          · cases absurdly
          · exact env.notGenesis block inChain
        rw [reconnect_eq_some notGenesis connected, erased, if_pos ⟨whole, rfl⟩]
        exact ⟨rfl, withBlocks_withoutBlocks_eq_self_iff⟩
      · cases verified
        rw [erased, if_neg fun both => whole both.1]
        exact ⟨rfl, withoutBlocks_eq_self_iff⟩

/-! ## A spend in the last block -/

def sampleCoinBase : CTransaction :=
  ⟨11, 1, [⟨.null, [0x51, 0x51], 0xffffffff⟩], [.of (7000000 * COIN) [0x51]], 0⟩

def sampleSpend : CTransaction :=
  ⟨12, 1, [⟨.null, BlockStore.spendScript, 5⟩], [.of (5 * COIN) [0x51]], 0⟩

def sampleBlock : CBlock :=
  BlockStore.forkBlock 101 BlockStore.genesisBlock.hash [sampleCoinBase, sampleSpend]

/-- The chain is the genesis block of the regression test network and one block, with a spend of
5 DOGEC. -/
def sample : VerifyEnv where
  params := .regtest
  zerocoin := { ZerocoinEnv.sample with
    txInToZerocoinSpend := (BlockStore.forkConfig false).txInToZerocoinSpend }
  chainActive := [sampleBlock]
  genesis := BlockStore.genesisBlock
  notGenesis := by decide
  node _ := { Node.sample .regtest with
    tip := some ⟨BlockStore.genesisBlock.hash, 0, 1600000000, 0⟩ }
  entry block := ⟨some block.hash, 1, some ⟨BlockStore.genesisBlock.hash, 0, 1600000000, 0⟩⟩
  readBlockFromDisk _ := true
  readUndo _ := some (some [⟨[]⟩])
  fits _ := true
  shutdownRequested _ := false

/-- The databases after that block. -/
def sampleStores : ChainStores where
  coinsview txid :=
    if txid = 11 then .fromTx sampleCoinBase 1 else if txid = 12 then .fromTx sampleSpend 1 else {}
  coinSpends serial := if serial = 1 then some 12 else none
  coinMints _ := none

/-- The databases after `VerifyDB`. -/
def sampleAfter (nCheckLevel : Int) : ChainStores :=
  (sample.verifyDB nCheckLevel 6 sampleStores).getD sampleStores

theorem verifyDB_sample (nCheckLevel : Int) (returned :
    (sample.verifyDB nCheckLevel 6 sampleStores).isSome) :
    sample.verifyDB nCheckLevel 6 sampleStores = some (sampleAfter nCheckLevel) := by
  obtain ⟨after, verified⟩ := Option.isSome_iff_exists.mp returned
  rw [sampleAfter, verified, Option.getD_some]

/-- At level 4 the serial is written again. -/
theorem verifyDB_keeps_sample : (sampleAfter 4).coinSpends = sampleStores.coinSpends ∧
    (sampleAfter 4).coinMints = sampleStores.coinMints := by
  have restores : sample.Restores 4 6 sampleStores := by
    unfold Restores
    decide
  exact (verifyDB_keeps_iff sample 4 6 sampleStores (sampleAfter 4)
    (verifyDB_sample 4 (by decide))).2.mpr restores

/-- At level 3 the serial of the last block is gone. -/
theorem verifyDB_not_keeps_sample :
    sample.verifyDB 3 6 sampleStores = some (sampleAfter 3) ∧
      sampleStores.coinSpends 1 = some 12 ∧ (sampleAfter 3).coinSpends 1 = none :=
  ⟨verifyDB_sample 3 (by decide), rfl, by decide⟩

end VerifyEnv

end DogeCash
