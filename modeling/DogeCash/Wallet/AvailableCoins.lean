import DogeCash.Masternode.Collateral
import DogeCash.Staking.Kernel
import DogeCash.Wallet.CoinSelection

/-! # The coins of a wallet

`AvailableCoins` goes through the transactions of a wallet and collects the outputs that may be
used. Its nine positional arguments say which coins are wanted; what it asks of the chain, of the
keys and of the outputs that are locked or spent is part of the wallet here.
-/

namespace DogeCash

/-- `isminetype`, as far as `IsMine` returns it. -/
inductive IsMineType where
  | no | watchOnly | multisig | spendable | cold | spendableDelegated | spendableStakeable
  deriving DecidableEq

/-- The bits of an `isminetype`. -/
def IsMineType.bits : IsMineType → BitVec 8
  | .no => 0
  | .watchOnly => 1
  | .multisig => 2
  | .spendable => 4
  | .cold => 8
  | .spendableDelegated => 16
  | .spendableStakeable => 24

/-- `CWalletTx`: a transaction that the node has accepted, and the block it is in. -/
structure CWalletTx where
  tx : CTransaction
  hashBlock : UInt256
  nIndex : Int
  inRange : ∀ out ∈ tx.vout, out.nValue ≤ 21000000 * COIN
  /-- Outputs are numbered by 32 bits. -/
  numbered : tx.vout.length ≤ 4294967296

/-- A block of `mapBlockIndex`, and whether `chainActive` contains it. -/
structure IndexedBlock where
  nHeight : Int
  nTime : UInt32
  inChain : Bool

inductive AvailableCoinsType where
  | allCoins | onlyDenominated | onlyNot10000IfMN | onlyNondenominatedNot10000IfMN | only10000
  | stakeableCoins
  deriving DecidableEq

/-- `CCoinControl`. The destination of the change is given by its script, and the default is
`CNoDestination`. -/
structure CCoinControl where
  destChange : Option CScript := none
  fSplitBlock : Bool := false
  nSplitBlock : Int := 1
  fAllowOtherInputs : Bool := false
  setSelected : List COutPoint := []

namespace CCoinControl

def hasSelected (coinControl : CCoinControl) : Bool := !coinControl.setSelected.isEmpty

def isSelected (coinControl : CCoinControl) (out : COutPoint) : Bool :=
  coinControl.setSelected.contains out

end CCoinControl

/-- The arguments of `AvailableCoins` with their defaults. -/
structure CoinFilter where
  coinControl : Option CCoinControl := none
  fIncludeDelegated : Bool := true
  fIncludeColdStaking : Bool := false
  nCoinType : AvailableCoinsType := .allCoins
  fOnlyConfirmed : Bool := true
  fIncludeZeroValue : Bool := false
  fUseIX : Bool := false
  nWatchonlyConfig : Int := 1

/-- `CWallet`, and the state of the node that it asks. -/
structure CWallet where
  params : ChainParams
  /-- `mapWallet`, in the order of its keys. -/
  mapWallet : List CWalletTx
  distinct : (mapWallet.map fun pcoin => pcoin.tx.hash).Nodup
  /-- `chainActive.Height()` -/
  chainHeight : Int
  mapBlockIndex : UInt256 → Option IndexedBlock
  getAdjustedTime : Int
  checkFinalTx : CTransaction → Bool
  isTrusted : CWalletTx → Bool
  inMempool : CWalletTx → Bool
  nSwiftTXDepth : Int
  getTransactionLockSignatures : CWalletTx → Int
  isMine : CTxOut → IsMineType
  isSpent : COutPoint → Bool
  isLockedCoin : COutPoint → Bool
  hasDelegator : CTxOut → Bool
  fMasterNode : Bool

def obfuScationDenominations : List Int :=
  [10000 * COIN + 10000000, 1000 * COIN + 1000000, 100 * COIN + 100000, 10 * COIN + 10000,
    1 * COIN + 1000, 10000000 + 100]

/-- `OBFUSCATION_COLLATERAL` -/
def obfuscationCollateral : Int := 10 * COIN

def isCollateralAmount (nInputAmount : Int) : Bool :=
  nInputAmount ≠ 0 && nInputAmount.tmod obfuscationCollateral = 0 &&
    nInputAmount < obfuscationCollateral * 5 && obfuscationCollateral < nInputAmount

/-- `COutput` with the entry of the wallet it belongs to. -/
structure WalletCoin where
  pcoin : CWalletTx
  i : Fin pcoin.tx.vout.length
  nDepth : Int
  fSpendable : Bool

namespace WalletCoin

def out (coin : WalletCoin) : CTxOut := coin.pcoin.tx.vout.get coin.i

/-- The coin, as the selection of coins to spend sees it. -/
def output (coin : WalletCoin) : COutput where
  tx := coin.pcoin.tx
  i := coin.i
  nDepth := coin.nDepth
  fSpendable := coin.fSpendable
  inside := coin.i.isLt
  inRange := coin.pcoin.inRange

end WalletCoin

namespace CWalletTx

/-- `hashUnset`: without a block, or abandoned. -/
def hashUnset (pcoin : CWalletTx) : Bool := pcoin.hashBlock == 0 || pcoin.hashBlock == 1

def outPoint (pcoin : CWalletTx) (i : ℕ) : COutPoint := ⟨pcoin.tx.hash, UInt32.ofNat i⟩

end CWalletTx

namespace CWallet

variable (wallet : CWallet)

def getDepthInMainChain (pcoin : CWalletTx) (enableIX : Bool) : Int :=
  if pcoin.hashUnset then 0
  else
    let nResult :=
      match wallet.mapBlockIndex pcoin.hashBlock with
      | none => 0
      | some pindex =>
        if !pindex.inChain then 0
        else (if pcoin.nIndex = -1 then -1 else 1) * (wallet.chainHeight - pindex.nHeight + 1)
    if enableIX && nResult < 6 &&
        swiftTxSignaturesRequired ≤ wallet.getTransactionLockSignatures pcoin then
      wallet.nSwiftTXDepth + nResult
    else nResult

def getBlocksToMaturity (pcoin : CWalletTx) : Int :=
  if !(pcoin.tx.isCoinBase || pcoin.tx.isCoinStake) then 0
  else max 0 (wallet.params.nMaturity + 1 - wallet.getDepthInMainChain pcoin true)

/-- The depth of a transaction whose outputs are looked at. -/
def availableDepth (filter : CoinFilter) (pcoin : CWalletTx) : Option Int :=
  if !wallet.checkFinalTx pcoin.tx then none
  else if filter.fOnlyConfirmed && !wallet.isTrusted pcoin then none
  else if (pcoin.tx.isCoinBase || pcoin.tx.isCoinStake) &&
      0 < wallet.getBlocksToMaturity pcoin then none
  else
    let nDepth := wallet.getDepthInMainChain pcoin false
    if filter.fUseIX && nDepth < 6 then none
    else if nDepth = 0 && !wallet.inMempool pcoin then none
    else if filter.nCoinType = .stakeableCoins && nDepth < wallet.params.nStakeMinDepth then none
    else some nDepth

/-- The value of an output is of the kind that is wanted. -/
def isOfType (nCoinType : AvailableCoinsType) (nValue : Int) : Bool :=
  let collateral := nValue = masternodeCollateralLimit * COIN
  match nCoinType with
  | .onlyDenominated => obfuScationDenominations.contains nValue
  | .onlyNot10000IfMN => !(wallet.fMasterNode && collateral)
  | .onlyNondenominatedNot10000IfMN =>
    !isCollateralAmount nValue && !obfuScationDenominations.contains nValue &&
      !(wallet.fMasterNode && collateral)
  | .only10000 => collateral
  | _ => true

/-- The coins that coin control lets through. -/
def isControlled (filter : CoinFilter) (out : COutPoint) : Bool :=
  match filter.coinControl with
  | none => true
  | some coinControl =>
    !(coinControl.hasSelected && !coinControl.fAllowOtherInputs && !coinControl.isSelected out)

def includesDelegated (filter : CoinFilter) : Bool :=
  filter.fIncludeDelegated || filter.coinControl.any CCoinControl.hasSelected

/-- An output is wanted, by whose it is. -/
def isWanted (filter : CoinFilter) (mine : IsMineType) (out : CTxOut) : Bool :=
  !(mine = .no) &&
    !((mine = .multisig || mine = .spendable) && filter.nWatchonlyConfig = 2) &&
    !(mine = .watchOnly && filter.nWatchonlyConfig = 1) &&
    !(mine = .cold && (!filter.fIncludeColdStaking || !wallet.hasDelegator out)) &&
    !(mine = .spendableDelegated && !includesDelegated filter) &&
    !(mine = .spendableStakeable && !filter.fIncludeColdStaking && !includesDelegated filter)

/-- `fIsValid` -/
def isValid (filter : CoinFilter) (mine : IsMineType) : Bool :=
  let mask := IsMineType.bits .multisig |||
    (if filter.fIncludeColdStaking then IsMineType.bits .cold else 0) |||
    (if includesDelegated filter then IsMineType.bits .spendableDelegated else 0)
  mine.bits &&& IsMineType.bits .spendable ≠ 0 || mine.bits &&& mask ≠ 0

/-- An output of a transaction that is looked at is taken. -/
def isAvailable (filter : CoinFilter) (pcoin : CWalletTx) (i : Fin pcoin.tx.vout.length) : Bool :=
  let out := pcoin.tx.vout.get i
  wallet.isOfType filter.nCoinType out.nValue &&
    !(filter.nCoinType = .stakeableCoins && out.isZerocoinMint) &&
    !wallet.isSpent (pcoin.outPoint i) &&
    !(wallet.isLockedCoin (pcoin.outPoint i) && filter.nCoinType ≠ .only10000) &&
    !(out.nValue ≤ 0 && !filter.fIncludeZeroValue) &&
    isControlled filter (pcoin.outPoint i) &&
    wallet.isWanted filter (wallet.isMine out) out

def coinsOf (filter : CoinFilter) (pcoin : CWalletTx) : List WalletCoin :=
  match wallet.availableDepth filter pcoin with
  | none => []
  | some nDepth =>
    ((List.finRange pcoin.tx.vout.length).filter (wallet.isAvailable filter pcoin)).map fun i =>
      ⟨pcoin, i, nDepth, isValid filter (wallet.isMine (pcoin.tx.vout.get i))⟩

def availableCoins (filter : CoinFilter) : List WalletCoin :=
  wallet.mapWallet.flatMap (wallet.coinsOf filter)

section available

variable {wallet} {filter : CoinFilter}

variable {pcoin : CWalletTx} {coin : WalletCoin}

theorem mem_coinsOf :
    coin ∈ wallet.coinsOf filter pcoin ↔ coin.pcoin = pcoin ∧
      wallet.availableDepth filter coin.pcoin = some coin.nDepth ∧
      wallet.isAvailable filter coin.pcoin coin.i = true ∧
      coin.fSpendable = isValid filter (wallet.isMine coin.out) := by
  unfold coinsOf
  constructor
  · intro mem
    split at mem
    · cases mem
    · rename_i nDepth depth
      obtain ⟨i, taken, rfl⟩ := List.mem_map.mp mem
      exact ⟨rfl, depth, (List.mem_filter.mp taken).2, rfl⟩
  · obtain ⟨entry, i, -, fSpendable⟩ := coin
    intro ⟨same, depth, taken, valid⟩
    cases same
    change fSpendable = isValid filter (wallet.isMine (entry.tx.vout.get i)) at valid
    rw [depth, valid]
    exact List.mem_map.mpr ⟨i, List.mem_filter.mpr ⟨List.mem_finRange i, taken⟩, rfl⟩

theorem mem_availableCoins :
    coin ∈ wallet.availableCoins filter ↔ coin.pcoin ∈ wallet.mapWallet ∧
      wallet.availableDepth filter coin.pcoin = some coin.nDepth ∧
      wallet.isAvailable filter coin.pcoin coin.i = true ∧
      coin.fSpendable = isValid filter (wallet.isMine coin.out) := by
  unfold availableCoins
  rw [List.mem_flatMap]
  constructor
  · intro ⟨pcoin, mem, inside⟩
    obtain ⟨rfl, taken⟩ := mem_coinsOf.mp inside
    exact ⟨mem, taken⟩
  · intro ⟨mem, taken⟩
    exact ⟨coin.pcoin, mem, mem_coinsOf.mpr ⟨rfl, taken⟩⟩

theorem availableDepth_eq_some {nDepth : Int} :
    wallet.availableDepth filter pcoin = some nDepth ↔
      wallet.checkFinalTx pcoin.tx = true ∧
      (filter.fOnlyConfirmed = true → wallet.isTrusted pcoin = true) ∧
      ((pcoin.tx.isCoinBase || pcoin.tx.isCoinStake) = true →
        wallet.getBlocksToMaturity pcoin ≤ 0) ∧
      (filter.fUseIX = true → 6 ≤ wallet.getDepthInMainChain pcoin false) ∧
      (wallet.getDepthInMainChain pcoin false = 0 → wallet.inMempool pcoin = true) ∧
      (filter.nCoinType = .stakeableCoins →
        wallet.params.nStakeMinDepth ≤ wallet.getDepthInMainChain pcoin false) ∧
      wallet.getDepthInMainChain pcoin false = nDepth := by
  unfold availableDepth
  simp only [Option.ite_none_left_eq_some, Option.some.injEq, Bool.not_eq_true',
    Bool.not_eq_false, Bool.and_eq_true, decide_eq_true_eq, not_and, not_lt]

theorem isAvailable_iff {i : Fin pcoin.tx.vout.length} :
    wallet.isAvailable filter pcoin i = true ↔
      wallet.isOfType filter.nCoinType (pcoin.tx.vout.get i).nValue = true ∧
      (filter.nCoinType = .stakeableCoins → (pcoin.tx.vout.get i).isZerocoinMint = false) ∧
      wallet.isSpent (pcoin.outPoint i) = false ∧
      (wallet.isLockedCoin (pcoin.outPoint i) = true → filter.nCoinType = .only10000) ∧
      (0 < (pcoin.tx.vout.get i).nValue ∨ filter.fIncludeZeroValue = true) ∧
      isControlled filter (pcoin.outPoint i) = true ∧
      wallet.isWanted filter (wallet.isMine (pcoin.tx.vout.get i)) (pcoin.tx.vout.get i) =
        true := by
  unfold isAvailable
  simp only [Bool.and_eq_true, Bool.not_eq_true', Bool.and_eq_false_imp, decide_eq_true_eq,
    decide_eq_false_iff_not, ne_eq, not_not, and_assoc]
  rw [← not_lt, Bool.not_eq_false', ← or_iff_not_imp_left]

theorem exists_block_of_inMainChain (inMainChain : 0 < wallet.getDepthInMainChain pcoin false) :
    ∃ utxoBlock, wallet.mapBlockIndex pcoin.hashBlock = some utxoBlock := by
  unfold getDepthInMainChain at inMainChain
  cases found : wallet.mapBlockIndex pcoin.hashBlock with
  | none =>
    rw [found] at inMainChain
    simp at inMainChain
  | some utxoBlock => exact ⟨utxoBlock, rfl⟩

def outPointOf (coin : WalletCoin) : COutPoint := coin.pcoin.outPoint coin.i

theorem outPoint_injective {i j : Fin pcoin.tx.vout.length}
    (same : pcoin.outPoint i = pcoin.outPoint j) : i = j := by
  have number : UInt32.ofNat i = UInt32.ofNat j := congrArg COutPoint.n same
  have small := pcoin.numbered
  have values := congrArg UInt32.toNat number
  rw [UInt32.toNat_ofNat', UInt32.toNat_ofNat', Nat.mod_eq_of_lt (by omega),
    Nat.mod_eq_of_lt (by omega)] at values
  exact Fin.ext values

theorem nodup_coinsOf (pcoin : CWalletTx) :
    ((wallet.coinsOf filter pcoin).map outPointOf).Nodup := by
  unfold coinsOf
  split
  · exact List.nodup_nil
  · rw [List.map_map]
    refine List.Nodup.map_on (fun i _ j _ same => ?_) ((List.nodup_finRange _).filter _)
    exact outPoint_injective same

theorem nodup_availableCoins : ((wallet.availableCoins filter).map outPointOf).Nodup := by
  unfold availableCoins
  rw [List.map_flatMap, List.nodup_flatMap]
  refine ⟨fun pcoin _ => nodup_coinsOf pcoin, ?_⟩
  refine (List.pairwise_map.mp wallet.distinct).imp fun {first second} ne => ?_
  intro out inFirst inSecond
  obtain ⟨one, mem, rfl⟩ := List.mem_map.mp inFirst
  obtain ⟨other, inside, same⟩ := List.mem_map.mp inSecond
  apply ne
  rw [← (mem_coinsOf.mp mem).1, ← (mem_coinsOf.mp inside).1]
  exact (congrArg COutPoint.hash same).symm

end available

end CWallet

/-- A transaction with one output, in a block of the main network. -/
def CWalletTx.sample (out : CTxOut) (inRange : out.nValue ≤ 21000000 * COIN) : CWalletTx where
  tx := ⟨7, 1, [⟨⟨9, 0⟩, [], 0xffffffff⟩], [out], 0⟩
  hashBlock := 299000
  nIndex := 2
  inRange := List.forall_mem_singleton.mpr inRange
  numbered := by
    change 1 ≤ 4294967296
    decide

/-- A wallet on the main network that holds the output, 1001 blocks deep. -/
def CWallet.sample (out : CTxOut) (inRange : out.nValue ≤ 21000000 * COIN) (mine : IsMineType) :
    CWallet where
  params := .main
  mapWallet := [.sample out inRange]
  distinct := List.nodup_singleton _
  chainHeight := 300000
  mapBlockIndex hash := if hash = 299000 then some ⟨299000, 1600000000, true⟩ else none
  getAdjustedTime := 1610000000
  checkFinalTx _ := true
  isTrusted _ := true
  inMempool _ := false
  nSwiftTXDepth := 5
  getTransactionLockSignatures _ := -1
  isMine _ := mine
  isSpent _ := false
  isLockedCoin _ := false
  hasDelegator _ := true
  fMasterNode := false

end DogeCash
