import DogeCash.Wallet.AvailableCoins

/-! # The coins that a wallet stakes, and whether it looks for them

The staker asks `MintableCoins` whether there is anything to stake before it lets
`SelectStakeCoins` choose the inputs. Both go through `AvailableCoins`, but `MintableCoins` passes
its arguments one or more positions off, so that each sees coins that the other does not.
-/

namespace DogeCash

/-- A wallet with the settings and sporks that staking depends on. -/
structure StakingWallet extends CWallet where
  /-- `-DOGECstake` -/
  dogecStake : Bool
  /-- `-zdogecstake` -/
  zdogecStake : Bool
  /-- `-coldstaking` -/
  coldStaking : Bool
  /-- `SPORK_17_COLDSTAKING_ENFORCEMENT` -/
  coldStakingEnforcement : Bool
  /-- `SPORK_16_ZEROCOIN_MAINTENANCE_MODE` -/
  zerocoinMaintenanceMode : Bool
  /-- The hashes of the tracked mints that may be staked. -/
  zerocoinMints : List UInt256

/-- `CStakeInput`, as it is selected: a coin of the wallet or a mint. -/
inductive StakeChoice where
  | dogec (coin : WalletCoin)
  | zdogec (hashStake : UInt256)

namespace StakingWallet

variable (wallet : StakingWallet)

def fIncludeCold : Bool := wallet.coldStakingEnforcement && wallet.coldStaking

/-- The arguments of `SelectStakeCoins`. -/
def selectFilter : CoinFilter where
  fIncludeDelegated := false
  fIncludeColdStaking := wallet.fIncludeCold
  nCoinType := .stakeableCoins

/-- The arguments of `MintableCoins`, as they arrive: the second `false` at
`fIncludeColdStaking`, the 1 at `fOnlyConfirmed`, `fIncludeCold` at `fIncludeZeroValue` and the
last `true` at `fUseIX`. -/
def mintFilter : CoinFilter where
  fIncludeDelegated := false
  fIncludeColdStaking := false
  nCoinType := .stakeableCoins
  fOnlyConfirmed := true
  fIncludeZeroValue := wallet.fIncludeCold
  fUseIX := true

def isMature (blockHeight : Int) (utxoBlock : IndexedBlock) : Bool :=
  wallet.params.hasStakeMinAgeOrDepth blockHeight (UInt32.ofInt wallet.getAdjustedTime)
    utxoBlock.nHeight utxoBlock.nTime

/-- One round of the loop of `SelectStakeCoins`, from the amount and the inputs that are selected.
`mapBlockIndex.at` throws for a block that is not there. -/
def addStakeCoin (nTargetAmount blockHeight : Int) (selected : Int × List StakeChoice)
    (coin : WalletCoin) : Option (Int × List StakeChoice) :=
  if nTargetAmount < selected.1 + coin.out.nValue then some selected
  else if !(0 < wallet.getDepthInMainChain coin.pcoin false) then some selected
  else
    match wallet.mapBlockIndex coin.pcoin.hashBlock with
    | none => none
    | some utxoBlock =>
      if !wallet.isMature blockHeight utxoBlock then some selected
      else some (selected.1 + coin.out.nValue, selected.2 ++ [.dogec coin])

def stakesMints (fPrecompute : Bool) : Bool :=
  (wallet.zdogecStake || fPrecompute) && wallet.params.nBlockZerocoinV2 < wallet.chainHeight &&
    !wallet.zerocoinMaintenanceMode

/-- The coins that `SelectStakeCoins` selects, with their amount. -/
def selectCoins (nTargetAmount blockHeight : Int) (fPrecompute : Bool) :
    Option (Int × List StakeChoice) :=
  if wallet.dogecStake && !fPrecompute then
    (wallet.availableCoins wallet.selectFilter).foldlM
      (wallet.addStakeCoin nTargetAmount blockHeight) (0, [])
  else some (0, [])

def selectStakeCoins (nTargetAmount blockHeight : Int) (fPrecompute : Bool) :
    Option (List StakeChoice) := do
  let selected ← wallet.selectCoins nTargetAmount blockHeight fPrecompute
  return selected.2 ++
    if wallet.stakesMints fPrecompute then wallet.zerocoinMints.map .zdogec else []

/-- The loop of `MintableCoins`. -/
def anyMature : List WalletCoin → Option Bool
  | [] => some false
  | coin :: rest =>
    match wallet.mapBlockIndex coin.pcoin.hashBlock with
    | none => none
    | some utxoBlock =>
      if wallet.isMature wallet.chainHeight utxoBlock then some true else anyMature rest

def mintableCoins : Option Bool := wallet.anyMature (wallet.availableCoins wallet.mintFilter)

/-! ## What each of them sees -/

/-- An output that may be staked as far as its transaction, its block and its being unspent and
unlocked go. -/
structure Stakes (pcoin : CWalletTx) (i : Fin pcoin.tx.vout.length) : Prop where
  held : pcoin ∈ wallet.mapWallet
  final : wallet.checkFinalTx pcoin.tx = true
  trusted : wallet.isTrusted pcoin = true
  mature : (pcoin.tx.isCoinBase || pcoin.tx.isCoinStake) = true →
    wallet.getBlocksToMaturity pcoin ≤ 0
  inMainChain : 0 < wallet.getDepthInMainChain pcoin false
  deep : wallet.params.nStakeMinDepth ≤ wallet.getDepthInMainChain pcoin false
  notMint : (pcoin.tx.vout.get i).isZerocoinMint = false
  unspent : wallet.isSpent (pcoin.outPoint i) = false
  unlocked : wallet.isLockedCoin (pcoin.outPoint i) = false
  old : ∃ utxoBlock, wallet.mapBlockIndex pcoin.hashBlock = some utxoBlock ∧
    wallet.isMature wallet.chainHeight utxoBlock = true

def Ordinary (out : CTxOut) : Prop := wallet.isMine out = .multisig ∨ wallet.isMine out = .spendable

/-- An output for cold staking: delegated to the wallet by one of its delegators, or by itself. -/
def Delegated (out : CTxOut) : Prop :=
  wallet.isMine out = .cold ∧ wallet.hasDelegator out = true ∨
    wallet.isMine out = .spendableStakeable

/-- `MintableCoins` sees an output: an ordinary one that is six blocks deep. -/
def MintSees (pcoin : CWalletTx) (i : Fin pcoin.tx.vout.length) : Prop :=
  wallet.Stakes pcoin i ∧ wallet.Ordinary (pcoin.tx.vout.get i) ∧
    6 ≤ wallet.getDepthInMainChain pcoin false ∧
    (0 < (pcoin.tx.vout.get i).nValue ∨ wallet.fIncludeCold = true)

/-- `SelectStakeCoins` sees an output: one that is worth something, also a delegated one while
there is cold staking. -/
def SelectSees (pcoin : CWalletTx) (i : Fin pcoin.tx.vout.length) : Prop :=
  wallet.Stakes pcoin i ∧ 0 < (pcoin.tx.vout.get i).nValue ∧
    (wallet.Ordinary (pcoin.tx.vout.get i) ∨
      wallet.fIncludeCold = true ∧ wallet.Delegated (pcoin.tx.vout.get i))

section membership

variable {wallet}

/-- The arguments ask for coins to stake and leave the rest at its defaults, but for delegated
coins. -/
structure Staking (filter : CoinFilter) : Prop where
  kind : filter.nCoinType = .stakeableCoins
  uncontrolled : filter.coinControl = none
  undelegated : filter.fIncludeDelegated = false
  confirmed : filter.fOnlyConfirmed = true
  noWatchonly : filter.nWatchonlyConfig = 1

variable {filter : CoinFilter}

theorem isWanted_iff (staking : Staking filter) {out : CTxOut} :
    wallet.isWanted filter (wallet.isMine out) out = true ↔
      wallet.Ordinary out ∨ filter.fIncludeColdStaking = true ∧ wallet.Delegated out := by
  have undelegated : CWallet.includesDelegated filter = false := by
    rw [CWallet.includesDelegated, staking.undelegated, staking.uncontrolled]
    rfl
  unfold CWallet.isWanted Ordinary Delegated
  rw [undelegated, staking.noWatchonly]
  cases wallet.isMine out <;> simp

variable (wallet) in
/-- What a filter for staking finds in the chain and old enough. -/
theorem exists_available_iff (staking : Staking filter) :
    (∃ coin ∈ wallet.availableCoins filter, 0 < wallet.getDepthInMainChain coin.pcoin false ∧
      ∃ utxoBlock, wallet.mapBlockIndex coin.pcoin.hashBlock = some utxoBlock ∧
        wallet.isMature wallet.chainHeight utxoBlock = true) ↔
    ∃ pcoin, ∃ i : Fin pcoin.tx.vout.length, wallet.Stakes pcoin i ∧
      (filter.fUseIX = true → 6 ≤ wallet.getDepthInMainChain pcoin false) ∧
      (0 < (pcoin.tx.vout.get i).nValue ∨ filter.fIncludeZeroValue = true) ∧
      (wallet.Ordinary (pcoin.tx.vout.get i) ∨
        filter.fIncludeColdStaking = true ∧ wallet.Delegated (pcoin.tx.vout.get i)) := by
  constructor
  · intro ⟨coin, mem, inMainChain, old⟩
    obtain ⟨held, depth, taken, -⟩ := CWallet.mem_availableCoins.mp mem
    obtain ⟨final, trusted, mature, confirmations, -, deep, -⟩ :=
      CWallet.availableDepth_eq_some.mp depth
    obtain ⟨-, notMint, unspent, unlocked, value, -, wanted⟩ := CWallet.isAvailable_iff.mp taken
    refine ⟨coin.pcoin, coin.i, ?_, confirmations, value, (isWanted_iff staking).mp wanted⟩
    have locked : wallet.isLockedCoin (coin.pcoin.outPoint coin.i) ≠ true := by
      intro locked
      have kind := unlocked locked
      rw [staking.kind] at kind
      cases kind
    exact {
      held, final, mature, inMainChain, unspent, old
      trusted := trusted staking.confirmed
      deep := deep staking.kind
      notMint := notMint staking.kind
      unlocked := Bool.not_eq_true _ |>.mp locked }
  · intro ⟨pcoin, i, stakes, confirmations, value, wanted⟩
    have depth : wallet.availableDepth filter pcoin =
        some (wallet.getDepthInMainChain pcoin false) := by
      apply CWallet.availableDepth_eq_some.mpr
      refine ⟨stakes.final, fun _ => stakes.trusted, stakes.mature, confirmations, ?_,
        fun _ => stakes.deep, rfl⟩
      exact fun zero => absurd zero stakes.inMainChain.ne'
    have taken : wallet.isAvailable filter pcoin i = true := by
      apply CWallet.isAvailable_iff.mpr
      refine ⟨by rw [staking.kind]; rfl, fun _ => stakes.notMint, stakes.unspent, ?_, value, ?_,
        (isWanted_iff staking).mpr wanted⟩
      · rw [stakes.unlocked]
        exact fun locked => absurd locked Bool.false_ne_true
      · rw [CWallet.isControlled, staking.uncontrolled]
    refine ⟨⟨pcoin, i, wallet.getDepthInMainChain pcoin false,
      CWallet.isValid filter (wallet.isMine (pcoin.tx.vout.get i))⟩, ?_, stakes.inMainChain,
      stakes.old⟩
    exact CWallet.mem_availableCoins.mpr ⟨stakes.held, depth, taken, rfl⟩

end membership

section loops

variable {wallet}

variable {coins : List WalletCoin} {nTargetAmount : Int} {selected : Int × List StakeChoice}

/-- The loop of `MintableCoins` over coins that are in the chain. -/
theorem anyMature_eq_some
    (inMainChain : ∀ coin ∈ coins, 0 < wallet.getDepthInMainChain coin.pcoin false) :
    ∃ result, wallet.anyMature coins = some result ∧
      (result = true ↔ ∃ coin ∈ coins, ∃ utxoBlock,
        wallet.mapBlockIndex coin.pcoin.hashBlock = some utxoBlock ∧
          wallet.isMature wallet.chainHeight utxoBlock = true) := by
  induction coins with
  | nil => exact ⟨false, rfl, by simp⟩
  | cons coin rest ih =>
    obtain ⟨here, others⟩ := List.forall_mem_cons.mp inMainChain
    obtain ⟨utxoBlock, found⟩ := CWallet.exists_block_of_inMainChain here
    unfold anyMature
    rw [found]
    cases mature : wallet.isMature wallet.chainHeight utxoBlock with
    | true =>
      exact ⟨true, if_pos mature, iff_of_true rfl
        ⟨coin, List.mem_cons_self, utxoBlock, found, mature⟩⟩
    | false =>
      obtain ⟨result, computed, whether⟩ := ih others
      refine ⟨result, by simpa [mature] using computed, whether.trans ?_⟩
      simp only [List.mem_cons, exists_eq_or_imp]
      refine (or_iff_right ?_).symm
      rintro ⟨other, same, isMature⟩
      cases found.symm.trans same
      exact absurd (mature.symm.trans isMature) Bool.false_ne_true

def Selectable (wallet : StakingWallet) (blockHeight : Int) (coin : WalletCoin) : Prop :=
  0 < wallet.getDepthInMainChain coin.pcoin false ∧ ∃ utxoBlock,
    wallet.mapBlockIndex coin.pcoin.hashBlock = some utxoBlock ∧
      wallet.isMature blockHeight utxoBlock = true

def Counted (selected : Int × List StakeChoice) : Prop := selected.2 = [] → selected.1 = 0

theorem addStakeCoin_eq_some (blockHeight : Int) (counted : Counted selected) {coin : WalletCoin}
    (fits : coin.out.nValue ≤ nTargetAmount) :
    ∃ next, wallet.addStakeCoin nTargetAmount blockHeight selected coin = some next ∧
      Counted next ∧ (next.2 ≠ [] ↔ selected.2 ≠ [] ∨ wallet.Selectable blockHeight coin) := by
  by_cases outruns : nTargetAmount < selected.1 + coin.out.nValue
  · -- Nothing outruns the target on its own, so something is selected.
    have already : selected.2 ≠ [] := by
      intro empty
      rw [counted empty] at outruns
      omega
    refine ⟨selected, if_pos outruns, counted, ?_⟩
    exact iff_of_true already (.inl already)
  · unfold addStakeCoin
    rw [if_neg outruns]
    by_cases inMainChain : 0 < wallet.getDepthInMainChain coin.pcoin false
    · obtain ⟨utxoBlock, found⟩ := CWallet.exists_block_of_inMainChain inMainChain
      rw [decide_eq_true inMainChain, if_neg (by simp), found]
      by_cases mature : wallet.isMature blockHeight utxoBlock = true
      · refine ⟨_, if_neg (by rw [mature]; simp), fun empty => absurd empty (by simp), ?_⟩
        exact iff_of_true (by simp) (.inr ⟨inMainChain, utxoBlock, found, mature⟩)
      · refine ⟨selected, if_pos (by simpa using mature), counted, (or_iff_left ?_).symm⟩
        intro ⟨_, other, same, isMature⟩
        cases found.symm.trans same
        exact mature isMature
    · rw [decide_eq_false inMainChain]
      exact ⟨selected, if_pos rfl, counted, (or_iff_left fun able => inMainChain able.1).symm⟩

variable (wallet) in
theorem foldlM_addStakeCoin (blockHeight : Int)
    (fits : ∀ coin ∈ coins, coin.out.nValue ≤ nTargetAmount) (counted : Counted selected) :
    ∃ last, coins.foldlM (wallet.addStakeCoin nTargetAmount blockHeight) selected = some last ∧
      (last.2 ≠ [] ↔ selected.2 ≠ [] ∨ ∃ coin ∈ coins, wallet.Selectable blockHeight coin) := by
  induction coins generalizing selected with
  | nil => exact ⟨selected, rfl, by simp⟩
  | cons coin rest ih =>
    obtain ⟨here, others⟩ := List.forall_mem_cons.mp fits
    obtain ⟨next, added, counts, whether⟩ := addStakeCoin_eq_some blockHeight counted here
    obtain ⟨last, loops, rests⟩ := ih others counts
    refine ⟨last, by rw [List.foldlM_cons, added]; exact loops, rests.trans ?_⟩
    rw [whether, or_assoc]
    simp

end loops

section views

variable {wallet}

theorem nValue_le_maxAmount (coin : WalletCoin) : coin.out.nValue ≤ maxAmount := by
  have bound := coin.pcoin.inRange coin.out (List.get_mem _ _)
  exact bound.trans (by decide)

variable (wallet) in
theorem mintableCoins_eq_some :
    ∃ result, wallet.mintableCoins = some result ∧
      (result = true ↔ ∃ pcoin, ∃ i, wallet.MintSees pcoin i) := by
  have staking : Staking wallet.mintFilter := ⟨rfl, rfl, rfl, rfl, rfl⟩
  have inMainChain : ∀ coin ∈ wallet.availableCoins wallet.mintFilter,
      0 < wallet.getDepthInMainChain coin.pcoin false := by
    intro coin mem
    obtain ⟨-, depth, -⟩ := CWallet.mem_availableCoins.mp mem
    obtain ⟨-, -, -, confirmations, -⟩ := CWallet.availableDepth_eq_some.mp depth
    exact lt_of_lt_of_le (by decide) (confirmations rfl)
  obtain ⟨result, computed, whether⟩ := anyMature_eq_some inMainChain
  refine ⟨result, computed, whether.trans ?_⟩
  have seen : (∃ coin ∈ wallet.availableCoins wallet.mintFilter, ∃ utxoBlock,
      wallet.mapBlockIndex coin.pcoin.hashBlock = some utxoBlock ∧
        wallet.isMature wallet.chainHeight utxoBlock = true) ↔ _ :=
    Iff.trans (exists_congr fun coin => and_congr_right fun mem =>
      (and_iff_right (inMainChain coin mem)).symm) (exists_available_iff wallet staking)
  rw [seen]
  refine exists_congr fun pcoin => exists_congr fun i => ?_
  refine and_congr_right fun _ => ⟨fun ⟨confirmations, value, kind⟩ => ?_, fun sees => ?_⟩
  · exact ⟨kind.resolve_right fun cold => Bool.false_ne_true cold.1, confirmations rfl, value⟩
  · exact ⟨fun _ => sees.2.1, sees.2.2, .inl sees.1⟩

theorem selectStakeCoins_eq_some (staking : wallet.dogecStake = true)
    (noMints : wallet.stakesMints false = false) :
    ∃ listInputs, wallet.selectStakeCoins maxAmount wallet.chainHeight false = some listInputs ∧
      (listInputs ≠ [] ↔ ∃ pcoin, ∃ i, wallet.SelectSees pcoin i) := by
  have filter : Staking wallet.selectFilter := ⟨rfl, rfl, rfl, rfl, rfl⟩
  have counted : Counted (0, []) := fun _ => rfl
  obtain ⟨last, loops, whether⟩ := foldlM_addStakeCoin wallet wallet.chainHeight
    (fun coin (_ : coin ∈ wallet.availableCoins wallet.selectFilter) => nValue_le_maxAmount coin)
    counted
  have selects : wallet.selectCoins maxAmount wallet.chainHeight false = some last := by
    rw [selectCoins, staking]
    exact loops
  refine ⟨last.2, ?_, ?_⟩
  · unfold selectStakeCoins
    rw [selects, noMints]
    exact congrArg some (List.append_nil _)
  · refine whether.trans ((or_iff_right (fun absent => absent rfl)).trans ?_)
    refine (exists_available_iff wallet filter).trans ?_
    refine exists_congr fun pcoin => exists_congr fun i => and_congr_right fun _ => ?_
    constructor
    · intro ⟨_, value, kind⟩
      exact ⟨value.resolve_right Bool.false_ne_true, kind⟩
    · intro ⟨value, kind⟩
      exact ⟨fun useIX => absurd useIX Bool.false_ne_true, .inl value, kind⟩

/-- `MintableCoins` answers yes exactly if `SelectStakeCoins` finds an input. -/
def Agrees (wallet : StakingWallet) : Prop :=
  wallet.mintableCoins = some true ↔
    ∃ listInputs, wallet.selectStakeCoins maxAmount wallet.chainHeight false = some listInputs ∧
      listInputs ≠ []

/-- Some output is seen by both functions. -/
def BothSee (wallet : StakingWallet) : Prop :=
  ∃ pcoin, ∃ i, wallet.MintSees pcoin i ∧ wallet.SelectSees pcoin i

/-- An output that only `MintableCoins` sees: an ordinary one that is worth nothing, while there
is cold staking. -/
def OnlyMintSees (wallet : StakingWallet) : Prop :=
  ∃ pcoin, ∃ i : Fin pcoin.tx.vout.length, wallet.Stakes pcoin i ∧
    wallet.Ordinary (pcoin.tx.vout.get i) ∧ 6 ≤ wallet.getDepthInMainChain pcoin false ∧
    (pcoin.tx.vout.get i).nValue ≤ 0 ∧ wallet.fIncludeCold = true

/-- An output that only `SelectStakeCoins` sees: a delegated one, while there is cold staking, or
one that is less than six blocks deep. -/
def OnlySelectSees (wallet : StakingWallet) : Prop :=
  ∃ pcoin, ∃ i : Fin pcoin.tx.vout.length, wallet.Stakes pcoin i ∧
    0 < (pcoin.tx.vout.get i).nValue ∧
    (wallet.Ordinary (pcoin.tx.vout.get i) ∧ wallet.getDepthInMainChain pcoin false < 6 ∨
      wallet.fIncludeCold = true ∧ wallet.Delegated (pcoin.tx.vout.get i))

theorem exists_mintSees_iff :
    (∃ pcoin, ∃ i, wallet.MintSees pcoin i) ↔ wallet.BothSee ∨ wallet.OnlyMintSees := by
  constructor
  · intro ⟨pcoin, i, sees⟩
    have ⟨stakes, ordinary, confirmations, value⟩ := sees
    by_cases positive : 0 < (pcoin.tx.vout.get i).nValue
    · exact .inl ⟨pcoin, i, sees, stakes, positive, .inl ordinary⟩
    · exact .inr ⟨pcoin, i, stakes, ordinary, confirmations, not_lt.mp positive,
        value.resolve_left positive⟩
  · intro found
    rcases found with ⟨pcoin, i, sees, -⟩ | ⟨pcoin, i, stakes, ordinary, confirmations, -, cold⟩
    · exact ⟨pcoin, i, sees⟩
    · exact ⟨pcoin, i, stakes, ordinary, confirmations, .inr cold⟩

theorem exists_selectSees_iff :
    (∃ pcoin, ∃ i, wallet.SelectSees pcoin i) ↔ wallet.BothSee ∨ wallet.OnlySelectSees := by
  constructor
  · intro ⟨pcoin, i, sees⟩
    have ⟨stakes, value, kind⟩ := sees
    rcases kind with ordinary | delegated
    · by_cases confirmations : 6 ≤ wallet.getDepthInMainChain pcoin false
      · exact .inl ⟨pcoin, i, ⟨stakes, ordinary, confirmations, .inl value⟩, sees⟩
      · exact .inr ⟨pcoin, i, stakes, value, .inl ⟨ordinary, not_le.mp confirmations⟩⟩
    · exact .inr ⟨pcoin, i, stakes, value, .inr delegated⟩
  · intro found
    rcases found with ⟨pcoin, i, -, sees⟩ | ⟨pcoin, i, stakes, value, ⟨ordinary, -⟩ | delegated⟩
    · exact ⟨pcoin, i, sees⟩
    · exact ⟨pcoin, i, stakes, value, .inl ordinary⟩
    · exact ⟨pcoin, i, stakes, value, .inr delegated⟩

end views

/-- **When the staker sees the coins it can stake**, while it stakes coins and no mints: if there
is an output that both functions see, and otherwise if there is one that only the first sees
exactly when there is one that only the second sees. -/
theorem mintableCoins_agrees_iff (staking : wallet.dogecStake = true)
    (noMints : wallet.stakesMints false = false) :
    wallet.Agrees ↔ wallet.BothSee ∨ (wallet.OnlyMintSees ↔ wallet.OnlySelectSees) := by
  obtain ⟨result, asked, mints⟩ := mintableCoins_eq_some wallet
  obtain ⟨listInputs, selected, selects⟩ := selectStakeCoins_eq_some staking noMints
  have first : wallet.mintableCoins = some true ↔ wallet.BothSee ∨ wallet.OnlyMintSees := by
    rw [asked, Option.some.injEq, mints, exists_mintSees_iff]
  have second : (∃ listInputs,
      wallet.selectStakeCoins maxAmount wallet.chainHeight false = some listInputs ∧
        listInputs ≠ []) ↔ wallet.BothSee ∨ wallet.OnlySelectSees := by
    rw [selected, ← exists_selectSees_iff, ← selects]
    simp
  unfold Agrees
  rw [first, second]
  by_cases both : wallet.BothSee
  · simp [both]
  · simp [both]

/-! ## A wallet with one coin -/

/-- A wallet on the main network that holds one output, with cold staking. -/
def sampleWallet (out : CTxOut) (inRange : out.nValue ≤ 21000000 * COIN) (mine : IsMineType) :
    StakingWallet where
  toCWallet := .sample out inRange mine
  dogecStake := true
  zdogecStake := true
  coldStaking := true
  coldStakingEnforcement := true
  zerocoinMaintenanceMode := false
  zerocoinMints := []

/-- An ordinary output of 100 DOGEC is seen by both. -/
theorem mintableCoins_agrees_ordinary :
    (sampleWallet (.of (100 * COIN) [0x51]) (by decide) .spendable).Agrees := by
  apply (mintableCoins_agrees_iff _ rfl (by decide)).mpr
  have stakes : (sampleWallet (.of (100 * COIN) [0x51]) (by decide) .spendable).Stakes
      (CWalletTx.sample (.of (100 * COIN) [0x51]) (by decide)) ⟨0, Nat.one_pos⟩ := {
    held := List.mem_singleton_self _
    final := rfl
    trusted := rfl
    mature := by decide
    inMainChain := by decide
    deep := by decide
    notMint := by decide
    unspent := rfl
    unlocked := rfl
    old := ⟨_, rfl, by decide⟩ }
  exact .inl ⟨_, _, ⟨stakes, .inr rfl, by decide, .inl (by decide)⟩, stakes, by decide,
    .inl (.inr rfl)⟩

/-- An output of 100 DOGEC that is delegated to the wallet is selected, but not looked for. -/
theorem not_agrees_delegated :
    ¬(sampleWallet (.of (100 * COIN) [0x51]) (by decide) .cold).Agrees := by
  intro agrees
  have blind : (sampleWallet (.of (100 * COIN) [0x51]) (by decide) .cold).mintableCoins =
      some false := by decide +kernel
  have selected : ∃ listInputs,
      (sampleWallet (.of (100 * COIN) [0x51]) (by decide) .cold).selectStakeCoins maxAmount
        300000 false = some listInputs ∧ listInputs ≠ [] := ⟨_, rfl, by simp⟩
  cases blind.symm.trans (agrees.mpr selected)

end StakingWallet

end DogeCash
