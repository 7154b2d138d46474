import DogeCash.Wallet.AvailableCoins
import DogeCash.Wallet.SelectCoins

/-! # The coins that a payment spends

`SelectCoinsToSpend` takes the coins that coin control has selected, or denominated coins up to
the target, or asks `SelectCoinsMinConf` for fewer and fewer confirmations. Whichever it does, it
returns distinct available coins with their total, and succeeds only if they cover the target, as
long as the available coins, and the target and a cent, fit into 64 bits.
-/

namespace DogeCash

open List (filter_sublist map_map mem_filter mem_map)
open CoinSelection (OutputsFit insertCoin of_mk)

/-- A wallet with what the selection of coins to spend asks of it. The random choices are named by
the round of the caller and the attempt. -/
structure SpendWallet extends CWallet where
  selection : ℕ → ℕ → CoinSelectionEnv
  denominations : ∀ round attempt,
    (selection round attempt).obfuScationDenominations = obfuScationDenominations
  getInputObfuscationRounds : COutPoint → Int
  nZeromintPercentage : Int
  bSpendZeroConfChange : Bool

namespace SpendWallet

variable (wallet : SpendWallet)

/-- The arguments of `AvailableCoins` in `SelectCoinsToSpend`. -/
def spendFilter (coinControl : Option CCoinControl) (coin_type : AvailableCoinsType) (useIX : Bool)
    (fIncludeColdStaking fIncludeDelegated : Bool) : CoinFilter where
  coinControl := coinControl
  fIncludeDelegated := fIncludeDelegated
  fIncludeColdStaking := fIncludeColdStaking
  nCoinType := coin_type
  fOnlyConfirmed := true
  fIncludeZeroValue := false
  fUseIX := useIX

def isAnonymized (coin : WalletCoin) : Bool :=
  !(wallet.getInputObfuscationRounds (CWallet.outPointOf coin) < wallet.nZeromintPercentage)

/-- All coins that coin control has selected. -/
def selectControlled (nTargetValue : Int) (coin_type : AvailableCoinsType)
    (vCoins : List WalletCoin) : CoinSelection :=
  let coins := vCoins.filter fun coin =>
    coin.fSpendable && (coin_type ≠ .onlyDenominated || wallet.isAnonymized coin)
  let selection := CoinSelection.of (coins.map fun coin => coin.output.coin)
  { selection with found := nTargetValue ≤ selection.nValueRet }

/-- A coin of a denomination is taken as long as the total stays below the target, rounded up
to a tenth. -/
def addDenominated (nTargetValue v : Int) (selection : CoinSelection) (coin : WalletCoin) :
    CoinSelection :=
  if coin.out.nValue = v ∧
      addInt64 selection.nValueRet coin.out.nValue < nTargetValue + 10000000 + 100 then
    if wallet.isAnonymized coin then selection.insertCoin coin.output.coin else selection
  else selection

def selectDenominated (nTargetValue : Int) (vCoins : List WalletCoin) : CoinSelection :=
  let selection := obfuScationDenominations.foldl (fun selection v =>
    vCoins.foldl (wallet.addDenominated nTargetValue v) selection) { found := true }
  { selection with found := nTargetValue ≤ selection.nValueRet }

/-- The attempts with `SelectCoinsMinConf`. -/
def selectConfirmed (round : ℕ) (nTargetValue : Int) (vCoins : List WalletCoin) : CoinSelection :=
  let attempt (number : ℕ) (nConfMine nConfTheirs : Int) : CoinSelection :=
    (wallet.selection round number).selectCoinsMinConf nTargetValue nConfMine nConfTheirs
      (vCoins.map WalletCoin.output)
  if (attempt 0 1 6).found then attempt 0 1 6
  else if (attempt 1 1 1).found then attempt 1 1 1
  else if wallet.bSpendZeroConfChange then attempt 2 0 1
  else { found := false }

def selectCoinsToSpend (round : ℕ) (nTargetValue : Int) (coinControl : Option CCoinControl)
    (coin_type : AvailableCoinsType) (useIX fIncludeColdStaking fIncludeDelegated : Bool) :
    CoinSelection :=
  let vCoins := wallet.availableCoins
    (spendFilter coinControl coin_type useIX fIncludeColdStaking fIncludeDelegated)
  if coinControl.any CCoinControl.hasSelected then
    wallet.selectControlled nTargetValue coin_type vCoins
  else if coin_type = .onlyDenominated then wallet.selectDenominated nTargetValue vCoins
  else wallet.selectConfirmed round nTargetValue vCoins

/-- The selected coins are some of those that are available, each once, with their total. -/
def Chooses (vCoins : List WalletCoin) (selection : CoinSelection) : Prop :=
  ∃ coins : List (Int × WalletOutput), (coins.map Prod.snd).Nodup ∧
    (∀ coin ∈ coins, ∃ entry ∈ vCoins, entry.output.coin = coin) ∧
    selection.setCoinsRet = (coins.map Prod.snd).toFinset ∧
    selection.nValueRet = (coins.map Prod.fst).sum

def Distinct (vCoins : List WalletCoin) : Prop := (vCoins.map fun coin => coin.output.coin.2).Nodup

theorem distinct_availableCoins (filter : CoinFilter) :
    Distinct (wallet.availableCoins filter) := by
  have outPoints : ((wallet.availableCoins filter).map CWallet.outPointOf).Nodup :=
    CWallet.nodup_availableCoins
  have same : CWallet.outPointOf =
      (fun key : WalletOutput => (⟨key.1.hash, UInt32.ofNat key.2⟩ : COutPoint)) ∘
        fun coin : WalletCoin => coin.output.coin.2 := rfl
  rw [same, ← map_map] at outPoints
  exact outPoints.of_map _

section choice

variable {wallet} {vCoins : List WalletCoin}

/-- The outputs of the coins are worth what an `int64_t` holds. -/
abbrev CoinsFit (vCoins : List WalletCoin) : Prop := OutputsFit (vCoins.map WalletCoin.output)

/-- Distinct coins out of those that fit have a total that fits. -/
theorem CoinsFit.taken (fits : CoinsFit vCoins) {taken : List WalletCoin}
    (inside : ∀ coin ∈ taken, coin ∈ vCoins) (distinct : Distinct taken) :
    TotalFits ((taken.map fun coin => coin.output.coin).map Prod.fst) := by
  have part : taken.Subperm vCoins := (distinct.of_map _).subperm inside
  obtain ⟨arranged, same, sublist⟩ := part
  refine fits.coins ⟨arranged.map fun coin => coin.output.coin, same.map _, ?_⟩
  rw [map_map]
  exact sublist.map _

theorem chooses_of_sublist (fits : CoinsFit vCoins) {taken from' : List WalletCoin}
    (sublist : taken.Sublist from')
    (inside : ∀ coin ∈ from', coin ∈ vCoins) (distinct : Distinct from') (found : Bool) :
    Chooses vCoins { CoinSelection.of (taken.map fun coin => coin.output.coin) with found } := by
  have takenDistinct : Distinct taken := List.Nodup.sublist (sublist.map _) distinct
  have total := fits.taken (fun coin mem => inside coin (sublist.subset mem)) takenDistinct
  refine ⟨taken.map fun coin => coin.output.coin, ?_, fun coin mem => ?_, ?_, ?_⟩
  · rw [map_map]
    exact takenDistinct
  · obtain ⟨entry, here, rfl⟩ := mem_map.mp mem
    exact ⟨entry, inside entry (sublist.subset here), rfl⟩
  · rw [of_mk total]
  · rw [of_mk total]

theorem chooses_selectControlled (fits : CoinsFit vCoins) (distinct : Distinct vCoins)
    (nTargetValue : Int) (coin_type : AvailableCoinsType) :
    Chooses vCoins (wallet.selectControlled nTargetValue coin_type vCoins) :=
  chooses_of_sublist fits filter_sublist (fun _ mem => mem) distinct _

variable (wallet) in
theorem foldl_addDenominated (nTargetValue v : Int) (vCoins : List WalletCoin)
    (selection : CoinSelection) :
    ∃ taken : List WalletCoin, taken.Sublist (vCoins.filter fun coin => coin.out.nValue = v) ∧
      vCoins.foldl (wallet.addDenominated nTargetValue v) selection =
        (taken.map fun coin => coin.output.coin).foldl insertCoin selection := by
  induction vCoins generalizing selection with
  | nil => exact ⟨[], List.nil_sublist _, rfl⟩
  | cons coin rest ih =>
    obtain ⟨taken, sublist, folds⟩ := ih (wallet.addDenominated nTargetValue v selection coin)
    have skip : (rest.filter fun coin => coin.out.nValue = v).Sublist
        ((coin :: rest).filter fun coin => coin.out.nValue = v) :=
      (List.sublist_cons_self coin rest).filter _
    rw [List.foldl_cons, folds]
    unfold addDenominated
    split_ifs with wanted anonymized
    · refine ⟨coin :: taken, ?_, rfl⟩
      rw [List.filter_cons, if_pos (decide_eq_true wanted.1)]
      exact sublist.cons_cons coin
    · exact ⟨taken, sublist.trans skip, rfl⟩
    · exact ⟨taken, sublist.trans skip, rfl⟩

variable (wallet) in
theorem foldl_denominations (nTargetValue : Int) (vCoins : List WalletCoin)
    (denominations : List Int) (selection : CoinSelection) :
    ∃ taken : List WalletCoin,
      taken.Sublist (denominations.flatMap fun v => vCoins.filter fun coin => coin.out.nValue = v) ∧
      denominations.foldl (fun selection v =>
          vCoins.foldl (wallet.addDenominated nTargetValue v) selection) selection =
        (taken.map fun coin => coin.output.coin).foldl insertCoin selection := by
  induction denominations generalizing selection with
  | nil => exact ⟨[], List.nil_sublist _, rfl⟩
  | cons v rest ih =>
    obtain ⟨first, part, pass⟩ := foldl_addDenominated wallet nTargetValue v vCoins selection
    obtain ⟨later, parts, passes⟩ := ih (vCoins.foldl (wallet.addDenominated nTargetValue v)
      selection)
    refine ⟨first ++ later, ?_, ?_⟩
    · exact part.append parts
    · rw [List.foldl_cons, passes, pass, List.map_append, List.foldl_append]

theorem nodup_obfuScationDenominations : obfuScationDenominations.Nodup := by decide

section

variable (distinct : Distinct vCoins)
include distinct

theorem distinct_denominated :
    Distinct (obfuScationDenominations.flatMap fun v =>
      vCoins.filter fun coin => coin.out.nValue = v) := by
  unfold Distinct
  rw [List.map_flatMap, List.nodup_flatMap]
  refine ⟨fun v _ => List.Nodup.sublist (filter_sublist.map _) distinct, ?_⟩
  refine List.Pairwise.imp (fun {first second} ne => ?_) nodup_obfuScationDenominations
  intro key inFirst inSecond
  obtain ⟨one, mem, rfl⟩ := mem_map.mp inFirst
  obtain ⟨other, inside, same⟩ := mem_map.mp inSecond
  have value : one.out.nValue = first := of_decide_eq_true (mem_filter.mp mem).2
  have another : other.out.nValue = second := of_decide_eq_true (mem_filter.mp inside).2
  have values : coinValue one.output.coin.2 = coinValue other.output.coin.2 := by rw [same]
  rw [coinValue_coin, coinValue_coin] at values
  exact ne (value.symm.trans (values.trans another))

theorem chooses_selectDenominated (fits : CoinsFit vCoins) (nTargetValue : Int) :
    Chooses vCoins (wallet.selectDenominated nTargetValue vCoins) := by
  obtain ⟨taken, sublist, folds⟩ := foldl_denominations wallet nTargetValue vCoins
    obfuScationDenominations { found := true }
  unfold selectDenominated
  rw [folds]
  refine chooses_of_sublist fits sublist (fun coin mem => ?_) (distinct_denominated distinct) _
  obtain ⟨v, -, here⟩ := List.mem_flatMap.mp mem
  exact (mem_filter.mp here).1

variable {nTargetValue : Int} (fits : CoinsFit vCoins)
include fits

theorem chooses_of_covers {outputs : List COutput} {selection : CoinSelection}
    (covers : CoinSelection.Covers outputs nTargetValue selection)
    (inside : outputs.Sublist (vCoins.map WalletCoin.output)) : Chooses vCoins selection := by
  obtain ⟨⟨coins, part, rfl⟩, -⟩ := covers
  have total := (fits.part inside.subperm).coins part
  have whole : (outputs.map fun output => output.coin.2).Nodup := by
    refine List.Nodup.sublist (inside.map _) ?_
    rw [map_map]
    exact distinct
  refine ⟨coins, ?_, fun coin mem => ?_, ?_, ?_⟩
  · obtain ⟨arranged, same, sublist⟩ := part
    refine nodup_of_subperm ⟨arranged.map Prod.snd, same.map _, sublist.map Prod.snd⟩ ?_
    rw [map_map]
    exact whole
  · obtain ⟨output, here, rfl⟩ := mem_map.mp (part.subset mem)
    obtain ⟨entry, there, rfl⟩ := mem_map.mp (inside.subset here)
    exact ⟨entry, there, rfl⟩
  · rw [of_mk total]
  · rw [of_mk total]

variable (room : FitsInt64 (nTargetValue + CENT))
include room

theorem chooses_attempt (env : CoinSelectionEnv) (nConfMine nConfTheirs : Int)
    (found : (env.selectCoinsMinConf nTargetValue nConfMine nConfTheirs
      (vCoins.map WalletCoin.output)).found = true) :
    Chooses vCoins (env.selectCoinsMinConf nTargetValue nConfMine nConfTheirs
      (vCoins.map WalletCoin.output)) ∧
    nTargetValue ≤ (env.selectCoinsMinConf nTargetValue nConfMine nConfTheirs
      (vCoins.map WalletCoin.output)).nValueRet := by
  have eligible : OutputsFit ((vCoins.map WalletCoin.output).filter
      (env.isEligible nConfMine nConfTheirs)) := fits.part filter_sublist.subperm
  rcases env.selectCoinsMinConf_covers nTargetValue nConfMine nConfTheirs room
    (vCoins.map WalletCoin.output) eligible with covers | ⟨fails, -⟩
  · exact ⟨chooses_of_covers distinct fits covers filter_sublist, covers.enough⟩
  · rw [fails] at found
    cases found

theorem chooses_selectConfirmed {round : ℕ}
    (found : (wallet.selectConfirmed round nTargetValue vCoins).found = true) :
    Chooses vCoins (wallet.selectConfirmed round nTargetValue vCoins) ∧
      nTargetValue ≤ (wallet.selectConfirmed round nTargetValue vCoins).nValueRet := by
  unfold selectConfirmed at found ⊢
  dsimp only at found ⊢
  split_ifs at found ⊢ with first second zeroConf
  · exact chooses_attempt distinct fits room _ _ _ first
  · exact chooses_attempt distinct fits room _ _ _ second
  · exact chooses_attempt distinct fits room _ _ _ found

end

/-- What `SelectCoinsToSpend` returns when it succeeds. -/
theorem chooses_selectCoinsToSpend {round : ℕ} {nTargetValue : Int}
    {coinControl : Option CCoinControl} {coin_type : AvailableCoinsType}
    {useIX fIncludeColdStaking fIncludeDelegated : Bool}
    (fits : CoinsFit (wallet.availableCoins
      (spendFilter coinControl coin_type useIX fIncludeColdStaking fIncludeDelegated)))
    (room : FitsInt64 (nTargetValue + CENT))
    (found : (wallet.selectCoinsToSpend round nTargetValue coinControl coin_type useIX
      fIncludeColdStaking fIncludeDelegated).found = true) :
    Chooses
      (wallet.availableCoins
        (spendFilter coinControl coin_type useIX fIncludeColdStaking fIncludeDelegated))
      (wallet.selectCoinsToSpend round nTargetValue coinControl coin_type useIX
        fIncludeColdStaking fIncludeDelegated) ∧
    nTargetValue ≤ (wallet.selectCoinsToSpend round nTargetValue coinControl coin_type useIX
      fIncludeColdStaking fIncludeDelegated).nValueRet := by
  have distinct := wallet.distinct_availableCoins
    (spendFilter coinControl coin_type useIX fIncludeColdStaking fIncludeDelegated)
  unfold selectCoinsToSpend at found ⊢
  split_ifs at found ⊢ with selected denominated
  · exact ⟨chooses_selectControlled fits distinct _ _, of_decide_eq_true found⟩
  · exact ⟨chooses_selectDenominated distinct fits _, of_decide_eq_true found⟩
  · exact chooses_selectConfirmed distinct fits room found

theorem Chooses.sum_eq {selection : CoinSelection} (chooses : Chooses vCoins selection)
    (distinct : Distinct vCoins) {arranged : List WalletCoin} (same : arranged.Perm vCoins) :
    ((arranged.filter fun coin => coin.output.coin.2 ∈ selection.setCoinsRet).map
      fun coin => coin.out.nValue).sum = selection.nValueRet := by
  obtain ⟨coins, nodup, origin, set, total⟩ := chooses
  let taken := arranged.filter fun coin => coin.output.coin.2 ∈ selection.setCoinsRet
  have keys : (taken.map fun coin => coin.output.coin.2).Nodup :=
    List.Nodup.sublist (filter_sublist.map _) ((same.map _).nodup_iff.mpr distinct)
  have values : taken.map (fun coin => coin.out.nValue) =
      (taken.map fun coin => coin.output.coin.2).map coinValue := by
    rw [map_map]
    exact List.map_congr_left fun coin _ => (coinValue_coin coin.output).symm
  have worth : ∀ coin ∈ coins, coinValue coin.2 = coin.1 := by
    intro coin mem
    obtain ⟨entry, -, rfl⟩ := origin coin mem
    exact coinValue_coin entry.output
  have same : (taken.map fun coin => coin.output.coin.2).toFinset = selection.setCoinsRet := by
    ext key
    rw [List.mem_toFinset, mem_map]
    constructor
    · intro ⟨coin, mem, here⟩
      rw [← here]
      exact of_decide_eq_true (mem_filter.mp mem).2
    · intro mem
      have chosen := mem
      rw [set, List.mem_toFinset] at chosen
      obtain ⟨coin, inside, here⟩ := mem_map.mp chosen
      obtain ⟨entry, available, rfl⟩ := origin coin inside
      refine ⟨entry, mem_filter.mpr ⟨same.mem_iff.mpr available, decide_eq_true ?_⟩, here⟩
      rw [here]
      exact mem
  rw [values, ← List.sum_toFinset coinValue keys, same, set, total]
  exact sum_keys nodup worth

end choice

end SpendWallet

end DogeCash
