import DogeCash.Wallet.BestSubset

/-! # Coin selection covers the target

A pass over the outputs either selects coins that cover the target, or all it looked at are worth
less. `SelectCoinsMinConf` fails only after a pass over all eligible outputs. This holds as long as
the eligible outputs together, and the target and a cent, are what an `int64_t` holds; beyond it a
single small coin may be returned for a large target.
-/

namespace DogeCash

open Prod (snd fst)

namespace CoinSelection

/-- Coins are inserted into the set, and their values into the total, which wraps around. -/
theorem foldl_insertCoin (coins : List (Int × WalletOutput)) {selection : CoinSelection}
    (fits : FitsInt64 selection.nValueRet) :
    coins.foldl insertCoin selection = ⟨selection.found,
      (coins.map snd).toFinset ∪ selection.setCoinsRet,
      wrapInt64 (selection.nValueRet + (coins.map fst).sum)⟩ := by
  induction coins generalizing selection with
  | nil =>
    rw [List.foldl_nil, List.map_nil, List.map_nil, List.toFinset_nil, Finset.empty_union,
      List.sum_nil, add_zero, wrapInt64_of_fits fits]
  | cons coin coins ih =>
    have kept : FitsInt64 (insertCoin selection coin).nValueRet := fits_wrapInt64 _
    rw [List.foldl_cons, ih kept, List.map_cons, List.map_cons, List.toFinset_cons, List.sum_cons]
    unfold insertCoin
    rw [Finset.union_insert, Finset.insert_union, addInt64, wrapInt64_wrap_add, add_assoc]

theorem of_eq (coins : List (Int × WalletOutput)) :
    of coins = ⟨true, (coins.map snd).toFinset, wrapInt64 (coins.map fst).sum⟩ := by
  rw [of, foldl_insertCoin coins (by decide), Finset.union_empty, zero_add]

theorem of_mk {coins : List (Int × WalletOutput)} (fits : TotalFits (coins.map fst)) :
    of coins = ⟨true, (coins.map snd).toFinset, (coins.map fst).sum⟩ := by
  rw [of_eq, fits.wrap]

/-- The outputs are worth what an `int64_t` holds, and none is worth less than zero. -/
abbrev OutputsFit (outputs : List COutput) : Prop := TotalFits (outputs.map COutput.nValue)

theorem map_fst_coin (outputs : List COutput) :
    (outputs.map COutput.coin).map fst = outputs.map COutput.nValue := List.map_map ..

/-- Some of the outputs that fit are outputs that fit. -/
theorem OutputsFit.part {outputs others : List COutput} (fits : OutputsFit outputs)
    (inside : others.Subperm outputs) : OutputsFit others := by
  obtain ⟨arranged, same, sublist⟩ := inside
  exact TotalFits.subperm fits ⟨arranged.map _, same.map _, sublist.map _⟩

/-- Coins of outputs that fit have a total that fits. -/
theorem OutputsFit.coins {outputs : List COutput} (fits : OutputsFit outputs)
    {coins : List (Int × WalletOutput)} (inside : coins.Subperm (outputs.map COutput.coin)) :
    TotalFits (coins.map fst) := by
  obtain ⟨arranged, same, sublist⟩ := inside
  refine TotalFits.subperm fits ?_
  rw [← map_fst_coin]
  exact ⟨arranged.map _, same.map _, sublist.map _⟩

/-- The coins are selected from outputs, and cover a target. -/
structure Covers (outputs : List COutput) (nTargetValue : Int) (selection : CoinSelection) :
    Prop where
  coins : ∃ coins, coins.Subperm (outputs.map COutput.coin) ∧ selection = of coins
  enough : nTargetValue ≤ selection.nValueRet

variable {outputs : List COutput} {nTargetValue : Int} {selection : CoinSelection}

theorem Covers.of_coins (fits : OutputsFit outputs) {coins : List (Int × WalletOutput)}
    (inside : coins.Subperm (outputs.map COutput.coin))
    (enough : nTargetValue ≤ (coins.map fst).sum) :
    Covers outputs nTargetValue (of coins) := by
  refine ⟨⟨coins, inside, rfl⟩, ?_⟩
  rw [of_mk (fits.coins inside)]
  exact enough

theorem Covers.single (fits : OutputsFit outputs) {output : COutput} (mem : output ∈ outputs)
    (enough : nTargetValue ≤ output.nValue) : Covers outputs nTargetValue (of [output.coin]) := by
  refine .of_coins fits (List.singleton_subperm_iff.mpr (List.mem_map_of_mem mem)) ?_
  rw [List.map_singleton, List.sum_singleton]
  exact enough

theorem Covers.mono {larger : List COutput} (covers : Covers outputs nTargetValue selection)
    (inside : outputs.Subperm larger) : Covers larger nTargetValue selection := by
  obtain ⟨⟨coins, part, selects⟩, enough⟩ := covers
  obtain ⟨arranged, same, sublist⟩ := inside
  exact ⟨⟨coins, part.trans ⟨arranged.map _, same.map _, sublist.map _⟩, selects⟩, enough⟩

end CoinSelection

open CoinSelection

/-- What a pass knows of the outputs it has looked at. -/
structure CoinScan.Of (nTargetValue : Int) (seen : List COutput) (scan : CoinScan) : Prop where
  notTarget : ∀ output ∈ seen, output.nValue ≠ nTargetValue
  lower : scan.vValue =
    (seen.filter fun output => output.nValue < nTargetValue + CENT).map COutput.coin
  total : scan.nTotalLower = (scan.vValue.map fst).sum
  larger : ∀ coin, scan.coinLowestLarger.2 = some coin → ∃ output ∈ seen,
    output.coin = (scan.coinLowestLarger.1, coin) ∧ nTargetValue + CENT ≤ output.nValue
  noLarger : scan.coinLowestLarger.2 = none → scan.coinLowestLarger.1 = maxAmount ∧
    ∀ output ∈ seen, output.nValue < nTargetValue + CENT

theorem CoinScan.Of.empty (nTargetValue : Int) : CoinScan.Of nTargetValue [] {} :=
  ⟨nofun, rfl, rfl, nofun, fun _ => ⟨rfl, nofun⟩⟩

theorem COutput.nValue_lt_maxAmount (output : COutput) : output.nValue < maxAmount := by
  have bound := output.inRange _ (List.get_mem output.tx.vout ⟨output.i, output.inside⟩)
  unfold COIN at bound
  unfold COutput.nValue maxAmount
  omega

namespace CoinSelectionEnv

variable (env : CoinSelectionEnv) (nTargetValue nConfMine nConfTheirs : Int)

def isEligible (output : COutput) : Bool :=
  output.fSpendable &&
    !decide (output.nDepth < if env.isFromMe output.tx then nConfMine else nConfTheirs)

def considers (tryDenom : ℕ) (output : COutput) : Bool :=
  env.isEligible nConfMine nConfTheirs output &&
    !(tryDenom = 0 && env.isDenominatedAmount output.nValue)

section pass

variable {env nTargetValue nConfMine nConfTheirs} {tryDenom : ℕ} {scan : CoinScan}
  {output : COutput} {seen : List COutput}

theorem scanOutput_eq :
    env.scanOutput nTargetValue nConfMine nConfTheirs tryDenom scan output =
      if env.considers nConfMine nConfTheirs tryDenom output then
        if output.nValue = nTargetValue then .error output.coin
        else if output.nValue < addInt64 nTargetValue CENT then
          .ok { scan with
            vValue := scan.vValue ++ [output.coin]
            nTotalLower := addInt64 scan.nTotalLower output.nValue }
        else if output.nValue < scan.coinLowestLarger.1 then
          .ok { scan with coinLowestLarger := (output.coin.1, some output.coin.2) }
        else .ok scan
      else .ok scan := by
  unfold scanOutput considers isEligible
  dsimp only
  cases output.fSpendable with
  | false => rfl
  | true =>
    by_cases shallow : output.nDepth < if env.isFromMe output.tx then nConfMine else nConfTheirs
    · rw [if_pos shallow, decide_eq_true shallow]
      rfl
    · rw [if_neg shallow, decide_eq_false shallow]
      cases tryDenom = 0 && env.isDenominatedAmount output.nValue with
      | false => rfl
      | true => rfl

variable (room : FitsInt64 (nTargetValue + CENT))
include room

theorem addInt64_cent : addInt64 nTargetValue CENT = nTargetValue + CENT := wrapInt64_of_fits room

theorem scanned_scanOutput (fits : OutputsFit (seen ++ [output]))
    (scanned : CoinScan.Of nTargetValue seen scan)
    (considered : env.considers nConfMine nConfTheirs tryDenom output = true)
    (ne : output.nValue ≠ nTargetValue) :
    ∃ next, env.scanOutput nTargetValue nConfMine nConfTheirs tryDenom scan output = .ok next ∧
      CoinScan.Of nTargetValue (seen ++ [output]) next := by
  have notTarget : ∀ other ∈ seen ++ [output], other.nValue ≠ nTargetValue :=
    List.forall_mem_append.mpr ⟨scanned.notTarget, List.forall_mem_singleton.mpr ne⟩
  have grown : ∀ {property : COutput → Prop}, (∃ other ∈ seen, property other) →
      ∃ other ∈ seen ++ [output], property other :=
    fun ⟨other, mem, holds⟩ => ⟨other, List.mem_append_left _ mem, holds⟩
  rw [scanOutput_eq, if_pos considered, if_neg ne, addInt64_cent room]
  split_ifs with small smaller
  · refine ⟨_, rfl, notTarget, ?_, ?_, fun coin held => grown (scanned.larger coin held),
      fun free => ?_⟩
    · rw [List.filter_append, List.map_append, ← scanned.lower,
        List.filter_singleton, decide_eq_true small]
      rfl
    · have part : (scan.vValue ++ [output.coin]).Subperm ((seen ++ [output]).map COutput.coin) := by
        rw [scanned.lower, List.map_append]
        exact (((List.filter_sublist).map _).append_right _).subperm
      have total : ((scan.vValue ++ [output.coin]).map fst).sum =
          scan.nTotalLower + output.nValue := by
        rw [List.map_append, List.sum_append, ← scanned.total, List.map_singleton,
          List.sum_singleton]
        rfl
      rw [addInt64, ← total]
      exact (fits.coins part).wrap
    · obtain ⟨first, below⟩ := scanned.noLarger free
      exact ⟨first, List.forall_mem_append.mpr ⟨below, List.forall_mem_singleton.mpr small⟩⟩
  all_goals
    have lower : (seen ++ [output]).filter (fun other => other.nValue < nTargetValue + CENT) =
        seen.filter fun other => other.nValue < nTargetValue + CENT := by
      rw [List.filter_append, List.filter_singleton, decide_eq_false small]
      exact List.append_nil _
  · refine ⟨_, rfl, notTarget, ?_, scanned.total, ?_,
      fun free => absurd free (Option.some_ne_none _)⟩
    · rw [lower]
      exact scanned.lower
    · rintro coin ⟨⟩
      exact ⟨output, List.mem_append_right _ List.mem_cons_self, rfl, not_lt.mp small⟩
  · refine ⟨_, rfl, notTarget, ?_, scanned.total, fun coin held => grown (scanned.larger coin held),
      fun free => ?_⟩
    · rw [lower]
      exact scanned.lower
    · have first := (scanned.noLarger free).1
      exact absurd (first ▸ output.nValue_lt_maxAmount) smaller

/-- The loop ends at an output of exactly the target, or has looked at all. -/
theorem foldlM_scanOutput (outputs : List COutput)
    (fits : OutputsFit (seen ++ outputs.filter (env.considers nConfMine nConfTheirs tryDenom)))
    (scanned : CoinScan.Of nTargetValue seen scan) :
    (∃ output ∈ outputs.filter (env.considers nConfMine nConfTheirs tryDenom),
      output.nValue = nTargetValue ∧
      outputs.foldlM (env.scanOutput nTargetValue nConfMine nConfTheirs tryDenom) scan =
        .error output.coin) ∨
    ∃ last, outputs.foldlM (env.scanOutput nTargetValue nConfMine nConfTheirs tryDenom) scan =
        .ok last ∧
      CoinScan.Of nTargetValue
        (seen ++ outputs.filter (env.considers nConfMine nConfTheirs tryDenom)) last := by
  induction outputs generalizing seen scan with
  | nil => exact .inr ⟨scan, rfl, by rw [List.filter_nil, List.append_nil]; exact scanned⟩
  | cons output rest ih =>
    rw [List.filter_cons] at fits
    rw [List.foldlM_cons, List.filter_cons]
    cases considered : env.considers nConfMine nConfTheirs tryDenom output with
    | false =>
      rw [considered, if_neg Bool.false_ne_true] at fits
      rw [scanOutput_eq, considered, if_neg Bool.false_ne_true, if_neg Bool.false_ne_true]
      exact ih fits scanned
    | true =>
      rw [considered, if_pos rfl, List.append_cons] at fits
      rw [if_pos rfl]
      by_cases target : output.nValue = nTargetValue
      · refine .inl ⟨output, List.mem_cons_self, target, ?_⟩
        rw [scanOutput_eq, if_pos considered, if_pos target]
        rfl
      · have here : OutputsFit (seen ++ [output]) := by
          exact TotalFits.subperm fits ((List.sublist_append_left _ _).map _).subperm
        obtain ⟨next, scans, taken⟩ := scanned_scanOutput room here scanned considered target
        rw [scans, List.append_cons]
        rcases ih fits taken with ⟨other, mem, found⟩ | looked
        · exact .inl ⟨other, List.mem_cons_of_mem _ mem, found⟩
        · exact .inr looked

theorem bestSubset_covers {vValue : List (Int × WalletOutput)} {nTotalLower : Int}
    (fits : TotalFits (vValue.map fst)) (total : nTotalLower = (vValue.map fst).sum)
    (enough : nTargetValue ≤ nTotalLower) :
    CoversTarget vValue nTargetValue (env.bestSubset nTargetValue vValue nTotalLower) := by
  unfold bestSubset
  rw [addInt64_cent room]
  dsimp only
  split_ifs with again
  · have covers := approximateBestSubset_covers fits total again.2 (env.randbool 1) 1000
    have cent : nTargetValue ≤ nTargetValue + CENT := le_add_of_nonneg_right (by decide)
    exact ⟨covers.total, cent.trans covers.enough⟩
  · exact approximateBestSubset_covers fits total enough (env.randbool 0) 1000

theorem covers_solve (fits : OutputsFit seen) (scanned : CoinScan.Of nTargetValue seen scan)
    (enough : nTargetValue ≤ scan.nTotalLower) :
    Covers seen nTargetValue (env.solve nTargetValue scan) := by
  have sorted : (env.sort compareValueOnly scan.vValue.reverse).reverse.Perm scan.vValue :=
    (List.reverse_perm _).trans ((env.sort_perm _ _).trans (List.reverse_perm _))
  have lower : scan.vValue.Subperm (seen.map COutput.coin) := by
    rw [scanned.lower]
    exact ((List.filter_sublist).map _).subperm
  unfold solve
  dsimp only
  generalize (env.sort compareValueOnly scan.vValue.reverse).reverse = vValue at sorted
  have total : scan.nTotalLower = (vValue.map fst).sum :=
    scanned.total.trans (sorted.map _).sum_eq.symm
  have arranged : TotalFits (vValue.map fst) := fits.coins (sorted.subperm.trans lower)
  have best : CoversTarget vValue nTargetValue
      (env.bestSubset nTargetValue vValue scan.nTotalLower) :=
    bestSubset_covers room arranged total enough
  generalize env.bestSubset nTargetValue vValue scan.nTotalLower = found at best
  have subset : Covers seen nTargetValue (of (selected found.1 vValue)) := by
    have inside : (selected found.1 vValue).Subperm (seen.map COutput.coin) :=
      (selected_sublist _ _).subperm.trans (sorted.subperm.trans lower)
    exact .of_coins fits inside (best.enough.trans_eq best.total)
  have larger := scanned.larger
  generalize scan.coinLowestLarger = coinLowestLarger at larger ⊢
  obtain ⟨value, coin | coin⟩ := coinLowestLarger
  · exact subset
  · dsimp only
    split_ifs
    · obtain ⟨output, mem, same, above⟩ := larger coin rfl
      rw [← same]
      exact .single fits mem (by unfold CENT at above; omega)
    · exact subset

/-- A pass selects coins that cover the target, or goes on, when all it has looked at are worth
less. -/
theorem selectPass_spec (outputs : List COutput)
    (fits : OutputsFit (outputs.filter (env.considers nConfMine nConfTheirs tryDenom)))
    (next : Int × Option WalletOutput → CoinSelection) :
    (Covers (outputs.filter (env.considers nConfMine nConfTheirs tryDenom)) nTargetValue
        (env.selectPass nTargetValue nConfMine nConfTheirs tryDenom (maxAmount, none) outputs
          next) ∨
      env.selectPass nTargetValue nConfMine nConfTheirs tryDenom (maxAmount, none) outputs next =
        next (maxAmount, none) ∧
      ((outputs.filter (env.considers nConfMine nConfTheirs tryDenom)).map COutput.nValue).sum <
        nTargetValue) ∧
    ((∃ output ∈ outputs.filter (env.considers nConfMine nConfTheirs tryDenom),
        output.nValue = nTargetValue) ∨
      (((outputs.filter (env.considers nConfMine nConfTheirs tryDenom)).filter
        fun output => output.nValue < nTargetValue + CENT).map COutput.nValue).sum = nTargetValue →
      (env.selectPass nTargetValue nConfMine nConfTheirs tryDenom (maxAmount, none) outputs
        next).nValueRet = nTargetValue) := by
  unfold selectPass
  rcases foldlM_scanOutput room outputs fits (CoinScan.Of.empty nTargetValue) with
    ⟨output, mem, target, found⟩ | ⟨scan, found, scanned⟩
  · rw [found]
    refine ⟨.inl (.single fits mem target.ge), fun _ => ?_⟩
    dsimp only
    rw [of_mk (fits.coins (List.singleton_subperm_iff.mpr (List.mem_map_of_mem mem)))]
    exact (List.sum_singleton).trans target
  · rw [found]
    dsimp only
    rw [List.nil_append] at scanned
    generalize outputs.filter (env.considers nConfMine nConfTheirs tryDenom) = seen
      at scanned fits ⊢
    have total : ((seen.filter fun output => output.nValue < nTargetValue + CENT).map
        COutput.nValue).sum = scan.nTotalLower := by
      rw [scanned.total, scanned.lower, map_fst_coin]
    rw [total]
    have lower : scan.vValue.Subperm (seen.map COutput.coin) := by
      rw [scanned.lower]
      exact ((List.filter_sublist).map _).subperm
    have missed : ¬∃ output ∈ seen, output.nValue = nTargetValue :=
      fun ⟨output, mem, target⟩ => scanned.notTarget output mem target
    by_cases all : scan.nTotalLower = nTargetValue
    · rw [if_pos all]
      refine ⟨.inl (.of_coins fits lower (scanned.total ▸ all.ge)), fun _ => ?_⟩
      rw [of_mk (fits.coins lower)]
      exact scanned.total.symm.trans all
    · refine ⟨?_, fun hit => absurd hit (not_or.mpr ⟨missed, all⟩)⟩
      split_ifs with less
      · have larger := scanned.larger
        have noLarger := scanned.noLarger
        generalize scan.coinLowestLarger = coinLowestLarger at larger noLarger ⊢
        obtain ⟨value, coin | coin⟩ := coinLowestLarger
        · obtain ⟨first, below⟩ := noLarger rfl
          refine .inr ⟨congrArg (fun value => next (value, none)) first, ?_⟩
          have every : (seen.filter fun output => output.nValue < nTargetValue + CENT) = seen :=
            List.filter_eq_self.mpr fun output mem => decide_eq_true (below output mem)
          rw [every] at total
          exact total.trans_lt less
        · obtain ⟨output, mem, same, above⟩ := larger coin rfl
          refine .inl ?_
          dsimp only
          rw [← same]
          exact .single fits mem (by unfold CENT at above; omega)
      · exact .inl (covers_solve room fits scanned (not_lt.mp less))

end pass

theorem considers_all :
    env.considers nConfMine nConfTheirs 1 = env.isEligible nConfMine nConfTheirs :=
  funext fun _ => Bool.and_true _

theorem considers_undenominated (output : COutput) :
    env.considers nConfMine nConfTheirs 0 output =
      (env.isEligible nConfMine nConfTheirs output && !env.isDenominatedAmount output.nValue) := by
  unfold considers
  rw [decide_eq_true rfl, Bool.true_and]

theorem selectCoinsMinConf_covers (room : FitsInt64 (nTargetValue + CENT)) (vCoins : List COutput)
    (fits : OutputsFit (vCoins.filter (env.isEligible nConfMine nConfTheirs))) :
    Covers (vCoins.filter (env.isEligible nConfMine nConfTheirs)) nTargetValue
        (env.selectCoinsMinConf nTargetValue nConfMine nConfTheirs vCoins) ∨
      env.selectCoinsMinConf nTargetValue nConfMine nConfTheirs vCoins = { found := false } ∧
      ((vCoins.filter (env.isEligible nConfMine nConfTheirs)).map COutput.nValue).sum <
        nTargetValue := by
  have arranged : (env.sort env.lessThenDenom (env.shuffle vCoins)).Perm vCoins :=
    (env.sort_perm _ _).trans (env.shuffle_perm vCoins)
  unfold selectCoinsMinConf
  generalize env.sort env.lessThenDenom (env.shuffle vCoins) = outputs at arranged
  have eligible := arranged.filter (env.isEligible nConfMine nConfTheirs)
  have undenominated : (outputs.filter (env.considers nConfMine nConfTheirs 0)).Subperm
      (vCoins.filter (env.isEligible nConfMine nConfTheirs)) := by
    have part : (outputs.filter (env.considers nConfMine nConfTheirs 0)).Sublist
        (outputs.filter (env.isEligible nConfMine nConfTheirs)) :=
      List.monotone_filter_right outputs fun _ considered => (Bool.and_eq_true_iff.mp considered).1
    exact part.subperm.trans eligible.subperm
  have every : OutputsFit (outputs.filter (env.considers nConfMine nConfTheirs 1)) := by
    rw [considers_all]
    exact TotalFits.subperm fits (eligible.map _).subperm
  rcases (selectPass_spec room outputs (fits.part undenominated) _).1 with covers | ⟨goesOn, -⟩
  · exact .inl (covers.mono undenominated)
  · rw [goesOn]
    rcases (selectPass_spec room outputs every fun _ => { found := false }).1 with
      covers | ⟨fails, less⟩
    · rw [considers_all] at covers
      exact .inl (covers.mono eligible.subperm)
    · rw [considers_all] at less
      exact .inr ⟨fails, (eligible.map COutput.nValue).sum_eq ▸ less⟩

end CoinSelectionEnv

def coinValue (coin : WalletOutput) : Int := (coin.1.vout[coin.2]?.getD CTxOut.null).nValue

theorem coinValue_coin (output : COutput) : coinValue output.coin.2 = output.coin.1 := by
  have here : output.tx.vout[output.i]? = some (output.tx.vout.get ⟨output.i, output.inside⟩) :=
    List.getElem?_eq_getElem output.inside
  unfold coinValue COutput.coin COutput.nValue
  rw [here, Option.getD_some]

section covers

variable {outputs : List COutput} {nTargetValue : Int} {selection : CoinSelection}

section

variable (covers : Covers outputs nTargetValue selection)
include covers

theorem CoinSelection.Covers.chosen (fits : OutputsFit outputs)
    (distinct : (outputs.map fun output => output.coin.2).Nodup) :
    (∀ coin ∈ selection.setCoinsRet, ∃ output ∈ outputs, output.coin.2 = coin) ∧
      ∑ coin ∈ selection.setCoinsRet, coinValue coin = selection.nValueRet := by
  obtain ⟨⟨coins, inside, rfl⟩, -⟩ := covers
  have origin : ∀ coin ∈ coins, ∃ output ∈ outputs, output.coin = coin :=
    fun coin mem => List.mem_map.mp (inside.subset mem)
  rw [of_mk (fits.coins inside)]
  refine ⟨fun coin mem => ?_, sum_keys ?_ fun coin mem => ?_⟩
  · obtain ⟨selected, chosen, rfl⟩ := List.mem_map.mp (List.mem_toFinset.mp mem)
    obtain ⟨output, eligible, rfl⟩ := origin selected chosen
    exact ⟨output, eligible, rfl⟩
  · obtain ⟨arranged, same, sublist⟩ := inside
    refine nodup_of_subperm ⟨arranged.map snd, same.map _, sublist.map snd⟩ ?_
    rw [List.map_map]
    exact distinct
  · obtain ⟨output, -, rfl⟩ := origin coin mem
    exact coinValue_coin output

theorem CoinSelection.Covers.le_sum (fits : OutputsFit outputs) :
    nTargetValue ≤ (outputs.map COutput.nValue).sum := by
  obtain ⟨⟨coins, inside, rfl⟩, enough⟩ := covers
  rw [of_mk (fits.coins inside)] at enough
  obtain ⟨arranged, same, sublist⟩ := inside
  rw [← map_fst_coin]
  refine enough.trans (sum_le_of_subperm ⟨arranged.map _, same.map _, sublist.map _⟩ ?_)
  rw [map_fst_coin]
  exact fits.nonneg

theorem CoinSelection.Covers.found : selection.found = true := by
  obtain ⟨⟨-, -, rfl⟩, -⟩ := covers
  rw [of_eq]

end

end covers

/-- **Coin selection is sound and complete**, whatever the order of the outputs and the random
bits are, for a target that fits with a cent and eligible outputs whose total fits. It fails exactly
if the eligible outputs are worth less than the target. Otherwise it returns a set of them with its
total, which covers the target, and is the target if an eligible output without a denomination is,
or all of those below the target and a cent together. -/
theorem selectCoinsMinConf_sound_complete (env : CoinSelectionEnv)
    (nTargetValue nConfMine nConfTheirs : Int) (vCoins : List COutput)
    (distinct : (vCoins.map fun output => output.coin.2).Nodup)
    (positive : ∀ output ∈ vCoins, 0 < output.nValue) (room : FitsInt64 (nTargetValue + CENT))
    (total : ((vCoins.filter (env.isEligible nConfMine nConfTheirs)).map COutput.nValue).sum <
      2 ^ 63) :
    let eligible := vCoins.filter (env.isEligible nConfMine nConfTheirs)
    let undenominated := eligible.filter fun output => !env.isDenominatedAmount output.nValue
    let selection := env.selectCoinsMinConf nTargetValue nConfMine nConfTheirs vCoins
    (selection.found = false ↔ (eligible.map COutput.nValue).sum < nTargetValue) ∧
    (selection.found = true →
      (∀ coin ∈ selection.setCoinsRet, ∃ output ∈ eligible, output.coin.2 = coin) ∧
      ∑ coin ∈ selection.setCoinsRet, coinValue coin = selection.nValueRet ∧
      nTargetValue ≤ selection.nValueRet) ∧
    ((∃ output ∈ undenominated, output.nValue = nTargetValue) ∨
      ((undenominated.filter fun output => output.nValue < nTargetValue + CENT).map
        COutput.nValue).sum = nTargetValue → selection.nValueRet = nTargetValue) := by
  intro eligible undenominated selection
  have fits : OutputsFit eligible := ⟨List.forall_mem_map.mpr fun output mem =>
    (positive output (List.mem_of_mem_filter mem)).le, total⟩
  have distinctEligible : (eligible.map fun output => output.coin.2).Nodup :=
    distinct.sublist (List.filter_sublist.map _)
  have result := env.selectCoinsMinConf_covers nTargetValue nConfMine nConfTheirs room vCoins fits
  refine ⟨?_, fun found => ?_, fun hit => ?_⟩
  · rcases result with covers | ⟨fails, less⟩
    · have worth := covers.le_sum fits
      exact ⟨fun missed => absurd (covers.found.symm.trans missed) nofun,
        fun less => absurd worth (not_le.mpr less)⟩
    · exact ⟨fun _ => less, fun _ => congrArg CoinSelection.found fails⟩
  · rcases result with covers | ⟨fails, -⟩
    · obtain ⟨origin, total⟩ := covers.chosen fits distinctEligible
      exact ⟨origin, total, covers.enough⟩
    · exact absurd (found.symm.trans (congrArg CoinSelection.found fails)) nofun
  · have arranged : (env.sort env.lessThenDenom (env.shuffle vCoins)).Perm vCoins :=
      (env.sort_perm _ _).trans (env.shuffle_perm vCoins)
    have considered : ((env.sort env.lessThenDenom (env.shuffle vCoins)).filter
        (env.considers nConfMine nConfTheirs 0)).Perm undenominated := by
      have same : undenominated = vCoins.filter (env.considers nConfMine nConfTheirs 0) := by
        refine List.filter_filter.trans (List.filter_congr fun output _ => ?_)
        rw [env.considers_undenominated, Bool.and_comm]
      rw [same]
      exact arranged.filter _
    have part : undenominated.Subperm eligible := (List.filter_sublist).subperm
    have few : OutputsFit ((env.sort env.lessThenDenom (env.shuffle vCoins)).filter
        (env.considers nConfMine nConfTheirs 0)) := fits.part (considered.subperm.trans part)
    refine (CoinSelectionEnv.selectPass_spec room _ few _).2 (hit.imp ?_ fun total => ?_)
    · rintro ⟨output, mem, target⟩
      exact ⟨output, considered.mem_iff.mpr mem, target⟩
    · rw [((considered.filter _).map _).sum_eq]
      exact total

theorem mergeSort_sorted {α : Type} {less : α → α → Bool}
    (asymm : ∀ first second, less first second = true → less second first = false)
    (trans : ∀ first second third, less second first = false → less third second = false →
      less third first = false) (items : List α) :
    (items.mergeSort fun first second => !less second first).Pairwise
      fun first second => less second first = false := by
  have transitive : ∀ first second third, (!less second first) = true →
      (!less third second) = true → (!less third first) = true := by
    simpa using trans
  have total : ∀ first second, (!less second first || !less first second) = true := by
    intro first second
    cases before : less second first with
    | false => rfl
    | true =>
      rw [asymm _ _ before]
      rfl
  exact (List.pairwise_mergeSort transitive total items).imp fun ordered => by simpa using ordered

/-- A wallet with the denominations that are set at the start, that leaves its outputs in their
order and sorts by merging. -/
def sampleSelection : CoinSelectionEnv where
  obfuScationDenominations := [10000 * COIN + 10000000, 1000 * COIN + 1000000, 100 * COIN + 100000,
    10 * COIN + 10000, 1 * COIN + 1000, 10000000 + 100]
  isFromMe := fun _ => false
  shuffle := fun outputs => outputs
  sort := fun less items => items.mergeSort fun first second => !less second first
  randbool := fun _ nRep i => (nRep + i) % 2 = 0
  shuffle_perm := fun _ => List.Perm.refl _
  sort_perm := fun _ items => List.mergeSort_perm items _
  sort_sorted := fun _ asymm trans items => mergeSort_sorted asymm trans items

/-- The output of a transaction of its own, with more than six confirmations. -/
def sampleOutput (hash : UInt256) (nValue : Int) (inRange : nValue ≤ 21000000 * COIN) :
    COutput where
  tx := ⟨hash, 1, [], [.of nValue []], 0⟩
  i := 0
  nDepth := 144
  fSpendable := true
  inside := Nat.one_pos
  inRange := List.forall_mem_singleton.mpr inRange

def sampleOutputs : List COutput :=
  [sampleOutput 1 (1 * CENT) (by decide), sampleOutput 2 (2 * CENT) (by decide),
    sampleOutput 3 (5 * CENT) (by decide), sampleOutput 4 (10 * CENT) (by decide),
    sampleOutput 5 (20 * CENT) (by decide)]

/-- Outputs of together 38 cents cover 34 and make up 38. -/
theorem selectCoinsMinConf_sample :
    (sampleSelection.selectCoinsMinConf (34 * CENT) 1 6 sampleOutputs).found = true ∧
    34 * CENT ≤ (sampleSelection.selectCoinsMinConf (34 * CENT) 1 6 sampleOutputs).nValueRet ∧
    (sampleSelection.selectCoinsMinConf (38 * CENT) 1 6 sampleOutputs).nValueRet = 38 * CENT := by
  have distinct : (sampleOutputs.map fun output => output.coin.2).Nodup := by decide
  have positive : ∀ output ∈ sampleOutputs, 0 < output.nValue := by decide
  obtain ⟨fails, covers, -⟩ := selectCoinsMinConf_sound_complete sampleSelection (34 * CENT) 1 6
    sampleOutputs distinct positive (by decide) (by decide)
  obtain ⟨-, -, all⟩ := selectCoinsMinConf_sound_complete sampleSelection (38 * CENT) 1 6
    sampleOutputs distinct positive (by decide) (by decide)
  have found : (sampleSelection.selectCoinsMinConf (34 * CENT) 1 6 sampleOutputs).found = true :=
    Bool.not_eq_false _ |>.mp fun missed => absurd (fails.mp missed) (by decide)
  exact ⟨found, (covers found).2.2, all (.inr (by decide))⟩

/-- For a target so large that it and a cent wrap around, a coin of the smallest unit counts as one
that is larger than the target, and is returned. -/
theorem selectCoinsMinConf_wraps :
    let outputs := [sampleOutput 1 1 (by decide)]
    let selection := sampleSelection.selectCoinsMinConf (2 ^ 63 - 500000) 1 6 outputs
    ((outputs.filter (sampleSelection.isEligible 1 6)).map COutput.nValue).sum < 2 ^ 63 - 500000 ∧
      selection.found = true ∧ selection.nValueRet < 2 ^ 63 - 500000 := by
  have arranged : sampleSelection.sort sampleSelection.lessThenDenom
      (sampleSelection.shuffle [sampleOutput 1 1 (by decide)]) = [sampleOutput 1 1 (by decide)] :=
    List.perm_singleton.mp (List.mergeSort_perm _ _)
  refine ⟨by decide, ?_⟩
  simp only [CoinSelectionEnv.selectCoinsMinConf, arranged]
  decide

end DogeCash
